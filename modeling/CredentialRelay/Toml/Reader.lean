import CredentialRelay.Bytes
import CredentialRelay.Toml.Scalar

namespace CredentialRelay.Toml

def maxParts : Nat := 79

def skipComment (cs : List Char) : List Char :=
  match cs with
  | '#' :: rest => rest.dropWhile isPlain
  | cs => cs

def lineRest? (cs : List Char) : Option (List Char) :=
  match skipComment (skipBlank cs) with
  | [] => some []
  | cs => newline? cs

def skipLines (inComment : Bool) : List Char → List Char
  | [] => []
  | c :: rest =>
    if c = '\n' || (c = '\r' && rest.head? = some '\n') then skipLines false rest
    else if inComment && isPlain c then skipLines true rest
    else if !inComment && isBlank c then skipLines false rest
    else if !inComment && c = '#' then skipLines true rest
    else c :: rest

def isBare (c : Char) : Bool :=
  ('A' ≤ c && c ≤ 'Z') || ('a' ≤ c && c ≤ 'z') || ('0' ≤ c && c ≤ '9') || c == '_' || c == '-'

def keyPart? (cs : List Char) : Option (String × List Char) :=
  match cs with
  | '"' :: rest => basicRest 0 [] rest
  | '\'' :: rest => literal? rest
  | cs =>
    match cs.takeWhile isBare with
    | [] => none
    | part => some (String.ofList part, cs.dropWhile isBare)

def keyParts? : (fuel : Nat) → List Char → Option (List String × List Char)
  | 0, _ => none
  | fuel + 1, cs =>
    match keyPart? (skipBlank cs) with
    | none => none
    | some (part, rest) =>
      match skipBlank rest with
      | '.' :: rest => (keyParts? fuel rest).map fun (parts, rest) => (part :: parts, rest)
      | rest => some ([part], rest)

def key? (cs : List Char) : Option ((List String × String) × List Char) := do
  let (parts, rest) ← keyParts? maxParts cs
  let key ← parts.getLast?
  pure ((parts.dropLast, key), rest)

mutual

def value? : (fuel room : Nat) → List Char → Option (Toml × List Char)
  | 0, _, _ => none
  | fuel + 1, room, cs =>
    match cs with
    | '[' :: rest =>
      match room with
      | 0 => none
      | room + 1 => (items? fuel room (skipLines false rest)).map fun (items, rest) =>
          (array items, rest)
    | '\x7b' :: rest =>
      match room with
      | 0 => none
      | room + 1 =>
        match skipBlank rest with
        | '\x7d' :: rest => some (table .inline [], rest)
        | rest =>
          match pairs? fuel room rest with
          | none => none
          | some (assignments, rest) =>
            (assign? assignments []).map fun entries => (table .inline entries, rest)
    | cs => scalar? cs

def items? : (fuel room : Nat) → List Char → Option (List Toml × List Char)
  | 0, _, _ => none
  | fuel + 1, room, cs =>
    match cs with
    | ']' :: rest => some ([], rest)
    | cs =>
      match value? fuel room cs with
      | none => none
      | some (item, rest) =>
        match skipLines false rest with
        | ']' :: rest => some ([item], rest)
        | ',' :: rest =>
          (items? fuel room (skipLines false rest)).map fun (items, rest) => (item :: items, rest)
        | _ => none

def pairs? : (fuel room : Nat) → List Char → Option (List Assignment × List Char)
  | 0, _, _ => none
  | fuel + 1, room, cs =>
    match assignment? fuel room cs with
    | none => none
    | some (assignment, rest) =>
      match skipBlank rest with
      | '\x7d' :: rest => some ([assignment], rest)
      | ',' :: rest =>
        (pairs? fuel room rest).map fun (assignments, rest) => (assignment :: assignments, rest)
      | _ => none

def assignment? : (fuel room : Nat) → List Char → Option (Assignment × List Char)
  | 0, _, _ => none
  | fuel + 1, room, cs =>
    match key? cs with
    | some ((path, key), '=' :: rest) =>
      (value? fuel room (skipBlank rest)).map fun (value, rest) => (⟨path, key, value⟩, rest)
    | _ => none

end

def header? (cs : List Char) : Option (Header × List Char) :=
  match cs with
  | '[' :: '[' :: rest =>
    match key? rest with
    | some ((path, key), ']' :: ']' :: rest) => some (.many path key, rest)
    | _ => none
  | '[' :: rest =>
    match key? rest with
    | some ((path, key), ']' :: rest) => some (.one path key, rest)
    | _ => none
  | _ => none

structure Parts where
  top : List Assignment
  sections : List (Header × List Assignment)

def Parts.addAssignment (assignment : Assignment) (parts : Parts) : Parts :=
  { parts with top := assignment :: parts.top }

def Parts.addHeader (header : Header) (parts : Parts) : Parts :=
  ⟨[], (header, parts.top) :: parts.sections⟩

def parts? : (fuel : Nat) → List Char → Option Parts
  | 0, _ => none
  | fuel + 1, cs =>
    match skipBlank cs with
    | [] => some ⟨[], []⟩
    | '#' :: rest =>
      match lineRest? ('#' :: rest) with
      | none => none
      | some rest => parts? fuel rest
    | '[' :: rest =>
      match header? ('[' :: rest) with
      | none => none
      | some (header, rest) =>
        match lineRest? rest with
        | none => none
        | some rest => (parts? fuel rest).map (·.addHeader header)
    | c :: rest =>
      match newline? (c :: rest) with
      | some rest => parts? fuel rest
      | none =>
        match assignment? (2 * rest.length + 4) maxParts (c :: rest) with
        | none => none
        | some (assignment, rest) =>
          match lineRest? rest with
          | none => none
          | some rest => (parts? fuel rest).map (·.addAssignment assignment)

def ofText? (text : String) : Option Toml :=
  let cs := match text.toList with
    | '\uFEFF' :: rest => rest
    | cs => cs
  (parts? (cs.length + 1) cs).bind fun parts => assemble? parts.top parts.sections

end CredentialRelay.Toml

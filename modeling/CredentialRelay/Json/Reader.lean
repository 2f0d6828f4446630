import CredentialRelay.Bytes
import CredentialRelay.Json

/-!
Reading JSON text, strictly: blanks are space, tab, line feed and carriage return, surrogate
escapes come in pairs, control characters are escaped, nothing follows the document, and at most
`maxDepth` arrays and objects are open at once.
-/

namespace CredentialRelay.Json

namespace Reader

def maxDepth : Nat := 127

def isSpace (c : Char) : Bool := c == ' ' || c == '\n' || c == '\t' || c == '\r'

def skipSpace (cs : List Char) : List Char := cs.dropWhile isSpace

def hexValue? (c : Char) : Option Nat :=
  if '0' ≤ c && c ≤ '9' then some (c.toNat - 48)
  else if 'a' ≤ c && c ≤ 'f' then some (c.toNat - 87)
  else if 'A' ≤ c && c ≤ 'F' then some (c.toNat - 55)
  else none

def unit? (a b c d : Char) : Option Nat := do
  pure ((((← hexValue? a) * 16 + (← hexValue? b)) * 16 + (← hexValue? c)) * 16 + (← hexValue? d))

def unescape? (c : Char) : Option Char :=
  if c = '"' || c = '\\' || c = '/' then some c
  else if c = 'n' then some '\n'
  else if c = 'r' then some '\r'
  else if c = 't' then some '\t'
  else if c = 'b' then some '\x08'
  else if c = 'f' then some '\x0c'
  else none

def isHighSurrogate (unit : Nat) : Bool := 0xD800 ≤ unit && unit < 0xDC00

def isLowSurrogate (unit : Nat) : Bool := 0xDC00 ≤ unit && unit < 0xE000

def stringRest (read : List Char) : List Char → Option (String × List Char)
  | [] => none
  | '"' :: rest => some (String.ofList read.reverse, rest)
  | '\\' :: 'u' :: a :: b :: c :: d :: rest =>
    match unit? a b c d with
    | none => none
    | some unit =>
      if isLowSurrogate unit then none
      else if isHighSurrogate unit then
        match rest with
        | '\\' :: 'u' :: e :: f :: g :: h :: rest =>
          match unit? e f g h with
          | none => none
          | some low =>
            if isLowSurrogate low then
              stringRest
                (Char.ofNat (0x10000 + (unit - 0xD800) * 0x400 + (low - 0xDC00)) :: read) rest
            else none
        | _ => none
      else stringRest (Char.ofNat unit :: read) rest
  | '\\' :: c :: rest =>
    match unescape? c with
    | none => none
    | some c => stringRest (c :: read) rest
  | c :: rest => if c < ' ' then none else stringRest (c :: read) rest

def isDigit (c : Char) : Bool := '0' ≤ c && c ≤ '9'

def digits? (cs : List Char) : Option (List Char × List Char) :=
  match cs.takeWhile isDigit with
  | [] => none
  | digits => some (digits, cs.dropWhile isDigit)

def shift (n : Nat) (c : Char) : Nat := n * 10 + (c.toNat - 48)

def valueOf (digits : List Char) : Nat := digits.foldl shift 0

def takeUp (significand : Nat) : List Char → Nat × List Char
  | [] => (significand, [])
  | c :: rest =>
    if shift significand c < UInt64.size then takeUp (shift significand c) rest
    else (significand, c :: rest)

def wholePart? (cs : List Char) : Option (List Char × List Char) :=
  match digits? cs with
  | some ('0' :: _ :: _, _) => none
  | result => result

def fraction? : List Char → Option (List Char × List Char)
  | '.' :: rest => digits? rest
  | cs => some ([], cs)

def exponent? (cs : List Char) : Option (Option Int × List Char) :=
  match cs with
  | c :: rest =>
    if c = 'e' || c = 'E' then
      match rest with
      | '-' :: rest => (digits? rest).map fun (ds, rest) => (some (-(valueOf ds : Int)), rest)
      | '+' :: rest => (digits? rest).map fun (ds, rest) => (some (valueOf ds : Int), rest)
      | rest => (digits? rest).map fun (ds, rest) => (some (valueOf ds : Int), rest)
    else some (none, cs)
  | [] => some (none, [])

def integerOr (negative : Bool) (whole : List Char) : Option Number :=
  match takeUp 0 whole with
  | (n, []) =>
    if !negative then some (.integer n)
    else if n = 0 || Decimal.signedLimit < n then some (.double (.ofNat true n))
    else some (.integer (-n))
  | (significand, left) => (Binary64.ofParts? negative significand left.length).map .double

/-- Digits before the point that do not fit count as powers of ten, those after it not at all. -/
def decimal? (negative : Bool) (whole fraction : List Char) (exponent : Int) : Option Binary64 :=
  let (significand, beyond) := takeUp 0 whole
  let (significand, left) := takeUp significand fraction
  Binary64.ofParts? negative significand
    (exponent + beyond.length - (fraction.length - left.length : Nat))

def numberAfterSign (negative : Bool) (cs : List Char) : Option (Number × List Char) := do
  let (whole, cs) ← wholePart? cs
  let (fraction, cs) ← fraction? cs
  let (exponent, cs) ← exponent? cs
  let n ←
    if fraction.isEmpty && exponent.isNone then integerOr negative whole
    else (decimal? negative whole fraction (exponent.getD 0)).map .double
  pure (n, cs)

def number (cs : List Char) : Option (Number × List Char) :=
  match cs with
  | '-' :: rest => numberAfterSign true rest
  | cs => numberAfterSign false cs

mutual

/-- A value at the start of the text; `room` is how many arrays and objects may still be opened.
The fuel is used up by one at every call. -/
def value : (fuel room : Nat) → List Char → Option (Json × List Char)
  | 0, _, _ => none
  | fuel + 1, room, cs =>
    match skipSpace cs with
    | 'n' :: 'u' :: 'l' :: 'l' :: rest => some (null, rest)
    | 't' :: 'r' :: 'u' :: 'e' :: rest => some (bool true, rest)
    | 'f' :: 'a' :: 'l' :: 's' :: 'e' :: rest => some (bool false, rest)
    | '"' :: rest => (stringRest [] rest).map fun (s, rest) => (string s, rest)
    | '[' :: rest =>
      match room with
      | 0 => none
      | room + 1 =>
        match skipSpace rest with
        | ']' :: rest => some (array [], rest)
        | rest => (items fuel room rest).map fun (items, rest) => (array items, rest)
    | '\x7b' :: rest =>
      match room with
      | 0 => none
      | room + 1 =>
        match skipSpace rest with
        | '\x7d' :: rest => some (object [], rest)
        | rest => (members fuel room rest).map fun (members, rest) => (ofMembers members, rest)
    | cs => (number cs).map fun (n, rest) => (Json.number n, rest)

def items : (fuel room : Nat) → List Char → Option (List Json × List Char)
  | 0, _, _ => none
  | fuel + 1, room, cs =>
    match value fuel room cs with
    | none => none
    | some (item, rest) =>
      match skipSpace rest with
      | ']' :: rest => some ([item], rest)
      | ',' :: rest => (items fuel room rest).map fun (items, rest) => (item :: items, rest)
      | _ => none

def members : (fuel room : Nat) → List Char → Option (List (String × Json) × List Char)
  | 0, _, _ => none
  | fuel + 1, room, cs =>
    match skipSpace cs with
    | '"' :: rest =>
      match stringRest [] rest with
      | none => none
      | some (name, rest) =>
        match skipSpace rest with
        | ':' :: rest =>
          match value fuel room rest with
          | none => none
          | some (value, rest) =>
            match skipSpace rest with
            | '\x7d' :: rest => some ([(name, value)], rest)
            | ',' :: rest =>
              (members fuel room rest).map fun (members, rest) => ((name, value) :: members, rest)
            | _ => none
        | _ => none
    | _ => none

end

end Reader

open Reader

def ofChars? (cs : List Char) : Option Json :=
  match value (2 * cs.length + 2) maxDepth cs with
  | some (json, rest) => if (skipSpace rest).isEmpty then some json else none
  | none => none

def ofText? (s : String) : Option Json := ofChars? s.toList

def ofBytes? (bytes : Bytes) : Option Json := (Bytes.text? bytes).bind ofText?

end CredentialRelay.Json

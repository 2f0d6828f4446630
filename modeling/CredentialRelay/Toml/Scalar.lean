import CredentialRelay.Number.Binary64
import CredentialRelay.Text.Decimal
import CredentialRelay.Toml

namespace CredentialRelay.Toml

abbrev Reader (α : Type) := List Char → Option (α × List Char)

def isBlank (c : Char) : Bool := c == ' ' || c == '\t'

def skipBlank (cs : List Char) : List Char := cs.dropWhile isBlank

def isPlain (c : Char) : Bool := c == '\t' || (' ' ≤ c && c ≠ '\x7f')

def newline? : List Char → Option (List Char)
  | '\n' :: rest => some rest
  | '\r' :: '\n' :: rest => some rest
  | _ => none

def hexDigit? (c : Char) : Option Nat :=
  if '0' ≤ c && c ≤ '9' then some (c.toNat - 48)
  else if 'a' ≤ c && c ≤ 'f' then some (c.toNat - 87)
  else if 'A' ≤ c && c ≤ 'F' then some (c.toNat - 55)
  else none

def codePoint? (digits : List Char) : Option Char :=
  (digits.mapM hexDigit?).bind fun ds =>
    let n := ds.foldl (fun n d => n * 16 + d) 0
    if n.isValidChar then some (Char.ofNat n) else none

def escape? (c : Char) : Option Char :=
  if c = '"' || c = '\\' then some c
  else if c = 'b' then some '\x08'
  else if c = 't' then some '\t'
  else if c = 'n' then some '\n'
  else if c = 'f' then some '\x0c'
  else if c = 'r' then some '\r'
  else none

def escaped? : Reader Char
  | 'u' :: a :: b :: c :: d :: rest => (codePoint? [a, b, c, d]).map (·, rest)
  | 'U' :: a :: b :: c :: d :: e :: f :: g :: h :: rest =>
    (codePoint? [a, b, c, d, e, f, g, h]).map (·, rest)
  | c :: rest => (escape? c).map (·, rest)
  | [] => none

def escapeLength : List Char → Nat
  | 'u' :: _ => 5
  | 'U' :: _ => 9
  | _ => 1

def basicRest (skip : Nat) (read : List Char) : Reader String
  | [] => none
  | c :: rest =>
    match skip with
    | skip + 1 => basicRest skip read rest
    | 0 =>
      if c = '"' then some (String.ofList read.reverse, rest)
      else if c = '\\' then
        match escaped? rest with
        | none => none
        | some (c, _) => basicRest (escapeLength rest) (c :: read) rest
      else if isPlain c then basicRest 0 (c :: read) rest
      else none

def literal? (cs : List Char) : Option (String × List Char) :=
  let body := cs.takeWhile fun c => isPlain c && c != '\''
  match cs.drop body.length with
  | '\'' :: rest => some (String.ofList body, rest)
  | _ => none

def endsLine (cs : List Char) : Bool := (newline? (skipBlank cs)).isSome

inductive Fold where
  | text
  | fold
deriving DecidableEq

/-- A string of several lines, after the three quotes that open it. Three to five quotes in a row
close it, and those before the last three belong to it. -/
def multiline (quote : Char) (escapes : Bool) (skip : Nat) (mode : Fold) (read : List Char) :
    Reader String
  | [] => none
  | c :: rest =>
    match skip with
    | skip + 1 => multiline quote escapes skip mode read rest
    | 0 =>
      if mode = .fold && (isBlank c || c = '\n') then multiline quote escapes 0 .fold read rest
      else if c = '\r' then
        if rest.head? = some '\n' then
          if mode = .fold then multiline quote escapes 0 .fold read rest
          else multiline quote escapes 1 .text ('\n' :: read) rest
        else none
      else if c = quote then
        let quotes := 1 + (rest.takeWhile (· == quote)).length
        if quotes < 3 then multiline quote escapes 0 .text (c :: read) rest
        else
          let kept := min (quotes - 3) 2
          some (String.ofList (List.replicate kept quote ++ read).reverse, rest.drop (kept + 2))
      else if escapes && c = '\\' then
        if endsLine rest then multiline quote escapes 0 .fold read rest
        else
          match escaped? rest with
          | none => none
          | some (c, _) => multiline quote escapes (escapeLength rest) .text (c :: read) rest
      else if isPlain c || c = '\n' then multiline quote escapes 0 .text (c :: read) rest
      else none

def multiline? (quote : Char) (escapes : Bool) (cs : List Char) : Option (String × List Char) :=
  multiline quote escapes 0 .text [] ((newline? cs).getD cs)

def digitRun (isDigit : Char → Bool) (pending : Bool) (read : List Char) :
    List Char → Option (List Char × List Char)
  | [] => if pending || read.isEmpty then none else some (read.reverse, [])
  | c :: rest =>
    if isDigit c then digitRun isDigit false (c :: read) rest
    else if c = '_' && !pending && !read.isEmpty then digitRun isDigit true read rest
    else if pending || read.isEmpty then none
    else some (read.reverse, c :: rest)

def isDecimal (c : Char) : Bool := '0' ≤ c && c ≤ '9'

def valueIn (base : Nat) (digits : List Char) : Nat :=
  digits.foldl (fun n c => n * base + (hexDigit? c).getD 0) 0

def fitting? (n : Int) : Option Int := some n |>.filter Decimal.fitsSigned

def prefixed? (base : Nat) (isDigit : Char → Bool) (cs : List Char) : Option (Toml × List Char) := do
  let (digits, rest) ← digitRun isDigit false [] cs
  let n ← fitting? (valueIn base digits)
  pure (integer n, rest)

def wholePart? (cs : List Char) : Option (List Char × List Char) :=
  match cs with
  | '0' :: rest => some (['0'], rest)
  | cs => digitRun isDecimal false [] cs

def fraction? : List Char → Option (Option (List Char) × List Char)
  | '.' :: rest => (digitRun isDecimal false [] rest).map fun (ds, rest) => (some ds, rest)
  | cs => some (none, cs)

def exponent? (cs : List Char) : Option (Option Int × List Char) :=
  match cs with
  | c :: rest =>
    if c = 'e' || c = 'E' then
      match rest with
      | '-' :: rest =>
        (digitRun isDecimal false [] rest).map fun (ds, rest) => (some (-(valueIn 10 ds : Int)), rest)
      | '+' :: rest =>
        (digitRun isDecimal false [] rest).map fun (ds, rest) => (some (valueIn 10 ds : Int), rest)
      | rest =>
        (digitRun isDecimal false [] rest).map fun (ds, rest) => (some (valueIn 10 ds : Int), rest)
    else some (none, cs)
  | [] => some (none, [])

def afterSign? (negative : Bool) (cs : List Char) : Option (Toml × List Char) :=
  match cs with
  | 'i' :: 'n' :: 'f' :: rest => some (float, rest)
  | 'n' :: 'a' :: 'n' :: rest => some (float, rest)
  | cs => do
    let (whole, rest) ← wholePart? cs
    let (fraction, rest) ← fraction? rest
    let (exponent, rest) ← exponent? rest
    if fraction.isNone && exponent.isNone then
      let n ← fitting? (if negative then -(valueIn 10 whole : Int) else valueIn 10 whole)
      pure (integer n, rest)
    else
      let digits := whole ++ fraction.getD []
      let x := Binary64.ofDecimal? negative (valueIn 10 digits)
        (exponent.getD 0 - (fraction.getD []).length)
      if x.isNone && !negative then none else pure (float, rest)

def number? (cs : List Char) : Option (Toml × List Char) :=
  match cs with
  | '0' :: 'x' :: rest => prefixed? 16 (fun c => (hexDigit? c).isSome) rest
  | '0' :: 'o' :: rest => prefixed? 8 (fun c => '0' ≤ c && c ≤ '7') rest
  | '0' :: 'b' :: rest => prefixed? 2 (fun c => c == '0' || c == '1') rest
  | '+' :: rest => afterSign? false rest
  | '-' :: rest => afterSign? true rest
  | cs => afterSign? false cs

def fixedNumber? (count low high : Nat) (cs : List Char) : Option (Nat × List Char) :=
  let digits := cs.take count
  if digits.length = count && digits.all isDecimal then
    let n := valueIn 10 digits
    if low ≤ n && n ≤ high then some (n, cs.drop count) else none
  else none

def mark? (c : Char) : List Char → Option (List Char)
  | d :: rest => if c = d then some rest else none
  | [] => none

def daysIn (year month : Nat) : Nat :=
  if month = 2 then
    if year % 4 = 0 && (year % 100 ≠ 0 || year % 400 = 0) then 29 else 28
  else if month = 4 || month = 6 || month = 9 || month = 11 then 30
  else 31

def date? (cs : List Char) : Option (List Char) := do
  let (year, rest) ← fixedNumber? 4 0 9999 cs
  let (month, rest) ← fixedNumber? 2 1 12 (← mark? '-' rest)
  let (_, rest) ← fixedNumber? 2 1 (daysIn year month) (← mark? '-' rest)
  pure rest

def time? (cs : List Char) : Option (List Char) := do
  let (_, rest) ← fixedNumber? 2 0 23 cs
  let (_, rest) ← fixedNumber? 2 0 59 (← mark? ':' rest)
  let (_, rest) ← fixedNumber? 2 0 60 (← mark? ':' rest)
  match rest with
  | '.' :: rest => if (rest.takeWhile isDecimal).isEmpty then none else rest.dropWhile isDecimal
  | rest => rest

def offset? (cs : List Char) : Option (List Char) :=
  match cs with
  | c :: rest =>
    if c = 'Z' || c = 'z' then some rest
    else if c = '+' || c = '-' then do
      let (_, rest) ← fixedNumber? 2 0 23 rest
      let (_, rest) ← fixedNumber? 2 0 59 (← mark? ':' rest)
      pure rest
    else none
  | [] => none

def dateTime? (cs : List Char) : Option (Toml × List Char) :=
  match date? cs with
  | none => (time? cs).map (dateTime, ·)
  | some rest =>
    match rest with
    | c :: afterMark =>
      if c = 'T' || c = 't' || c = ' ' then
        match time? afterMark with
        | none => some (dateTime, rest)
        | some rest => some (dateTime, (offset? rest).getD rest)
      else some (dateTime, rest)
    | [] => some (dateTime, [])

def scalar? (cs : List Char) : Option (Toml × List Char) :=
  match cs with
  | '"' :: '"' :: '"' :: rest => (multiline? '"' true rest).map fun (s, rest) => (string s, rest)
  | '"' :: rest => (basicRest 0 [] rest).map fun (s, rest) => (string s, rest)
  | '\'' :: '\'' :: '\'' :: rest =>
    (multiline? '\'' false rest).map fun (s, rest) => (string s, rest)
  | '\'' :: rest => (literal? rest).map fun (s, rest) => (string s, rest)
  | 't' :: 'r' :: 'u' :: 'e' :: rest => some (boolean true, rest)
  | 'f' :: 'a' :: 'l' :: 's' :: 'e' :: rest => some (boolean false, rest)
  | cs => (dateTime? cs).or (number? cs)

end CredentialRelay.Toml

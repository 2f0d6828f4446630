import CredentialRelay.Json
import CredentialRelay.Number.Shortest

namespace CredentialRelay.Json

def unicodeEscape (c : Char) : List Char :=
  ['\\', 'u', '0', '0', Nat.digitChar (c.toNat / 16), Nat.digitChar (c.toNat % 16)]

def escape (c : Char) : List Char :=
  if c = '"' then ['\\', '"']
  else if c = '\\' then ['\\', '\\']
  else if c = '\n' then ['\\', 'n']
  else if c = '\r' then ['\\', 'r']
  else if c = '\t' then ['\\', 't']
  else if c = '\x08' then ['\\', 'b']
  else if c = '\x0c' then ['\\', 'f']
  else if c < ' ' then unicodeEscape c
  else [c]

def quote (s : String) : List Char := '"' :: s.toList.flatMap escape ++ ['"']

/-- Doubles whose first digit stands at a power of ten from `-5` to `15` are written out, with a
point and at least one digit after it; others have an exponent with a sign. -/
def doubleText (x : Binary64) : List Char :=
  let sign := if x.negative then ['-'] else []
  if x.mantissa = 0 then sign ++ ['0', '.', '0']
  else
    let { digits, exponent } := x.shortest
    let count := exponent.natAbs
    sign ++
      if exponent < -5 || 15 < exponent then
        digits.take 1 ++ (if digits.length = 1 then [] else '.' :: digits.drop 1) ++
          ['e', if exponent < 0 then '-' else '+'] ++ Nat.toDigits 10 count
      else if exponent < 0 then
        '0' :: '.' :: List.replicate (count - 1) '0' ++ digits
      else if digits.length ≤ count + 1 then
        digits ++ List.replicate (count + 1 - digits.length) '0' ++ ['.', '0']
      else digits.take (count + 1) ++ '.' :: digits.drop (count + 1)

def Number.chars : Number → List Char
  | integer n => (Decimal.text n).toList
  | double x => doubleText x

mutual

def chars : Json → List Char
  | null => ['n', 'u', 'l', 'l']
  | bool true => ['t', 'r', 'u', 'e']
  | bool false => ['f', 'a', 'l', 's', 'e']
  | number value => value.chars
  | string value => quote value
  | array items => '[' :: itemChars items ++ [']']
  | object members => '\x7b' :: memberChars members ++ ['\x7d']

def itemChars : List Json → List Char
  | [] => []
  | [item] => chars item
  | item :: next :: rest => chars item ++ ',' :: itemChars (next :: rest)

def memberChars : List (String × Json) → List Char
  | [] => []
  | [member] => oneMemberChars member
  | member :: next :: rest => oneMemberChars member ++ ',' :: memberChars (next :: rest)

def oneMemberChars : String × Json → List Char
  | (name, value) => quote name ++ ':' :: chars value

end

def text (json : Json) : String := String.ofList json.chars

end CredentialRelay.Json

import CredentialRelay.Bytes

namespace CredentialRelay.Hex

inductive Fault where
  | oddLength
  | badDigit (byte : UInt8) (position : Nat)
deriving DecidableEq, Repr

def quoted (byte : UInt8) : String :=
  let c := Char.ofNat byte.toNat
  let shown :=
    if c == '\x00' then "\\0"
    else if c == '\t' then "\\t"
    else if c == '\n' then "\\n"
    else if c == '\r' then "\\r"
    else if c == '\'' then "\\'"
    else if c == '\\' then "\\\\"
    else if byte < 0x20 || (0x7f ≤ byte && byte ≤ 0xa0) || byte == 0xad then
      "\\u\x7b" ++ String.ofList (Nat.toDigits 16 byte.toNat) ++ "\x7d"
    else c.toString
  "'" ++ shown ++ "'"

def Fault.message : Fault → String
  | oddLength => "Odd number of digits"
  | badDigit byte position =>
    "Invalid character " ++ quoted byte ++ " at position " ++ toString position

def digit (n : UInt8) : UInt8 :=
  if n < 10 then 48 + n else 87 + n

def encode (bytes : Bytes) : Bytes :=
  bytes.flatMap fun b => [digit (b / 16), digit (b % 16)]

def value? (b : UInt8) : Option UInt8 :=
  if 48 ≤ b && b ≤ 57 then some (b - 48)
  else if 97 ≤ b && b ≤ 102 then some (b - 87)
  else if 65 ≤ b && b ≤ 70 then some (b - 55)
  else none

def decodeFrom (position : Nat) : Bytes → Except Fault Bytes
  | [] => .ok []
  | [_] => .error .oddLength
  | high :: low :: rest =>
    match value? high with
    | none => .error (.badDigit high position)
    | some h =>
      match value? low with
      | none => .error (.badDigit low (position + 1))
      | some l => (decodeFrom (position + 2) rest).map ((h * 16 + l) :: ·)

def decode (digits : Bytes) : Except Fault Bytes :=
  if digits.length % 2 = 1 then .error .oddLength else decodeFrom 0 digits

end CredentialRelay.Hex

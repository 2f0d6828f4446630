import CredentialRelay.Bytes

namespace CredentialRelay.Base64

inductive Alphabet where
  | urlSafe
  | standard
deriving DecidableEq, Repr

def Alphabet.last : Alphabet → Char × Char
  | .urlSafe => ('-', '_')
  | .standard => ('+', '/')

def Alphabet.value? (alphabet : Alphabet) (c : Char) : Option Nat :=
  if 'A' ≤ c && c ≤ 'Z' then some (c.toNat - 65)
  else if 'a' ≤ c && c ≤ 'z' then some (c.toNat - 71)
  else if '0' ≤ c && c ≤ '9' then some (c.toNat + 4)
  else if c = alphabet.last.1 then some 62
  else if c = alphabet.last.2 then some 63
  else none

def join? : List Nat → Option Bytes
  | [] => some []
  | [_] => none
  | [a, b] => if b % 16 = 0 then some [UInt8.ofNat (a * 4 + b / 16)] else none
  | [a, b, c] =>
    if c % 4 = 0 then
      some [UInt8.ofNat (a * 4 + b / 16), UInt8.ofNat (b % 16 * 16 + c / 4)]
    else none
  | a :: b :: c :: d :: rest =>
    (join? rest).map fun bytes =>
      UInt8.ofNat (a * 4 + b / 16) :: UInt8.ofNat (b % 16 * 16 + c / 4) ::
        UInt8.ofNat (c % 4 * 64 + d) :: bytes

def paddingRoom (digits : Nat) : Nat :=
  if digits % 4 = 0 then 0 else 4 - digits % 4

def decode? (alphabet : Alphabet) (s : String) : Option Bytes :=
  let digits := s.toList.takeWhile (· != '=')
  let padding := s.toList.dropWhile (· != '=')
  if padding.all (· == '=') && padding.length ≤ paddingRoom digits.length then
    (digits.mapM alphabet.value?).bind join?
  else none

end CredentialRelay.Base64

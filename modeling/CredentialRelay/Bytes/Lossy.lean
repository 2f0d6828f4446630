import CredentialRelay.Bytes

namespace CredentialRelay.Bytes

def leadByte? (b : UInt8) : Option (UInt8 × UInt8 × Nat) :=
  if 0xC2 ≤ b && b ≤ 0xDF then some (0x80, 0xBF, 2)
  else if b == 0xE0 then some (0xA0, 0xBF, 3)
  else if b == 0xED then some (0x80, 0x9F, 3)
  else if 0xE1 ≤ b && b ≤ 0xEF then some (0x80, 0xBF, 3)
  else if b == 0xF0 then some (0x90, 0xBF, 4)
  else if 0xF1 ≤ b && b ≤ 0xF3 then some (0x80, 0xBF, 4)
  else if b == 0xF4 then some (0x80, 0x8F, 4)
  else none

def isContinuation (b : UInt8) : Bool := 0x80 ≤ b && b ≤ 0xBF

def followers (low high : UInt8) (size : Nat) : Bytes → Nat
  | [] => 0
  | b :: rest =>
    if low ≤ b && b ≤ high then 1 + ((rest.take (size - 2)).takeWhile isContinuation).length else 0

def codePoint (size : Nat) (b : UInt8) (rest : Bytes) : Nat :=
  let lead := if size = 2 then b.toNat % 32 else if size = 3 then b.toNat % 16 else b.toNat % 8
  (rest.take (size - 1)).foldl (fun n c => n * 64 + c.toNat % 64) lead

def lossyFrom (skip : Nat) : Bytes → List Char
  | [] => []
  | b :: rest =>
    match skip with
    | n + 1 => lossyFrom n rest
    | 0 =>
      if b < 0x80 then Char.ofNat b.toNat :: lossyFrom 0 rest
      else
        match leadByte? b with
        | none => '\uFFFD' :: lossyFrom 0 rest
        | some (low, high, size) =>
          let n := followers low high size rest
          let c := if n + 1 = size then Char.ofNat (codePoint size b rest) else '\uFFFD'
          c :: lossyFrom n rest

def lossyText (b : Bytes) : String := String.ofList (lossyFrom 0 b)

end CredentialRelay.Bytes

import Mathlib
import CredentialRelay.Proofs.Bytes.Hex
import CredentialRelay.Proofs.Bytes.Utf8
import CredentialRelay.Text.Percent

namespace CredentialRelay.Percent
open Bytes

def decodeBytes : Bytes → Bytes
  | [] => []
  | 37 :: high :: low :: rest =>
    match Hex.value? high, Hex.value? low with
    | some h, some l => (h * 16 + l) :: decodeBytes rest
    | _, _ => 37 :: decodeBytes (high :: low :: rest)
  | b :: rest => b :: decodeBytes rest

def decode? (s : String) : Option String := text? (decodeBytes (ofText s))

def marks : List Char := ['-', '_', '.', '~']

def hexDigits : List Char := "0123456789ABCDEF".toList

inductive Spelled : List Char → Prop
  | nil : Spelled []
  | plain {c : Char} {cs : List Char} (plain : c.isAlphanum = true ∨ c ∈ marks)
      (rest : Spelled cs) : Spelled (c :: cs)
  | triple {high low : Char} {cs : List Char} (first : high ∈ hexDigits) (second : low ∈ hexDigits)
      (rest : Spelled cs) : Spelled ('%' :: high :: low :: cs)

theorem Spelled.append {cs cs' : List Char} (spelled : Spelled cs) (spelled' : Spelled cs') :
    Spelled (cs ++ cs') := by
  induction spelled with
  | nil => exact spelled'
  | plain plain _ ih => exact .plain plain ih
  | triple first second _ ih => exact .triple first second ih

variable {b n : UInt8}

theorem hexDigit_spec (small : n < 16) :
    hexDigit n ∈ hexDigits ∧ (hexDigit n).toNat < 128 ∧
      Hex.value? (UInt8.ofNat (hexDigit n).toNat) = some n := by
  have all : ∀ n : Fin 16, hexDigit (UInt8.ofNat n) ∈ hexDigits ∧
      (hexDigit (UInt8.ofNat n)).toNat < 128 ∧
      Hex.value? (UInt8.ofNat (hexDigit (UInt8.ofNat n)).toNat) = some (UInt8.ofNat n) := by
    decide
  simpa using all ⟨n.toNat, UInt8.lt_iff_toNat_lt.1 small⟩

theorem plain_spec (plain : isPlain b = true) :
    ((Char.ofNat b.toNat).isAlphanum = true ∨ Char.ofNat b.toNat ∈ marks) ∧
      (Char.ofNat b.toNat).toNat < 128 ∧ UInt8.ofNat (Char.ofNat b.toNat).toNat = b ∧ b ≠ 37 := by
  have all : ∀ n : Fin 256, isPlain (UInt8.ofNat n) = true →
      ((Char.ofNat n).isAlphanum = true ∨ Char.ofNat n ∈ marks) ∧
        (Char.ofNat n).toNat < 128 ∧ UInt8.ofNat (Char.ofNat n).toNat = UInt8.ofNat n ∧
        UInt8.ofNat n ≠ 37 := by
    decide +kernel
  have here := all ⟨b.toNat, b.toNat_lt⟩
  simp only [UInt8.ofNat_toNat] at here
  exact here plain

theorem spelled_encodeByte (b : UInt8) : Spelled (encodeByte b) := by
  unfold encodeByte
  split
  · next plain => exact .plain (plain_spec plain).1 .nil
  · exact .triple (hexDigit_spec (Hex.high_lt b)).1 (hexDigit_spec (Hex.low_lt b)).1 .nil

theorem decodeBytes_encodeByte (b : UInt8) (rest : Bytes) :
    decodeBytes ((encodeByte b).flatMap String.utf8EncodeChar ++ rest) = b :: decodeBytes rest := by
  unfold encodeByte
  split
  · next plain =>
    obtain ⟨-, ascii, code, noSign⟩ := plain_spec plain
    rw [List.flatMap_singleton, utf8EncodeChar_ascii ascii, code, List.singleton_append, decodeBytes]
    exact fun _ _ _ sign => absurd sign noSign
  · obtain ⟨-, asciiHigh, high⟩ := hexDigit_spec (Hex.high_lt b)
    obtain ⟨-, asciiLow, low⟩ := hexDigit_spec (Hex.low_lt b)
    have sign : String.utf8EncodeChar '%' = [37] := by decide
    simp only [List.flatMap_cons, List.flatMap_nil, sign, utf8EncodeChar_ascii asciiHigh,
      utf8EncodeChar_ascii asciiLow, List.append_nil, List.cons_append, List.nil_append, decodeBytes,
      high, low, Hex.join_halves]

theorem spelled_encode (s : String) : Spelled (encode s).toList := by
  rw [encode, String.toList_ofList]
  induction ofText s with
  | nil => exact .nil
  | cons b bytes ih => exact (spelled_encodeByte b).append ih

theorem decode?_encode (s : String) : decode? (encode s) = some s := by
  have bytes (bytes : Bytes) :
      decodeBytes ((bytes.flatMap encodeByte).flatMap String.utf8EncodeChar) = bytes := by
    induction bytes with
    | nil => rfl
    | cons b bytes ih =>
        rw [List.flatMap_cons, List.flatMap_append, decodeBytes_encodeByte, ih]
  rw [decode?, encode, ofText_eq, String.toList_ofList, bytes, text?_ofText]

end CredentialRelay.Percent

import Mathlib
import CredentialRelay.Bytes

namespace CredentialRelay.Bytes

theorem ofText_eq (s : String) : ofText s = s.toList.flatMap String.utf8EncodeChar := by
  have bytes : s.toByteArray = s.toList.utf8Encode := String.utf8Encode_toList.symm
  rw [ofText, bytes, List.utf8Encode, List.toList_data_toByteArray]

@[simp] theorem text?_ofText (s : String) : text? (ofText s) = some s := by
  have bytes : (⟨(ofText s).toArray⟩ : ByteArray) = s.toByteArray := by simp [ofText]
  rw [text?, bytes, String.fromUTF8?]
  simp [s.isValidUTF8, String.fromUTF8]

theorem ofText_of_text? {b : Bytes} {s : String} (h : text? b = some s) : ofText s = b := by
  unfold text? String.fromUTF8? at h
  split at h
  · cases h
    simp [ofText, String.fromUTF8]
  · cases h

theorem utf8EncodeChar_ascii {c : Char} (ascii : c.toNat < 128) :
    String.utf8EncodeChar c = [UInt8.ofNat c.toNat] := by
  have one : c.utf8Size = 1 :=
    Char.utf8Size_eq_one_iff.2 (UInt32.le_iff_toNat_le.2 (Nat.le_of_lt_succ ascii))
  rw [String.utf8EncodeChar_eq_singleton one]
  rfl

theorem high_of_mem_utf8EncodeChar {c : Char} {b : UInt8} (long : 128 ≤ c.toNat)
    (member : b ∈ String.utf8EncodeChar c) : 128 ≤ b := by
  have high {a m : UInt8} (hm : 128 ≤ m) : 128 ≤ a ||| m := by
    rw [UInt8.le_iff_toNat_le] at *
    rw [UInt8.toNat_or]
    exact hm.trans Nat.right_le_or
  rcases Char.utf8Size_eq c with one | two | three | four
  · have short := UInt32.le_iff_toNat_le.1 (Char.utf8Size_eq_one_iff.1 one)
    exact absurd (long.trans short) (by decide)
  · rw [String.utf8EncodeChar_eq_cons_cons two] at member
    simp only [List.mem_cons, List.not_mem_nil, or_false] at member
    rcases member with rfl | rfl <;> exact high (by decide)
  · rw [String.utf8EncodeChar_eq_cons_cons_cons three] at member
    simp only [List.mem_cons, List.not_mem_nil, or_false] at member
    rcases member with rfl | rfl | rfl <;> exact high (by decide)
  · rw [String.utf8EncodeChar_eq_cons_cons_cons_cons four] at member
    simp only [List.mem_cons, List.not_mem_nil, or_false] at member
    rcases member with rfl | rfl | rfl | rfl <;> exact high (by decide)

theorem mem_utf8EncodeChar {c d : Char} (ascii : c.toNat < 128) :
    UInt8.ofNat c.toNat ∈ String.utf8EncodeChar d ↔ c = d := by
  have code (n : Nat) (h : n < 128) : (UInt8.ofNat n).toNat = n := by
    rw [UInt8.toNat_ofNat']
    omega
  constructor
  · intro member
    by_cases short : d.toNat < 128
    · rw [utf8EncodeChar_ascii short, List.mem_singleton] at member
      have same := congrArg UInt8.toNat member
      rw [code _ ascii, code _ short] at same
      exact Char.toNat_inj.1 same
    · have high := high_of_mem_utf8EncodeChar (not_lt.1 short) member
      rw [UInt8.le_iff_toNat_le, code _ ascii] at high
      exact absurd high (not_le.2 ascii)
  · rintro rfl
    simp [utf8EncodeChar_ascii ascii]

theorem mem_ofText {s : String} {c : Char} (ascii : c.toNat < 128) :
    UInt8.ofNat c.toNat ∈ ofText s ↔ c ∈ s.toList := by
  rw [ofText_eq, List.mem_flatMap]
  constructor
  · rintro ⟨d, member, inside⟩
    rwa [(mem_utf8EncodeChar ascii).1 inside]
  · intro member
    exact ⟨c, member, (mem_utf8EncodeChar ascii).2 rfl⟩

theorem lf_mem_ofText {s : String} : lf ∈ ofText s ↔ '\n' ∈ s.toList :=
  mem_ofText (c := '\n') (by decide)

theorem cr_mem_ofText {s : String} : cr ∈ ofText s ↔ '\r' ∈ s.toList :=
  mem_ofText (c := '\r') (by decide)

end CredentialRelay.Bytes

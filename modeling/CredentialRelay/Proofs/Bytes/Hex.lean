import Mathlib
import CredentialRelay.Bytes.Hex
import CredentialRelay.Proofs.Bytes.Cut

namespace CredentialRelay.Hex
open Bytes

theorem value?_digit {n : UInt8} (small : n < 16) : value? (digit n) = some n := by
  have all : ∀ n : Fin 16, value? (digit (UInt8.ofNat n)) = some (UInt8.ofNat n) := by decide
  simpa using all ⟨n.toNat, UInt8.lt_iff_toNat_lt.1 small⟩

theorem digit_of_value? {b n : UInt8} (read : value? b = some n) :
    n < 16 ∧ digit n = lowerAscii b := by
  unfold value? at read
  unfold digit lowerAscii
  grind

theorem isAsciiBlank_digit {n : UInt8} (small : n < 16) : isAsciiBlank (digit n) = false := by
  have all : ∀ n : Fin 16, isAsciiBlank (digit (UInt8.ofNat n)) = false := by decide
  simpa using all ⟨n.toNat, UInt8.lt_iff_toNat_lt.1 small⟩

theorem high_lt (b : UInt8) : b / 16 < 16 := by grind

theorem low_lt (b : UInt8) : b % 16 < 16 := by grind

theorem join_halves (b : UInt8) : b / 16 * 16 + b % 16 = b := by grind

theorem halves_join {h l : UInt8} (high : h < 16) (low : l < 16) :
    (h * 16 + l) / 16 = h ∧ (h * 16 + l) % 16 = l := by
  grind

theorem encode_cons (b : UInt8) (bytes : Bytes) :
    encode (b :: bytes) = digit (b / 16) :: digit (b % 16) :: encode bytes := rfl

theorem length_encode (bytes : Bytes) : (encode bytes).length = 2 * bytes.length := by
  induction bytes with
  | nil => rfl
  | cons b bytes ih =>
      rw [encode_cons, List.length_cons, List.length_cons, ih, List.length_cons]
      omega

theorem decodeFrom_encode (position : Nat) (bytes : Bytes) :
    decodeFrom position (encode bytes) = .ok bytes := by
  induction bytes generalizing position with
  | nil => rfl
  | cons b bytes ih =>
      rw [encode_cons, decodeFrom, value?_digit (high_lt b), value?_digit (low_lt b)]
      simp only [ih, join_halves, Except.map]

theorem decode_encode (bytes : Bytes) : decode (encode bytes) = .ok bytes := by
  have even : ¬(encode bytes).length % 2 = 1 := by
    rw [length_encode]
    omega
  rw [decode, if_neg even, decodeFrom_encode]

theorem encode_of_decodeFrom {position : Nat} {digits bytes : Bytes}
    (read : decodeFrom position digits = .ok bytes) : encode bytes = digits.map lowerAscii := by
  induction position, digits using decodeFrom.induct generalizing bytes with
  | case1 => cases read; rfl
  | case2 => cases read
  | case3 position high low rest bad =>
      rw [decodeFrom, bad] at read
      cases read
  | case4 position high low rest h good bad =>
      rw [decodeFrom, good, bad] at read
      cases read
  | case5 position high low rest h first l second ih =>
      rw [decodeFrom, first, second] at read
      cases tail : decodeFrom (position + 2) rest with
      | error fault =>
          rw [tail] at read
          cases read
      | ok bytes' =>
          rw [tail] at read
          cases read
          obtain ⟨small, lower⟩ := digit_of_value? first
          obtain ⟨small', lower'⟩ := digit_of_value? second
          obtain ⟨back, back'⟩ := halves_join small small'
          rw [encode_cons, back, back', lower, lower', ih tail, List.map_cons, List.map_cons]

theorem encode_of_decode {digits bytes : Bytes} (read : decode digits = .ok bytes) :
    encode bytes = digits.map lowerAscii := by
  unfold decode at read
  split at read
  · cases read
  · exact encode_of_decodeFrom read

theorem isAsciiBlank_of_mem_encode {bytes : Bytes} {b : UInt8} (member : b ∈ encode bytes) :
    isAsciiBlank b = false := by
  obtain ⟨byte, -, pair⟩ := List.mem_flatMap.1 member
  simp only [List.mem_cons, List.not_mem_nil, or_false] at pair
  rcases pair with rfl | rfl
  · exact isAsciiBlank_digit (high_lt byte)
  · exact isAsciiBlank_digit (low_lt byte)

theorem trimBy_line (bytes : Bytes) : trimBy isAsciiBlank (encode bytes ++ [lf]) = encode bytes := by
  have blank : ∀ b ∈ [lf], isAsciiBlank b = true := by simp [isAsciiBlank]
  rw [trimBy_append_right blank]
  exact trimBy_eq_self (fun _ first => isAsciiBlank_of_mem_encode (List.mem_of_head? first))
    fun _ last => isAsciiBlank_of_mem_encode (List.mem_of_getLast? last)

end CredentialRelay.Hex

import Mathlib
import CredentialRelay.Json.Reader

namespace CredentialRelay

theorem Decimal.text_eq_toString (n : Int) : Decimal.text n = toString n := by
  cases n with
  | ofNat n => rfl
  | negSucc n =>
      rw [Decimal.text, ← String.toList_inj, Int.toString_eq_repr, Int.repr]
      simp

namespace Json.Reader

def EndsNumber (rest : List Char) : Prop :=
  ∀ c ∈ rest.head?, isDigit c = false ∧ c ≠ '.' ∧ c ≠ 'e' ∧ c ≠ 'E'

theorem isDigit_of_mem_toDigits {n : Nat} {c : Char} (member : c ∈ Nat.toDigits 10 n) :
    isDigit c = true :=
  Nat.isDigit_of_mem_toDigits (by decide) (by decide) member

theorem valueOf_toDigits (n : Nat) : valueOf (Nat.toDigits 10 n) = n := by
  have same (digits : List Char) : valueOf digits = Nat.ofDigitChars 10 digits 0 := by
    simp only [valueOf, Nat.ofDigitChars_eq_foldl, Nat.mul_comm]
    rfl
  rw [same, Nat.ofDigitChars_ten_toDigits]

theorem le_foldl_shift (digits : List Char) (n : Nat) : n ≤ digits.foldl shift n := by
  induction digits generalizing n with
  | nil => exact Nat.le_refl n
  | cons c digits ih =>
      calc n ≤ shift n c := by unfold shift; omega
        _ ≤ digits.foldl shift (shift n c) := ih _

theorem takeUp_of_lt {digits : List Char} {n : Nat} (small : digits.foldl shift n < UInt64.size) :
    takeUp n digits = (digits.foldl shift n, []) := by
  induction digits generalizing n with
  | nil => rfl
  | cons c digits ih =>
      have next : shift n c < UInt64.size := (le_foldl_shift digits _).trans_lt small
      rw [takeUp, if_pos next]
      exact ih small

theorem takeUp_toDigits {n : Nat} (small : n < UInt64.size) :
    takeUp 0 (Nat.toDigits 10 n) = (n, []) := by
  have value := valueOf_toDigits n
  rw [valueOf] at value
  rw [takeUp_of_lt (by rwa [value]), value]

theorem eq_zero_of_toDigits {n : Nat} {rest : List Char} (h : Nat.toDigits 10 n = '0' :: rest) :
    n = 0 := by
  induction n using Nat.strong_induction_on generalizing rest with
  | _ n ih =>
      rw [Nat.toDigits_eq_if (by decide)] at h
      split at h
      · next small =>
        have digit : ∀ n < 10, Nat.digitChar n = '0' → n = 0 := by decide
        exact digit n small (List.cons.inj h).1
      · next large =>
        obtain ⟨first, front, cut⟩ :=
          List.exists_cons_of_ne_nil (Nat.toDigits_ne_nil (n := n / 10) (b := 10))
        rw [cut, List.cons_append] at h
        have zero := ih (n / 10) (by omega) (cut.trans (by rw [(List.cons.inj h).1]))
        omega

theorem digits?_append {digits rest : List Char} (any : digits ≠ [])
    (all : ∀ c ∈ digits, isDigit c = true) (stop : ∀ c ∈ rest.head?, isDigit c = false) :
    digits? (digits ++ rest) = some (digits, rest) := by
  have front : rest.takeWhile isDigit = [] ∧ rest.dropWhile isDigit = rest := by
    cases rest with
    | nil => exact ⟨rfl, rfl⟩
    | cons c rest => simp [stop c rfl]
  rw [digits?, List.takeWhile_append_of_pos all, List.dropWhile_append_of_pos all, front.1, front.2,
    List.append_nil]
  cases digits with
  | nil => exact absurd rfl any
  | cons digit digits => rfl

theorem wholePart?_toDigits (n : Nat) {rest : List Char} (ends : EndsNumber rest) :
    wholePart? (Nat.toDigits 10 n ++ rest) = some (Nat.toDigits 10 n, rest) := by
  have read : digits? (Nat.toDigits 10 n ++ rest) = some (Nat.toDigits 10 n, rest) :=
    digits?_append Nat.toDigits_ne_nil (fun c => isDigit_of_mem_toDigits)
      fun c first => (ends c first).1
  rw [wholePart?, read]
  split
  · next same =>
    obtain ⟨digits, -⟩ := Prod.mk.inj (Option.some.inj same)
    rw [eq_zero_of_toDigits digits] at digits
    cases digits
  · rfl

theorem numberAfterSign_toDigits (negative : Bool) (n : Nat) {rest : List Char}
    (ends : EndsNumber rest) :
    numberAfterSign negative (Nat.toDigits 10 n ++ rest) =
      (integerOr negative (Nat.toDigits 10 n)).map fun number => (number, rest) := by
  -- What follows the digits is neither a point nor an exponent, so the number is an integer.
  have pointless : fraction? rest = some ([], rest) := by
    unfold fraction?
    split
    · exact absurd rfl (ends '.' rfl).2.1
    · rfl
  have plain : exponent? rest = some (none, rest) := by
    unfold exponent?
    split
    · next c rest =>
      obtain ⟨-, -, small, large⟩ := ends c rfl
      rw [if_neg (by simp [small, large])]
    · rfl
  rw [numberAfterSign, wholePart?_toDigits n ends]
  simp only [Option.bind_eq_bind, Option.bind_some, pointless, plain]
  cases integerOr negative (Nat.toDigits 10 n) <;> rfl

def Fits64 (n : Int) : Prop := -2 ^ 63 ≤ n ∧ n < 2 ^ 64

theorem integerOr_ofNat {n : Nat} (fits : Fits64 n) :
    integerOr false (Nat.toDigits 10 n) = some (.integer n) := by
  have small : n < UInt64.size := Int.ofNat_lt.1 fits.2
  rw [integerOr, takeUp_toDigits small]
  rfl

theorem integerOr_negSucc {n : Nat} (fits : Fits64 (Int.negSucc n)) :
    integerOr true (Nat.toDigits 10 (n + 1)) = some (.integer (Int.negSucc n)) := by
  have low := fits.1
  rw [Int.negSucc_eq] at low
  have small : n + 1 < UInt64.size := by
    rw [UInt64.size]
    omega
  have inside : ¬(n + 1 = 0 || Decimal.signedLimit < ((n + 1 : Nat) : Int)) = true := by
    rw [Bool.or_eq_true, decide_eq_true_eq, decide_eq_true_eq, Decimal.signedLimit]
    omega
  rw [integerOr, takeUp_toDigits small]
  dsimp only
  rw [if_neg (by decide), if_neg inside]
  rfl

theorem text_eq_cons (n : Int) :
    ∃ first digits, (Decimal.text n).toList = first :: digits ∧
      (first = '-' ∧ n < 0 ∨ isDigit first = true ∧ 0 ≤ n) := by
  cases n with
  | ofNat n =>
      obtain ⟨first, digits, cut⟩ :=
        List.exists_cons_of_ne_nil (Nat.toDigits_ne_nil (n := n) (b := 10))
      refine ⟨first, digits, ?_, .inr ⟨isDigit_of_mem_toDigits (n := n) (by simp [cut]), ?_⟩⟩
      · rw [Decimal.text, String.toList_ofList, cut]
      · exact Int.natCast_nonneg n
  | negSucc n => exact ⟨'-', _, String.toList_ofList, .inl ⟨rfl, Int.negSucc_lt_zero n⟩⟩

theorem number_text_append {n : Int} (fits : Fits64 n) {rest : List Char} (ends : EndsNumber rest) :
    number ((Decimal.text n).toList ++ rest) = some (.integer n, rest) := by
  cases n with
  | ofNat n =>
      have unsigned : number ((Decimal.text n).toList ++ rest) =
          numberAfterSign false ((Decimal.text n).toList ++ rest) := by
        obtain ⟨first, digits, cut, ⟨-, negative⟩ | ⟨digit, -⟩⟩ := text_eq_cons n
        · exact absurd (Int.natCast_nonneg n) (not_le.2 negative)
        · rw [cut, List.cons_append, number]
          intro _ same
          rw [(List.cons.inj same).1] at digit
          cases digit
      rw [Int.ofNat_eq_natCast, unsigned, ← Int.ofNat_eq_natCast, Decimal.text,
        String.toList_ofList, numberAfterSign_toDigits false n ends, integerOr_ofNat fits]
      rfl
  | negSucc n =>
      rw [Decimal.text, String.toList_ofList, List.cons_append, number,
        numberAfterSign_toDigits true (n + 1) ends, integerOr_negSucc fits]
      rfl

theorem value_number {first : Char} (numeric : first = '-' ∨ isDigit first = true) (fuel room : Nat)
    (rest : List Char) :
    value (fuel + 1) room (first :: rest) =
      (number (first :: rest)).map fun (n, rest) => (Json.number n, rest) := by
  have other (c : Char) (out : ¬(c = '-' ∨ isDigit c = true)) : first ≠ c :=
    fun same => out (same ▸ numeric)
  have start : skipSpace (first :: rest) = first :: rest := by
    refine List.dropWhile_cons_of_neg ?_
    simp only [isSpace, Bool.or_eq_true, beq_iff_eq, not_or]
    exact ⟨⟨⟨other ' ' (by decide), other '\n' (by decide)⟩, other '\t' (by decide)⟩,
      other '\r' (by decide)⟩
  rw [value, start]
  split
  case h_7 => rfl
  case h_1 same => exact absurd (List.cons.inj same).1 (other 'n' (by decide))
  case h_2 same => exact absurd (List.cons.inj same).1 (other 't' (by decide))
  case h_3 same => exact absurd (List.cons.inj same).1 (other 'f' (by decide))
  case h_4 same => exact absurd (List.cons.inj same).1 (other '"' (by decide))
  case h_5 same => exact absurd (List.cons.inj same).1 (other '[' (by decide))
  case h_6 same => exact absurd (List.cons.inj same).1 (other '\x7b' (by decide))

theorem value_text_append {n : Int} (fits : Fits64 n) {rest : List Char} (ends : EndsNumber rest)
    (fuel room : Nat) :
    value (fuel + 1) room ((Decimal.text n).toList ++ rest) = some (.number (.integer n), rest) := by
  obtain ⟨first, digits, cut, sign⟩ := text_eq_cons n
  have numeric := sign.imp And.left And.left
  have read := number_text_append fits ends
  rw [cut, List.cons_append] at read ⊢
  rw [value_number numeric, read]
  rfl

end Json.Reader

theorem Json.ofText?_toString {n : Int} (fits : Reader.Fits64 n) :
    ofText? (toString n) = some (.number (.integer n)) := by
  have ends : Reader.EndsNumber [] := by simp [Reader.EndsNumber]
  have read := Reader.value_text_append fits ends
  rw [List.append_nil] at read
  rw [← Decimal.text_eq_toString, ofText?, ofChars?, read]
  rfl

end CredentialRelay

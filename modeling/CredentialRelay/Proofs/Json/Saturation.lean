import Mathlib
import CredentialRelay.Proofs.Bytes.Utf8
import CredentialRelay.Proofs.Json.Positions
import CredentialRelay.Proofs.Number.Value

namespace CredentialRelay

namespace Json

def Number.collected (x : Number) : ℤ := max (-2 ^ 63) (min (towardZero x.value) (2 ^ 63 - 1))

def Number.WholeFits (x : Number) : Prop :=
  -2 ^ 63 ≤ towardZero x.value ∧ towardZero x.value < 2 ^ 63

def numbersOf (found : List (Position × Json)) : List Number :=
  found.filterMap fun leaf => leaf.2.number?

theorem Number.collected_eq_iff (x : Number) : x.collected = towardZero x.value ↔ x.WholeFits := by
  unfold collected WholeFits
  omega

theorem signed?_eq_map (json : Json) : json.signed? = json.number?.map Number.collected := by
  unfold signed?
  congr 1
  funext x
  rw [Decimal.clampSigned_eq, x.trunc_eq_towardZero, Number.collected]

theorem signedBelow_eq_map (path : List String) (doc : Json) :
    signedBelow path doc = (numbersOf (located path doc)).map Number.collected := by
  rw [signedBelow_eq, numbersOf, List.map_filterMap]
  simp only [signed?_eq_map]

end Json

namespace ResponseBody

open Json (Gathers located numbersOf)

theorem integers_eq_ok {body : Bytes} {path : List String} {doc : Json} {ints : List Int}
    (read : Json.ofBytes? body = some doc) (collected : integers body path = .ok ints) :
    ints = (numbersOf (located path doc)).map Json.Number.collected := by
  rw [integers, read, Option.bind_some] at collected
  cases found : doc.signedAt? path with
  | none =>
      rw [found] at collected
      cases collected
  | some ints' =>
      rw [found] at collected
      cases collected
      rw [(Json.signedAt?_eq_some_iff.1 found).2, Json.signedBelow_eq_map]

/-- The integers are those of the numbers at the positions that spell the path, one for one. An integer
is the whole part of its number if and only if that is a signed 64-bit integer, so the integers are
those that the document has if and only if all of them are. -/
theorem integers_exact_iff {body : Bytes} {path : List String} {doc : Json} {ints : List Int}
    (read : Json.ofBytes? body = some doc) (collected : integers body path = .ok ints) :
    let found := located path doc
    Gathers path doc found ∧
      List.Forall₂
        (fun x n => n = max (-2 ^ 63) (min (towardZero x.value) (2 ^ 63 - 1)) ∧
          (n = towardZero x.value ↔ x.WholeFits)) (numbersOf found) ints ∧
      (ints = (numbersOf found).map (fun x => towardZero x.value) ↔
        ∀ x ∈ numbersOf found, x.WholeFits) := by
  intro found
  have same := integers_eq_ok read collected
  refine ⟨Json.gathers_located path doc, ?_, ?_⟩
  · rw [same, List.forall₂_map_right_iff, List.forall₂_same]
    intro x _
    exact ⟨rfl, x.collected_eq_iff⟩
  · rw [same, List.map_inj_left]
    exact forall₂_congr fun x _ => x.collected_eq_iff

/-- The problem `9223372036854775808` is taken for the one before it. -/
theorem large_integer_replaced :
    let body := Bytes.ofText
      "\x7b\"data\":\x7b\"problems\":[\x7b\"prob\":9223372036854775808\x7d,\x7b\"prob\":1.5\x7d]\x7d\x7d"
    let path := ["data", "problems", "prob"]
    let whole : List ℤ := [9223372036854775808, 1]
    ∃ doc, Json.ofBytes? body = some doc ∧
      (numbersOf (located path doc)).map (fun x => towardZero x.value) = whole ∧
      integers body path = .ok [9223372036854775807, 1] ∧ integers body path ≠ .ok whole := by
  intro body path whole
  let large : Json.Number := .integer 9223372036854775808
  let half : Json.Number := .double ⟨false, 6755399441055744, -52⟩
  have collected : integers body path = .ok [9223372036854775807, 1] := by decide +kernel
  obtain ⟨doc, read⟩ : ∃ doc, Json.ofBytes? body = some doc :=
    Option.isSome_iff_exists.1 (by decide +kernel)
  have numbers : (Json.ofBytes? body).map (fun doc => numbersOf (located path doc)) =
      some [large, half] := by
    decide +kernel
  rw [read, Option.map_some, Option.some.injEq] at numbers
  have whole_large : towardZero large.value = 9223372036854775808 := by
    rw [← large.trunc_eq_towardZero]
    decide
  have whole_half : towardZero half.value = 1 := by
    rw [← half.trunc_eq_towardZero]
    decide
  have values : (numbersOf (located path doc)).map (fun x => towardZero x.value) = whole := by
    rw [numbers, List.map_cons, List.map_singleton, whole_large, whole_half]
  refine ⟨doc, read, values, collected, fun same => ?_⟩
  obtain ⟨-, -, exact⟩ := integers_exact_iff read same
  have fits := exact.1 values.symm large (by rw [numbers]; exact List.mem_cons_self)
  exact absurd (whole_large ▸ fits.2) (by decide)

end ResponseBody

end CredentialRelay

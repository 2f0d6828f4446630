import Mathlib
import CredentialRelay.Proofs.Number.Value
import CredentialRelay.Proofs.Token.Reading

namespace CredentialRelay.Token

def subject? (token : String) : Option Json :=
  (claims? token).bind fun held =>
    subjectClaims.findSome? fun name =>
      (held.lookup name).filter fun json => (subjectText? json).isSome

def numericSubject? (token : String) : Option Json.Number := (subject? token).bind Json.number?

def writtenInteger : Json.Number → ℤ
  | .integer n => n
  | .double x => max (-2 ^ 63) (min (towardZero x.value) (2 ^ 63 - 1))

def Writable : Json.Number → Prop
  | .integer _ => True
  | .double x => -2 ^ 63 ≤ towardZero x.value ∧ towardZero x.value < 2 ^ 63

theorem findSome?_bind {α β γ : Type} (f : α → Option β) (g : β → Option γ) (names : List α) :
    names.findSome? (fun name => (f name).bind g) =
      (names.findSome? fun name => (f name).filter fun value => (g value).isSome).bind g := by
  induction names with
  | nil => rfl
  | cons name names ih =>
      rw [List.findSome?_cons, List.findSome?_cons, ih]
      cases f name with
      | none => rfl
      | some value => cases usable : g value <;> simp [Option.filter, usable]

theorem identity?_eq_subject (token : String) :
    identity? token = (subject? token).bind subjectText? := by
  rw [identity?, subject?]
  cases claims? token with
  | none => rfl
  | some held => exact findSome?_bind (fun name => held.lookup name) subjectText? subjectClaims

theorem subjectText?_number (x : Json.Number) :
    subjectText? (.number x) = some (toString (writtenInteger x)) := by
  cases x with
  | integer n => rw [subjectText?, Decimal.text_eq_toString, writtenInteger]
  | double x =>
      rw [subjectText?, Decimal.text_eq_toString, x.trunc_eq_towardZero, Decimal.clampSigned_eq,
        writtenInteger]

theorem identity_of_numericSubject {token : String} {x : Json.Number}
    (subject : numericSubject? token = some x) :
    identity token = .ok (toString (writtenInteger x)) := by
  obtain ⟨json, found, number⟩ := Option.bind_eq_some_iff.1 subject
  obtain rfl : json = .number x := by
    cases json with
    | number y => exact congrArg Json.number (Option.some.inj number)
    | _ => cases number
  rw [identity, identity?_eq_subject, found, Option.bind_some, subjectText?_number]

theorem ok_toString_inj {m n : ℤ} :
    (.ok (toString m) : Except RelayError String) = .ok (toString n) ↔ m = n := by
  rw [Except.ok.injEq, Int.toString_eq_repr, Int.toString_eq_repr, Int.repr_inj]

theorem writtenInteger_eq_iff (x : Json.Number) :
    writtenInteger x = towardZero x.value ↔ Writable x := by
  cases x with
  | integer n => simp [writtenInteger, Writable, Json.Number.value]
  | double x =>
      simp only [writtenInteger, Writable, Json.Number.value]
      omega

/-- A numeric subject is written as its whole part if and only if that is an integer or, of a double,
a signed 64-bit integer. Two tokens with numeric subjects have one identity if and only if their
subjects are written as the same integer, so never if both are written as different whole parts. -/
theorem numeric_identity_exact_iff {token : String} {x : Json.Number}
    (subject : numericSubject? token = some x) :
    identity token = .ok (toString (writtenInteger x)) ∧
    (identity token = .ok (toString (towardZero x.value)) ↔ Writable x) ∧
    ∀ token' y, numericSubject? token' = some y →
      (identity token = identity token' ↔ writtenInteger x = writtenInteger y) ∧
      (Writable x → Writable y →
        (identity token = identity token' ↔ towardZero x.value = towardZero y.value)) := by
  have written := identity_of_numericSubject subject
  refine ⟨written, ?_, fun token' y subject' => ?_⟩
  · rw [written, ok_toString_inj]
    exact writtenInteger_eq_iff x
  · have same : identity token = identity token' ↔ writtenInteger x = writtenInteger y := by
      rw [written, identity_of_numericSubject subject', ok_toString_inj]
    refine ⟨same, fun exact exact' => ?_⟩
    rw [same, (writtenInteger_eq_iff x).2 exact, (writtenInteger_eq_iff y).2 exact']

/-- The users `1e19` and `2e19` are taken for one. -/
theorem large_subjects_collide :
    let token := "h.eyJ1c2VySUQiOjFlMTl9.s"
    let token' := "h.eyJ1c2VySUQiOjJlMTl9.s"
    let x : Binary64 := ⟨false, 4882812500000000, 11⟩
    let y : Binary64 := ⟨false, 4882812500000000, 12⟩
    numericSubject? token = some (.double x) ∧ numericSubject? token' = some (.double y) ∧
      towardZero x.value = 10000000000000000000 ∧ towardZero y.value = 20000000000000000000 ∧
      identity token = .ok "9223372036854775807" ∧ identity token' = identity token := by
  intro token token' x y
  have subject : numericSubject? token = some (.double x) := by decide +kernel
  have subject' : numericSubject? token' = some (.double y) := by decide +kernel
  have whole : towardZero x.value = 10000000000000000000 := by
    rw [← x.trunc_eq_towardZero]
    decide
  have whole' : towardZero y.value = 20000000000000000000 := by
    rw [← y.trunc_eq_towardZero]
    decide
  have last : writtenInteger (.double x) = 9223372036854775807 := by
    rw [writtenInteger, whole]
    norm_num
  have last' : writtenInteger (.double y) = 9223372036854775807 := by
    rw [writtenInteger, whole']
    norm_num
  obtain ⟨written, -, others⟩ := numeric_identity_exact_iff subject
  refine ⟨subject, subject', whole, whole', ?_, ?_⟩
  · rw [written, last]
    decide
  · exact ((others token' _ subject').1.2 (last.trans last'.symm)).symm

end CredentialRelay.Token

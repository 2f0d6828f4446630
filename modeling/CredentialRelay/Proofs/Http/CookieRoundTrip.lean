import Mathlib
import CredentialRelay.Proofs.Http.Cookies

namespace CredentialRelay.Http.CookieMap
open Bytes

variable {a b cookies : CookieMap}

theorem get?_eq_some_iff_mem {name value : String} :
    cookies.get? name = some value ↔ (name, value) ∈ cookies.fields.pairs :=
  lookup_eq_some_iff_mem cookies.fields.distinct

theorem nodup_pairs (cookies : CookieMap) : cookies.fields.pairs.Nodup :=
  .of_map Prod.fst cookies.fields.distinct

theorem perm_iff_get?_eq :
    a.fields.pairs.Perm b.fields.pairs ↔ ∀ name, a.get? name = b.get? name := by
  constructor
  · exact fun perm name => lookup_perm perm a.fields.distinct name
  · intro equal
    rw [List.perm_ext_iff_of_nodup a.nodup_pairs b.nodup_pairs]
    rintro ⟨name, value⟩
    rw [← get?_eq_some_iff_mem, ← get?_eq_some_iff_mem, equal name]

theorem same_iff_perm : a.same b = true ↔ a.fields.pairs.Perm b.fields.pairs := by
  rw [same, Bool.and_eq_true, decide_eq_true_eq, List.all_eq_true]
  constructor
  · rintro ⟨size, inside⟩
    have subset : a.fields.pairs ⊆ b.fields.pairs := by
      rintro ⟨name, value⟩ member
      exact get?_eq_some_iff_mem.1 (of_decide_eq_true (inside _ member))
    exact (List.subperm_of_subset a.nodup_pairs subset).perm_of_length_le size.ge
  · intro perm
    refine ⟨perm.length_eq, ?_⟩
    rintro ⟨name, value⟩ member
    exact decide_eq_true (get?_eq_some_iff_mem.2 (perm.subset member))

theorem same_iff_get?_eq : a.same b = true ↔ ∀ name, a.get? name = b.get? name :=
  same_iff_perm.trans perm_iff_get?_eq

def trimmed (cookies : CookieMap) : CookieMap where
  fields :=
    { pairs := cookies.fields.pairs.map fun (name, value) => (name, Text.trim value)
      distinct := by
        simpa [List.map_map, Function.comp_def] using cookies.fields.distinct }

theorem get?_trimmed (cookies : CookieMap) (name : String) :
    cookies.trimmed.get? name = (cookies.get? name).map Text.trim :=
  lookup_map_trim cookies.fields.pairs name

def WrittenAs (cookies : CookieMap) (text : String) : Prop :=
  ∃ shown : CookieMap, shown.fields.pairs.Perm cookies.fields.pairs ∧ text = shown.render

theorem parse_of_writtenAs {text : String} (clean : ∀ field ∈ cookies.fields.pairs, Clean field)
    (written : cookies.WrittenAs text) (name : String) :
    (parse text).get? name = (cookies.get? name).map Text.trim := by
  obtain ⟨shown, perm, rfl⟩ := written
  rw [render_eq, get?_parse_written (fun field member => clean field (perm.subset member))
    shown.fields.distinct, ← perm_iff_get?_eq.1 perm]
  rfl

theorem WrittenAs.mem_iff {text : String} (written : cookies.WrittenAs text) {c : Char} :
    c ∈ text.toList ↔ c ∈ cookies.render.toList := by
  obtain ⟨shown, perm, rfl⟩ := written
  rw [render, render, String.toList_join, String.toList_join]
  exact ((perm.map _).flatMap_right _).mem_iff

theorem WrittenAs.as_value {text : String} (clean : ∀ field ∈ cookies.fields.pairs, Clean field)
    (any : cookies.fields.pairs ≠ []) (written : cookies.WrittenAs text) :
    ofText text ≠ [] ∧ trimBy isPad (ofText text) = ofText text ∧
      (ofText text).getLast? ≠ some cr := by
  obtain ⟨shown, perm, rfl⟩ := written
  have some : shown.fields.pairs ≠ [] := mt (fun none => (none ▸ perm).nil_eq.symm) any
  obtain ⟨trimmed, last⟩ := trimBy_written (fun field member => clean field (perm.subset member)) some
  refine ⟨fun none => ?_, trimmed, last⟩
  have closing : ';' ∈ (CookieMap.written shown.fields.pairs).toList :=
    List.mem_of_getLast? (getLast?_written some)
  have inside := (mem_ofText (c := ';') (by decide)).2 closing
  rw [← render_eq, none] at inside
  cases inside

theorem parse_clean (text : String) : ∀ field ∈ (parse text).fields.pairs, Clean field :=
  fun _ member => (clean_of_mem_parse member).1

/-- Clean cookies, written in any order, are read back with trimmed values. What is read is always
clean, so any text settles after it was read and written once. -/
theorem cookies_settle :
    (∀ (cookies : CookieMap) (text : String), (∀ field ∈ cookies.fields.pairs, Clean field) →
      cookies.WrittenAs text → (parse text).same cookies.trimmed = true) ∧
    (∀ text, ∀ field ∈ (parse text).fields.pairs, Clean field) ∧
    ∀ text second third, (parse text).WrittenAs second → (parse second).WrittenAs third →
      (parse second).same (parse text).trimmed = true ∧
        (parse third).same (parse second) = true := by
  have back {cookies : CookieMap} {text : String}
      (clean : ∀ field ∈ cookies.fields.pairs, Clean field) (written : cookies.WrittenAs text) :
      (parse text).same cookies.trimmed = true := by
    rw [same_iff_get?_eq]
    intro name
    rw [parse_of_writtenAs clean written, get?_trimmed]
  refine ⟨fun cookies text => back, parse_clean, fun text second third first again => ?_⟩
  refine ⟨back (parse_clean text) first, same_iff_get?_eq.2 fun name => ?_⟩
  have once := parse_of_writtenAs (parse_clean text) first name
  rw [parse_of_writtenAs (parse_clean second) again name, once, Option.map_map]
  exact congrArg (Option.map · _) (funext trim_trim)

theorem padded_cookies_settle :
    let cookies := (empty.insert "k" " x=y ").insert "" "z"
    let text := "a=1 ; a = x=y\u3000;;=;b;\u00a0k\u2003=\t"
    (parse "=z;k=x=y;").same cookies.trimmed = true ∧
      (parse "k=;a=x=y;=;").same (parse text).trimmed = true ∧
      (parse "=;k=;a=x=y;").same (parse "k=;a=x=y;=;") = true := by
  intro cookies text
  have clean : ∀ field ∈ cookies.fields.pairs, Clean field := by
    have fields : cookies.fields.pairs = [("k", " x=y "), ("", "z")] := by decide +kernel
    rw [fields, List.forall_mem_cons, List.forall_mem_singleton]
    constructor <;> constructor <;> decide +kernel
  exact ⟨cookies_settle.1 cookies _ clean
      ⟨⟨[("", "z"), ("k", " x=y ")], by decide⟩, by decide +kernel, by decide +kernel⟩,
    cookies_settle.2.2 text _ _
      ⟨⟨[("k", "\t"), ("a", " x=y\u3000"), ("", "")], by decide⟩, by decide +kernel, by decide +kernel⟩
      ⟨⟨[("", ""), ("k", ""), ("a", "x=y")], by decide⟩, by decide +kernel, by decide +kernel⟩⟩

end CredentialRelay.Http.CookieMap

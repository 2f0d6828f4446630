import Mathlib
import CredentialRelay.Http.CookieMap
import CredentialRelay.Http.Field
import CredentialRelay.Proofs.Bytes.Cut
import CredentialRelay.Proofs.Bytes.Utf8
import CredentialRelay.Proofs.Text.Pieces

namespace CredentialRelay.Http

theorem get?_foldl_insert {κ α : Type} [DecidableEq κ] (pairs : List (κ × α))
    (table : Table κ α) (key : κ) :
    (pairs.foldl (fun t pair => t.insert pair.1 pair.2) table).get? key =
      (pairs.reverse.lookup key).or (table.get? key) := by
  induction pairs generalizing table with
  | nil => simp
  | cons pair pairs ih =>
      rw [List.foldl_cons, ih, Table.get?_insert, List.reverse_cons, List.lookup_append,
        Option.or_assoc]
      congr 1
      obtain ⟨name, value⟩ := pair
      by_cases same : key = name
      · simp [same]
      · have other : (key == name) = false := beq_false_of_ne same
        simp [same, List.lookup_cons, other]

theorem lookup_eq_some_iff_mem {κ α : Type} [DecidableEq κ] {pairs : List (κ × α)}
    (distinct : (pairs.map Prod.fst).Nodup) {key : κ} {value : α} :
    pairs.lookup key = some value ↔ (key, value) ∈ pairs := by
  induction pairs with
  | nil => simp
  | cons pair pairs ih =>
      obtain ⟨name, first⟩ := pair
      simp only [List.map_cons, List.nodup_cons] at distinct
      rw [List.lookup_cons, List.mem_cons, Prod.mk.injEq]
      by_cases same : key = name
      · subst same
        have absent : (key, value) ∉ pairs := fun member =>
          distinct.1 (List.mem_map_of_mem (f := Prod.fst) member)
        simp [absent, eq_comm]
      · have other : (key == name) = false := beq_false_of_ne same
        simp [same, other, ih distinct.2]

theorem mem_of_mem_foldl_insert {κ α : Type} [DecidableEq κ] {pairs : List (κ × α)}
    {pair : κ × α}
    (h : pair ∈ (pairs.foldl (fun t pair => t.insert pair.1 pair.2) (∅ : Table κ α)).pairs) :
    pair ∈ pairs := by
  have found := (lookup_eq_some_iff_mem (Table.distinct _)).2 h
  rw [← Table.get?, get?_foldl_insert] at found
  obtain ⟨before, after, eq, -⟩ := List.lookup_eq_some_iff.1 ((Option.or_none).symm.trans found)
  rw [← List.mem_reverse, eq]
  simp

theorem lookup_perm {κ α : Type} [DecidableEq κ] {pairs pairs' : List (κ × α)}
    (perm : pairs.Perm pairs') (distinct : (pairs.map Prod.fst).Nodup) (key : κ) :
    pairs.lookup key = pairs'.lookup key := by
  have distinct' : (pairs'.map Prod.fst).Nodup := (perm.map Prod.fst).nodup_iff.1 distinct
  ext value
  rw [lookup_eq_some_iff_mem distinct, lookup_eq_some_iff_mem distinct', perm.mem_iff]

namespace CookieMap

def fieldsOf (text : String) : List (String × String) := (Text.split ';' text).filterMap field?

theorem fields_parse (text : String) :
    (parse text).fields =
      (fieldsOf text).foldl (fun t pair => t.insert pair.1 pair.2) (∅ : Table String String) := by
  have folded (pairs : List (String × String)) (cookies : CookieMap) :
      (pairs.foldl (fun cookies pair => cookies.insert pair.1 pair.2) cookies).fields =
        pairs.foldl (fun t pair => t.insert pair.1 pair.2) cookies.fields := by
    induction pairs generalizing cookies with
    | nil => rfl
    | cons pair pairs ih => rw [List.foldl_cons, ih, List.foldl_cons]; rfl
  exact folded (fieldsOf text) empty

theorem get?_parse (text name : String) :
    (parse text).get? name = (fieldsOf text).reverse.lookup name := by
  rw [get?, fields_parse, get?_foldl_insert]
  exact Option.or_none

def written (fields : List (String × String)) : String :=
  String.join (fields.map fun (name, value) => name ++ "=" ++ Text.trim value ++ ";")

theorem render_eq (cookies : CookieMap) : cookies.render = written cookies.fields.pairs := rfl

structure Clean (field : String × String) : Prop where
  trimmed : Text.trim field.1 = field.1
  plain : '=' ∉ field.1.toList
  name : ';' ∉ field.1.toList
  value : ';' ∉ field.2.toList

theorem trim_subset (s : String) : (Text.trim s).toList ⊆ s.toList := by
  rw [Text.trim, String.toList_ofList]
  exact trimBy_subset _ _

theorem trim_trim (s : String) : Text.trim (Text.trim s) = Text.trim s := by
  rw [Text.trim, Text.trim, String.toList_ofList, trimBy_trimBy]

theorem clean_of_mem_fieldsOf {text : String} {field : String × String}
    (member : field ∈ fieldsOf text) :
    Clean field ∧ field.1.toList ⊆ text.toList ∧ field.2.toList ⊆ text.toList := by
  obtain ⟨segment, inside, read⟩ := List.mem_filterMap.1 member
  obtain ⟨piece, within, rfl⟩ := List.mem_map.1 inside
  obtain ⟨⟨name, value⟩, cut, rfl⟩ := Option.map_eq_some_iff.1 read
  obtain ⟨⟨before, after⟩, parts, eq⟩ := Option.map_eq_some_iff.1 cut
  cases eq
  rw [String.toList_ofList] at parts
  obtain ⟨plain, rfl⟩ := cutAt?_eq_some.1 parts
  obtain ⟨whole, smaller⟩ := mem_splitOn within
  have name := trim_subset (String.ofList before)
  rw [String.toList_ofList] at name
  simp only [List.mem_append, List.mem_cons, not_or] at whole
  rw [List.append_subset, List.cons_subset] at smaller
  refine ⟨⟨trim_trim _, fun m => plain (name m), fun m => whole.1 (name m), ?_⟩,
    fun _ m => smaller.1 (name m), ?_⟩
  · simpa using whole.2.2
  · simpa using smaller.2.2

theorem clean_of_mem_parse {text : String} {field : String × String}
    (member : field ∈ (parse text).fields.pairs) :
    Clean field ∧ field.1.toList ⊆ text.toList ∧ field.2.toList ⊆ text.toList := by
  rw [fields_parse] at member
  exact clean_of_mem_fieldsOf (mem_of_mem_foldl_insert member)

theorem written_cons (name value : String) (fields : List (String × String)) :
    written ((name, value) :: fields) =
      name ++ "=" ++ Text.trim value ++ String.singleton ';' ++ written fields := by
  rw [written, List.map_cons, String.join_cons]
  rfl

theorem fieldsOf_written {fields : List (String × String)} (clean : ∀ field ∈ fields, Clean field) :
    fieldsOf (written fields) = fields.map fun (name, value) => (name, Text.trim value) := by
  induction fields with
  | nil => decide
  | cons field fields ih =>
      rw [List.forall_mem_cons] at clean
      obtain ⟨name, value⟩ := field
      have own := clean.1
      have piece : ';' ∉ (name ++ "=" ++ Text.trim value).toList := by
        have inside := fun member => own.value (trim_subset value member)
        simpa [own.name] using inside
      have first : field? (name ++ "=" ++ Text.trim value) = some (name, Text.trim value) := by
        rw [field?, show "=" = String.singleton '=' from rfl, Text.cut?_append own.plain, Option.map_some]
        exact congrArg (fun n => some (n, Text.trim value)) own.trimmed
      rw [written_cons, fieldsOf, Text.split_append piece, List.filterMap_cons, first, ← fieldsOf,
        ih clean.2, List.map_cons]

theorem lookup_map_trim (fields : List (String × String)) (name : String) :
    (fields.map fun (name, value) => (name, Text.trim value)).lookup name =
      (fields.lookup name).map Text.trim := by
  induction fields with
  | nil => rfl
  | cons field fields ih =>
      rw [List.map_cons, List.lookup_cons, List.lookup_cons, ih]
      split <;> rfl

theorem get?_parse_written {fields : List (String × String)} (clean : ∀ field ∈ fields, Clean field)
    (distinct : (fields.map Prod.fst).Nodup) (name : String) :
    (parse (written fields)).get? name = (fields.lookup name).map Text.trim := by
  have names : ((fields.map fun (name, value) => (name, Text.trim value)).map Prod.fst).Nodup := by
    simpa [List.map_map, Function.comp_def] using distinct
  rw [get?_parse, fieldsOf_written clean,
    ← lookup_perm (List.reverse_perm _).symm names, lookup_map_trim]

theorem mem_written {fields : List (String × String)} {c : Char}
    (member : c ∈ (written fields).toList) :
    c = '=' ∨ c = ';' ∨ ∃ field ∈ fields, c ∈ field.1.toList ∨ c ∈ field.2.toList := by
  rw [written, String.toList_join, List.mem_flatMap] at member
  obtain ⟨piece, inside, here⟩ := member
  obtain ⟨⟨name, value⟩, own, rfl⟩ := List.mem_map.1 inside
  simp only [String.toList_append, List.mem_append] at here
  rcases here with ((front | sign) | back) | last
  · exact .inr (.inr ⟨_, own, .inl front⟩)
  · exact .inl (by simpa using sign)
  · exact .inr (.inr ⟨_, own, .inr (trim_subset value back)⟩)
  · exact .inr (.inl (by simpa using last))

end CookieMap

open Bytes

theorem not_isPad_of_mem {c : Char} {b : UInt8} (inside : b ∈ String.utf8EncodeChar c)
    (plain : c ≠ ' ' ∧ c ≠ '\t') : isPad b = false := by
  rw [isPad, Bool.or_eq_false_iff, beq_eq_false_iff_ne, beq_eq_false_iff_ne]
  constructor
  · rintro rfl
    exact plain.1 ((mem_utf8EncodeChar (c := ' ') (by decide)).1 inside).symm
  · rintro rfl
    exact plain.2 ((mem_utf8EncodeChar (c := '\t') (by decide)).1 inside).symm

theorem trimBy_isPad_ofText {s : String}
    (front : ∀ c, s.toList.head? = some c → c ≠ ' ' ∧ c ≠ '\t')
    (back : ∀ c, s.toList.getLast? = some c → c ≠ ' ' ∧ c ≠ '\t') :
    trimBy isPad (ofText s) = ofText s := by
  have outer {cs : List Char} {pick : Bytes → Option UInt8}
      (picked : ∀ bs b, pick bs = some b → b ∈ bs) (picks : ∀ bs, pick bs = none → bs = [])
      (plain : ∀ c, cs.head? = some c → c ≠ ' ' ∧ c ≠ '\t') (b : UInt8)
      (h : (cs.findSome? fun c => pick (String.utf8EncodeChar c)) = some b) :
      isPad b = false := by
    cases cs with
    | nil => cases h
    | cons c cs =>
        rw [List.findSome?_cons] at h
        split at h
        · next b' found =>
          cases h
          exact not_isPad_of_mem (picked _ _ found) (plain c rfl)
        · next none => exact absurd (picks _ none) String.utf8EncodeChar_ne_nil
  rw [ofText_eq]
  apply trimBy_eq_self
  · intro b first
    rw [List.head?_flatMap] at first
    exact outer (fun _ _ => List.mem_of_head?) (fun _ => List.head?_eq_none_iff.1) front b first
  · intro b last
    rw [List.getLast?_flatMap] at last
    refine outer (fun _ _ => List.mem_of_getLast?) (fun _ => List.getLast?_eq_none_iff.1) ?_ b last
    simpa only [List.head?_reverse] using back

namespace CookieMap

theorem head?_written {fields : List (String × String)} (clean : ∀ field ∈ fields, Clean field)
    {c : Char} (first : (written fields).toList.head? = some c) : c ≠ ' ' ∧ c ≠ '\t' := by
  cases fields with
  | nil => simp [written] at first
  | cons field fields =>
      obtain ⟨name, value⟩ := field
      have trimmed : trimBy Text.isBlank name.toList = name.toList := by
        have same := congrArg String.toList (clean _ List.mem_cons_self).trimmed
        rwa [Text.trim, String.toList_ofList] at same
      rw [written_cons] at first
      simp only [String.toList_append, List.append_assoc, List.head?_append] at first
      cases own : name.toList.head? with
      | none =>
          rw [own] at first
          cases first
          decide
      | some d =>
          rw [own] at first
          cases first
          have plain := head?_trimBy (trimmed.symm ▸ own)
          constructor <;> (rintro rfl; revert plain; decide)

theorem getLast?_written {fields : List (String × String)} (any : fields ≠ []) :
    (written fields).toList.getLast? = some ';' := by
  induction fields with
  | nil => exact absurd rfl any
  | cons field fields ih =>
      obtain ⟨name, value⟩ := field
      rw [written_cons]
      cases fields with
      | nil =>
          rw [show written [] = "" from rfl, String.append_empty, String.toList_append,
            List.getLast?_append]
          rfl
      | cons next fields =>
          rw [String.toList_append, List.getLast?_append, ih (by simp), Option.some_or]

theorem trimBy_written {fields : List (String × String)} (clean : ∀ field ∈ fields, Clean field)
    (any : fields ≠ []) :
    trimBy isPad (ofText (written fields)) = ofText (written fields) ∧
      (ofText (written fields)).getLast? ≠ some cr := by
  have last := getLast?_written any
  constructor
  · refine trimBy_isPad_ofText (fun c first => head?_written clean first) (fun c final => ?_)
    rw [last] at final
    cases final
    decide
  · obtain ⟨before, whole⟩ := List.getLast?_eq_some_iff.1 last
    rw [ofText_eq, whole, List.flatMap_append, List.flatMap_singleton, List.getLast?_append,
      utf8EncodeChar_ascii (by decide)]
    simp [cr]

end CookieMap

end CredentialRelay.Http

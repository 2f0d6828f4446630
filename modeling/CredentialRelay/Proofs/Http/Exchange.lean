import Mathlib
import CredentialRelay.Proofs.Http.Values

/-!
# Exchanged values

Header lines with other values in the first lines of some names, all at once. Exchanges of single
values one after the other come to the same, if no line has two of the names.
-/

namespace CredentialRelay.Http
open Bytes

def withValue (value line : Bytes) : Bytes :=
  ((Field.ofLine? line).map fun field => { field with value }.bytes).getD line

def valueAt? (values : List (String × Bytes)) (headers : List Bytes) (i : Nat) : Option Bytes :=
  (values.find? fun pair => place? pair.1 headers = some i).map Prod.snd

def exchange (values : List (String × Bytes)) (headers : List Bytes) : List Bytes :=
  headers.mapIdx fun i line => (valueAt? values headers i).elim line fun value => withValue value line

variable {values : List (String × Bytes)} {headers : List Bytes} {name : String} {value : Bytes}
  {i : Nat}

theorem valueAt?_concat (name : String) (value : Bytes) (values : List (String × Bytes))
    (headers : List Bytes) (i : Nat) :
    valueAt? (values ++ [(name, value)]) headers i =
      (valueAt? values headers i).or (if place? name headers = some i then some value else none) := by
  rw [valueAt?, List.find?_append, Option.map_or, ← valueAt?, List.find?_singleton]
  congr 1
  by_cases here : place? name headers = some i <;> simp [here]

theorem valueAt?_singleton (name : String) (value : Bytes) (headers : List Bytes) (i : Nat) :
    valueAt? [(name, value)] headers i =
      if place? name headers = some i then some value else none :=
  valueAt?_concat name value [] headers i

theorem valueAt?_eq_some (h : valueAt? values headers i = some value) :
    ∃ name, (name, value) ∈ values ∧ place? name headers = some i := by
  obtain ⟨⟨name, value'⟩, found, rfl⟩ := Option.map_eq_some_iff.1 h
  exact ⟨name, List.mem_of_find?_eq_some found, by simpa using List.find?_some found⟩

theorem getElem?_exchange (values : List (String × Bytes)) (headers : List Bytes) (i : Nat) :
    (exchange values headers)[i]? = headers[i]?.map fun line =>
      (valueAt? values headers i).elim line fun value => withValue value line := by
  rw [exchange, List.getElem?_mapIdx]

@[simp] theorem exchange_nil (headers : List Bytes) : exchange [] headers = headers := by
  simp [exchange, valueAt?, List.mapIdx_eq_iff]

theorem exchange_append {before after : List Bytes} {line : Bytes} {field : Field}
    (others : ∀ other ∈ before, fieldNamed? name other = none)
    (found : fieldNamed? name line = some field) (value : Bytes) :
    exchange [(name, value)] (before ++ line :: after) =
      before ++ { field with value }.bytes :: after := by
  have place : place? name (before ++ line :: after) = some before.length :=
    place?_append others (Option.isSome_iff_exists.2 ⟨field, found⟩)
  have edited : withValue value line = { field with value }.bytes := by
    rw [withValue, (fieldNamed?_eq_some.1 found).1]
    rfl
  have set : before ++ { field with value }.bytes :: after =
      (before ++ line :: after).set before.length (withValue value line) := by
    simp [edited]
  apply List.ext_getElem?
  intro i
  rw [getElem?_exchange, valueAt?_singleton, place, set, List.getElem?_set]
  by_cases here : before.length = i
  · subst here
    simp
  · simp [here]

theorem exchange_of_replaceValue? {headers' : List Bytes}
    (replaced : Message.replaceValue? name value headers = some headers') :
    exchange [(name, value)] headers = headers' := by
  obtain ⟨before, line, after, field, rfl, others, found, rfl⟩ := replaceValue?_eq_some replaced
  exact exchange_append others found value

theorem Message.layout_setHeader_of_present {message : Message} (feedless : lf ∉ value)
    (present : message.header? name ≠ none) :
    (message.setHeader name value).layout =
      { message.layout with headers := exchange [(name, value)] message.layout.headers } := by
  obtain ⟨before, line, after, field, whole, others, found, edited⟩ :=
    layout_setHeader feedless present
  rw [edited, whole, exchange_append others found]

theorem sameLines_exchange (feedless : ∀ pair ∈ values, lf ∉ pair.2) :
    SameLines (values.map Prod.fst) headers (exchange values headers) := by
  refine ⟨List.length_mapIdx, fun i line line' old new => ?_⟩
  rw [getElem?_exchange, old, Option.map_some, Option.some.injEq] at new
  cases given : valueAt? values headers i with
  | none =>
      rw [given] at new
      exact .inl new.symm
  | some value =>
      obtain ⟨name, member, place⟩ := valueAt?_eq_some given
      obtain ⟨field, found⟩ := fieldNamed?_of_place? place old
      have read := (fieldNamed?_eq_some.1 found).1
      rw [given, Option.elim_some, withValue, read] at new
      exact .inr ⟨⟨field, value, read, feedless _ member, new.symm⟩, name,
        List.mem_map_of_mem member, place⟩

theorem onlyValues_exchange {names : List String} (feedless : ∀ pair ∈ values, lf ∉ pair.2)
    (named : values.map Prod.fst ⊆ names) (layout : Layout) :
    OnlyValues names layout { layout with headers := exchange values layout.headers } :=
  ⟨rfl, (sameLines_exchange feedless).mono named, rfl, rfl⟩

theorem exchange_exchange (feedless : ∀ pair ∈ values, lf ∉ pair.2)
    (whole : ∀ line ∈ headers, IsLine line) (apart : ∀ pair ∈ values, Apart pair.1 name)
    (value : Bytes) :
    exchange [(name, value)] (exchange values headers) =
      exchange (values ++ [(name, value)]) headers := by
  apply List.ext_getElem?
  intro i
  rw [getElem?_exchange, getElem?_exchange, getElem?_exchange, valueAt?_singleton, valueAt?_concat,
    (sameLines_exchange feedless).place? whole name]
  cases old : headers[i]? with
  | none => rfl
  | some line =>
      by_cases here : place? name headers = some i
      · -- No line has two of the names, so the first line of `name` still has its old value.
        have free : valueAt? values headers i = none := by
          by_contra taken
          obtain ⟨value', given⟩ := Option.ne_none_iff_exists'.1 taken
          obtain ⟨other, member, place⟩ := valueAt?_eq_some given
          obtain ⟨field, found⟩ := fieldNamed?_of_place? place old
          obtain ⟨field', found'⟩ := fieldNamed?_of_place? here old
          cases (fieldNamed?_of_apart (apart _ member) found).symm.trans found'
        simp [here, free]
      · simp [here]

theorem fieldsNamed_exchange (feedless : ∀ pair ∈ values, lf ∉ pair.2)
    (whole : ∀ line ∈ headers, IsLine line) (apart : ∀ pair ∈ values, Apart pair.1 name) :
    fieldsNamed name (exchange values headers) = fieldsNamed name headers := by
  have read : (exchange values headers).map (fieldNamed? name) = headers.map (fieldNamed? name) := by
    apply List.ext_getElem?
    intro i
    rw [List.getElem?_map, List.getElem?_map, getElem?_exchange]
    cases old : headers[i]? with
    | none => rfl
    | some line =>
        simp only [Option.map_some]
        cases given : valueAt? values headers i with
        | none => rfl
        | some value =>
            obtain ⟨other, member, place⟩ := valueAt?_eq_some given
            obtain ⟨field, found⟩ := fieldNamed?_of_place? place old
            have line_read := (fieldNamed?_eq_some.1 found).1
            have none := fieldNamed?_of_apart (apart _ member) found
            have same := fieldNamed?_withValue (whole line (List.mem_of_getElem? old)).mem_lines
              line_read (feedless _ member) name
            rw [none, Option.isSome_none, Option.isSome_eq_false_iff, Option.isNone_iff_eq_none] at same
            rw [none, Option.elim_some, withValue, line_read, Option.map_some, Option.getD_some, same]
  have through (lines : List Bytes) :
      fieldsNamed name lines = (lines.map (fieldNamed? name)).filterMap id := by
    rw [List.filterMap_map]
    rfl
  rw [through, through, read]

end CredentialRelay.Http

import Mathlib
import CredentialRelay.Proofs.Http.Edits

namespace CredentialRelay.Http
open Bytes

def place? (name : String) (headers : List Bytes) : Option Nat :=
  headers.findIdx? fun line => (fieldNamed? name line).isSome

def Revalued (line line' : Bytes) : Prop :=
  ∃ field value, Field.ofLine? line = some field ∧ lf ∉ value ∧ line' = { field with value }.bytes

structure SameLines (names : List String) (headers headers' : List Bytes) : Prop where
  length : headers'.length = headers.length
  line : ∀ (i : Nat) line line', headers[i]? = some line → headers'[i]? = some line' →
    line' = line ∨ Revalued line line' ∧ ∃ name ∈ names, place? name headers = some i

structure OnlyValues (names : List String) (layout layout' : Layout) : Prop where
  start : layout'.start = layout.start
  headers : SameLines names layout.headers layout'.headers
  blank : layout'.blank = layout.blank
  body : layout'.body = layout.body

theorem Revalued.isLine {line line' : Bytes} (h : Revalued line line') (isLine : IsLine line) :
    IsLine line' ∧ content line' ≠ [] := by
  obtain ⟨field, value, read, feedless, rfl⟩ := h
  exact Field.isLine_withValue isLine read feedless

theorem Revalued.named {line line' : Bytes} (h : Revalued line line') (isLine : IsLine line)
    (name : String) : (fieldNamed? name line').isSome = (fieldNamed? name line).isSome := by
  obtain ⟨field, value, read, feedless, rfl⟩ := h
  exact fieldNamed?_withValue isLine.mem_lines read feedless name

theorem place?_append {name : String} {before after : List Bytes} {line : Bytes}
    (others : ∀ other ∈ before, fieldNamed? name other = none)
    (found : (fieldNamed? name line).isSome = true) :
    place? name (before ++ line :: after) = some before.length := by
  have skipped : before.findIdx? (fun line => (fieldNamed? name line).isSome) = none := by
    rw [List.findIdx?_eq_none_iff]
    intro other member
    rw [others other member]
    rfl
  rw [place?, List.findIdx?_append, skipped, List.findIdx?_cons, found]
  simp

theorem fieldNamed?_of_place? {name : String} {headers : List Bytes} {i : Nat} {line : Bytes}
    (h : place? name headers = some i) (at_i : headers[i]? = some line) :
    ∃ field, fieldNamed? name line = some field := by
  obtain ⟨inside, found, -⟩ := List.findIdx?_eq_some_iff_getElem.1 h
  obtain ⟨_, here⟩ := List.getElem?_eq_some_iff.1 at_i
  rw [here] at found
  exact Option.isSome_iff_exists.1 found

namespace SameLines

variable {names names' : List String} {headers headers' : List Bytes}

theorem mono (same : SameLines names headers headers') (more : names ⊆ names') :
    SameLines names' headers headers' := by
  refine ⟨same.length, fun i line line' before after => ?_⟩
  rcases same.line i line line' before after with equal | ⟨revalued, name, member, place⟩
  · exact .inl equal
  · exact .inr ⟨revalued, name, more member, place⟩

variable (same : SameLines names headers headers')

include same in
theorem exists_old {i : Nat} {line' : Bytes} (h : headers'[i]? = some line') :
    ∃ line, headers[i]? = some line := by
  have inside := (List.getElem?_eq_some_iff.1 h).1
  rw [same.length] at inside
  exact ⟨headers[i], List.getElem?_eq_getElem inside⟩

include same in
theorem isLine (whole : ∀ line ∈ headers, IsLine line) : ∀ line' ∈ headers', IsLine line' := by
  intro line' member
  obtain ⟨i, here⟩ := List.getElem?_of_mem member
  obtain ⟨line, old⟩ := same.exists_old here
  have isLine := whole line (List.mem_of_getElem? old)
  rcases same.line i line line' old here with equal | ⟨revalued, -⟩
  · rwa [equal]
  · exact (revalued.isLine isLine).1

include same in
theorem place? (whole : ∀ line ∈ headers, IsLine line) (name : String) :
    place? name headers' = place? name headers := by
  have marks : headers'.map (fun line => (fieldNamed? name line).isSome) =
      headers.map fun line => (fieldNamed? name line).isSome := by
    apply List.ext_getElem?
    intro i
    rw [List.getElem?_map, List.getElem?_map]
    cases new : headers'[i]? with
    | none =>
        have outside := List.getElem?_eq_none_iff.1 new
        rw [same.length] at outside
        rw [List.getElem?_eq_none outside]
    | some line' =>
        obtain ⟨line, old⟩ := same.exists_old new
        rw [old, Option.map_some, Option.map_some]
        rcases same.line i line line' old new with equal | ⟨revalued, -⟩
        · rw [equal]
        · rw [revalued.named (whole line (List.mem_of_getElem? old)) name]
  have first (lines : List Bytes) : Http.place? name lines =
      (lines.map fun line => (fieldNamed? name line).isSome).findIdx? id := by
    rw [List.findIdx?_map]
    rfl
  rw [first, first, marks]

end SameLines

theorem count_lf_of_isLine {headers : List Bytes} (whole : ∀ line ∈ headers, IsLine line) :
    headers.flatten.count lf = headers.length := by
  induction headers with
  | nil => rfl
  | cons line headers ih =>
      rw [List.forall_mem_cons] at whole
      obtain ⟨⟨text, feedless, rfl⟩, rest⟩ := whole
      rw [List.flatten_cons, List.count_append, ih rest, List.count_append,
        List.count_eq_zero.2 feedless]
      simp [Nat.add_comm]

theorem OnlyValues.count_lf {names : List String} {layout layout' : Layout}
    (same : OnlyValues names layout layout') (ended : layout.Ended) :
    layout'.bytes.count lf = layout.bytes.count lf := by
  have whole : ∀ line ∈ layout.headers, IsLine line := fun line member =>
    (ended.headers line member).1
  simp only [Layout.bytes, List.count_append, same.start, same.blank, same.body,
    count_lf_of_isLine whole, count_lf_of_isLine (same.headers.isLine whole), same.headers.length]

namespace Message

variable {message : Message} {name : String} {value : Bytes}

theorem count_lf_setHeader (value : Bytes) (present : message.header? name ≠ none) :
    (message.setHeader name value).bytes.count lf = message.bytes.count lf + value.count lf := by
  obtain ⟨before, line, after, field, whole, others, found⟩ := exists_found present
  have read := (fieldNamed?_eq_some.1 found).1
  have inside : line ∈ message.layout.headers := by simp [whole]
  have feedless : field.value.count lf = 0 := List.count_eq_zero.2
    (Field.whole_of_ofLine? (Layout.mem_lines_of_mem_headers inside) read).value
  have old : message.bytes.count lf = message.layout.bytes.count lf :=
    congrArg (List.count lf) (Layout.bytes_ofBytes message.bytes).symm
  rw [setHeader_of_found whole others found, ofLayout, old, Layout.bytes, Layout.bytes, whole,
    ← Field.bytes_of_ofLine? read]
  simp only [Field.bytes, List.flatten_append, List.flatten_cons, List.count_append, feedless]
  omega

theorem start_setHeader (value : Bytes) (present : message.header? name ≠ none) :
    (message.setHeader name value).layout.start = message.layout.start := by
  obtain ⟨before, line, after, field, whole, others, found⟩ := exists_found present
  have isLine : IsLine message.layout.start := Layout.isLine_start fun none => by
    rw [layout, none] at whole
    simp at whole
  rw [setHeader_of_found whole others found, layout, ofLayout, Layout.bytes, List.append_assoc,
    List.append_assoc]
  exact Layout.start_ofBytes_append isLine _

end Message

end CredentialRelay.Http

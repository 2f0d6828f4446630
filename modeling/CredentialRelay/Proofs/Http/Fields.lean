import Mathlib
import CredentialRelay.Http.Field
import CredentialRelay.Proofs.Bytes.Cut
import CredentialRelay.Proofs.Http.Lines

namespace CredentialRelay.Http
open Bytes

structure Field.Whole (field : Field) : Prop where
  name : colon ∉ field.name ∧ lf ∉ field.name
  lead : ∃ pads, (∀ b ∈ pads, isPad b) ∧ field.lead = colon :: pads
  value : lf ∉ field.value
  trail : ∃ pads returns feeds, (∀ b ∈ pads, isPad b) ∧ (returns = [] ∨ returns = [cr]) ∧
    (feeds = [] ∨ feeds = [lf]) ∧ field.trail = pads ++ returns ++ feeds

theorem content_append {text returns feeds : Bytes} (feedless : lf ∉ text)
    (hreturns : returns = [] ∨ returns = [cr]) (hfeeds : feeds = [] ∨ feeds = [lf]) :
    content (text ++ returns ++ feeds) = (splitLast cr (text ++ returns)).1 := by
  rcases hfeeds with rfl | rfl
  · have last : (text ++ returns).getLast? ≠ some lf := by
      intro h
      rcases List.mem_append.1 (List.mem_of_getLast? h) with member | member
      · exact feedless member
      · rcases hreturns with rfl | rfl <;> simp [lf, cr] at member
    rw [List.append_nil, content, splitLast_of_last_ne last]
  · rw [content, splitLast_append_singleton]

theorem lf_notMem_pads {pads : Bytes} (h : ∀ b ∈ pads, isPad b) : lf ∉ pads :=
  fun member => Bool.false_ne_true (h lf member)

theorem cr_notMem_pads {pads : Bytes} (h : ∀ b ∈ pads, isPad b) : cr ∉ pads :=
  fun member => Bool.false_ne_true (h cr member)

theorem getLast?_of_append_pads {pads value pads' : Bytes} (h : ∀ b ∈ pads, isPad b)
    (h' : ∀ b ∈ pads', isPad b) (last : (pads ++ value ++ pads').getLast? = some cr) :
    value.getLast? = some cr := by
  rw [List.getLast?_append, List.getLast?_append] at last
  cases back : pads'.getLast? with
  | some b =>
      rw [back, Option.some_or] at last
      exact absurd (List.mem_of_getLast? (back.trans last)) (cr_notMem_pads h')
  | none =>
      rw [back, Option.none_or] at last
      cases middle : value.getLast? with
      | some b => rwa [middle, Option.some_or] at last
      | none =>
          rw [middle, Option.none_or] at last
          exact absurd (List.mem_of_getLast? last) (cr_notMem_pads h)

theorem getLast?_of_append_colon {name rest : Bytes}
    (last : (name ++ colon :: rest).getLast? = some cr) : rest.getLast? = some cr := by
  rw [List.getLast?_append, List.getLast?_cons] at last
  cases back : rest.getLast? with
  | none => simp [back, colon, cr] at last
  | some b => simpa [back] using last

namespace Field

theorem ofLine?_eq_some {line : Bytes} {field : Field} (h : ofLine? line = some field) :
    ∃ rest, colon ∉ field.name ∧ content line = field.name ++ colon :: rest ∧
      field.lead = colon :: rest.takeWhile isPad ∧ field.value = trimBy isPad rest ∧
      field.trail = ((rest.dropWhile isPad).reverse.takeWhile isPad).reverse ++ lineEnd line := by
  obtain ⟨⟨name, rest⟩, cut, rfl⟩ := Option.map_eq_some_iff.1 h
  obtain ⟨clean, whole⟩ := cutAt?_eq_some.1 cut
  exact ⟨rest, clean, whole, rfl, rfl, rfl⟩

theorem ofLine?_eq_none {line : Bytes} (plain : colon ∉ line) : ofLine? line = none := by
  by_contra some
  obtain ⟨field, read⟩ := Option.ne_none_iff_exists'.1 some
  obtain ⟨rest, -, whole, -⟩ := ofLine?_eq_some read
  have inside : colon ∈ content line := by simp [whole]
  exact plain (subset_of_splitLast lf line (subset_of_splitLast cr _ inside))

theorem ofLine?_of_content {line name rest : Bytes} (clean : colon ∉ name)
    (h : content line = name ++ colon :: rest) :
    ∃ field, ofLine? line = some field ∧ field.name = name ∧ field.value = trimBy isPad rest := by
  rw [ofLine?, h, cutAt?_append clean]
  exact ⟨_, rfl, rfl, rfl⟩

theorem content_ne_nil {line : Bytes} {field : Field} (h : ofLine? line = some field) :
    content line ≠ [] := by
  obtain ⟨rest, -, whole, -⟩ := ofLine?_eq_some h
  simp [whole]

theorem whole_of_ofLine? {b line : Bytes} {field : Field} (inside : line ∈ lines b)
    (h : ofLine? line = some field) : field.Whole := by
  obtain ⟨rest, clean, whole, lead, value, trail⟩ := ofLine?_eq_some h
  have feedless : lf ∉ field.name ++ colon :: rest := whole ▸ lf_notMem_content inside
  simp only [List.mem_append, List.mem_cons, not_or] at feedless
  refine ⟨⟨clean, feedless.1⟩, ⟨_, fun b member => List.mem_takeWhile_imp member, lead⟩, ?_,
    ⟨_, _, _, ?_, splitLast_eq cr _, splitLast_eq lf line, by rw [trail, lineEnd, List.append_assoc]⟩⟩
  · rw [value]
    exact fun member => feedless.2.2 (trimBy_subset isPad rest member)
  · intro b member
    exact List.mem_takeWhile_imp (List.mem_reverse.1 member)

theorem lf_mem_trail {line : Bytes} {field : Field} (h : IsLine line)
    (read : ofLine? line = some field) : lf ∈ field.trail := by
  obtain ⟨rest, -, -, -, -, trail⟩ := ofLine?_eq_some read
  obtain ⟨text, -, rfl⟩ := h
  simp [trail, lineEnd_isLine]

theorem Whole.withValue {field : Field} (whole : field.Whole) {value : Bytes}
    (feedless : lf ∉ value) : Whole { field with value } :=
  ⟨whole.name, whole.lead, feedless, whole.trail⟩

theorem Whole.isLine {field : Field} (whole : field.Whole) (ended : lf ∈ field.trail) :
    IsLine field.bytes := by
  obtain ⟨pads, hpads, lead⟩ := whole.lead
  obtain ⟨pads', returns, feeds, hpads', hreturns, hfeeds, trail⟩ := whole.trail
  have noReturn : lf ∉ returns := by
    rcases hreturns with rfl | rfl <;> decide
  rcases hfeeds with rfl | rfl
  · simp [trail, lf_notMem_pads hpads', noReturn] at ended
  · refine ⟨field.name ++ colon :: pads ++ field.value ++ pads' ++ returns, ?_, ?_⟩
    · simp only [List.mem_append, List.mem_cons, not_or]
      exact ⟨⟨⟨⟨whole.name.2, by decide, lf_notMem_pads hpads⟩, whole.value⟩,
        lf_notMem_pads hpads'⟩, noReturn⟩
    · simp [bytes, lead, trail]

theorem Whole.ofLine?_bytes {field : Field} (whole : field.Whole) :
    ∃ read, ofLine? field.bytes = some read ∧ read.name = field.name ∧
      (field.value.getLast? ≠ some cr → read.value = trimBy isPad field.value) := by
  obtain ⟨pads, hpads, lead⟩ := whole.lead
  obtain ⟨pads', returns, feeds, hpads', hreturns, hfeeds, trail⟩ := whole.trail
  let rest := pads ++ field.value ++ pads'
  have text : field.bytes = (field.name ++ colon :: rest) ++ returns ++ feeds := by
    simp [bytes, lead, trail, rest]
  have feedless : lf ∉ field.name ++ colon :: rest := by
    simp only [rest, List.mem_append, List.mem_cons, not_or]
    exact ⟨whole.name.2, by decide, ⟨lf_notMem_pads hpads, whole.value⟩, lf_notMem_pads hpads'⟩
  have said : content field.bytes = field.name ++ colon :: rest ∨
      (field.value.getLast? = some cr ∧
        content field.bytes = field.name ++ colon :: rest.dropLast) := by
    rw [text, content_append feedless hreturns hfeeds]
    rcases hreturns with rfl | rfl
    · rw [List.append_nil]
      by_cases last : rest.getLast? = some cr
      · refine .inr ⟨getLast?_of_append_pads hpads hpads' last, ?_⟩
        obtain ⟨init, eq⟩ := List.getLast?_eq_some_iff.1 last
        rw [eq, List.dropLast_concat, ← List.cons_append, ← List.append_assoc,
          splitLast_append_singleton]
      · have other : (field.name ++ colon :: rest).getLast? ≠ some cr :=
          fun same => last (getLast?_of_append_colon same)
        exact .inl (by rw [splitLast_of_last_ne other])
    · exact .inl (by rw [splitLast_append_singleton])
  rcases said with all | ⟨last, short⟩
  · obtain ⟨read, hread, name, value⟩ := ofLine?_of_content whole.name.1 all
    refine ⟨read, hread, name, fun _ => ?_⟩
    rw [value, trimBy_append_right hpads', trimBy_append_left hpads]
  · obtain ⟨read, hread, name, -⟩ := ofLine?_of_content whole.name.1 short
    exact ⟨read, hread, name, fun other => absurd last other⟩

theorem Whole.ofLine?_bytes_of_trimmed {field : Field} (whole : field.Whole)
    (filled : field.value ≠ []) (trimmed : trimBy isPad field.value = field.value)
    (last : field.value.getLast? ≠ some cr) : ofLine? field.bytes = some field := by
  obtain ⟨pads, hpads, lead⟩ := whole.lead
  obtain ⟨pads', returns, feeds, hpads', hreturns, hfeeds, trail⟩ := whole.trail
  let rest := pads ++ field.value ++ pads'
  have text : field.bytes = (field.name ++ colon :: rest) ++ returns ++ feeds := by
    simp [bytes, lead, trail, rest]
  have feedless : lf ∉ field.name ++ colon :: rest := by
    simp only [rest, List.mem_append, List.mem_cons, not_or]
    exact ⟨whole.name.2, by decide, ⟨lf_notMem_pads hpads, whole.value⟩, lf_notMem_pads hpads'⟩
  have said : content field.bytes = field.name ++ colon :: rest := by
    rw [text, content_append feedless hreturns hfeeds]
    rcases hreturns with rfl | rfl
    · have other : (field.name ++ colon :: rest).getLast? ≠ some cr := fun same =>
        last (getLast?_of_append_pads hpads hpads' (getLast?_of_append_colon same))
      rw [List.append_nil, splitLast_of_last_ne other]
    · rw [splitLast_append_singleton]
  have ended : lineEnd field.bytes = returns ++ feeds := by
    have parts := (content_append_lineEnd field.bytes).trans (text.trans (List.append_assoc ..))
    rw [said] at parts
    exact List.append_cancel_left parts
  have front : ∀ b, (field.value ++ pads').head? = some b → isPad b = false := by
    intro b first
    rw [List.head?_append_of_ne_nil _ filled, ← trimmed] at first
    exact head?_trimBy first
  have back : ∀ b, field.value.reverse.head? = some b → isPad b = false := by
    intro b first
    rw [List.head?_reverse, ← trimmed] at first
    exact getLast?_trimBy first
  have leading := span_pads hpads front
  have trailing := span_pads (fun b member => hpads' b (List.mem_reverse.1 member)) back
  rw [ofLine?, said, cutAt?_append whole.name.1, Option.map_some, ended]
  simp only [rest, List.append_assoc, leading, List.reverse_append, trailing, List.reverse_reverse]
  rw [← List.append_assoc, ← trail, ← lead]

end Field

end CredentialRelay.Http

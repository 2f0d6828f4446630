import Mathlib
import CredentialRelay.Proofs.Http.Cookies

namespace CredentialRelay.Http.CookieMap

variable {text segment name value : String}

/-- The name, with blanks around it or not, stands before the first equals sign and the value after
it. -/
def Sets (segment name value : String) : Prop :=
  ∃ padded, '=' ∉ padded.toList ∧ segment = padded ++ "=" ++ value ∧ Text.Pads padded name

theorem field?_eq_some_iff : field? segment = some (name, value) ↔ Sets segment name value := by
  rw [field?, Option.map_eq_some_iff]
  constructor
  · rintro ⟨⟨padded, value⟩, cut, same⟩
    cases same
    obtain ⟨clean, rfl⟩ := Text.cut?_eq_some_iff.1 cut
    exact ⟨padded, clean, rfl, Text.trim_eq_iff.1 rfl⟩
  · rintro ⟨padded, clean, rfl, pads⟩
    exact ⟨(padded, value), Text.cut?_append clean, congrArg (·, value) (Text.trim_eq_iff.2 pads)⟩

theorem ne_of_not_sets {other : String} {field : String × String} (read : field? other = some field)
    (unset : ∀ value, ¬Sets other name value) : field.1 ≠ name := by
  rintro rfl
  exact unset field.2 (field?_eq_some_iff.1 read)

theorem lookup_reverse_eq_some_iff {pairs : List (String × String)} :
    pairs.reverse.lookup name = some value ↔
      ∃ before after, pairs = before ++ (name, value) :: after ∧ ∀ pair ∈ after, pair.1 ≠ name := by
  rw [List.lookup_eq_some_iff]
  constructor
  · rintro ⟨after, before, whole, others⟩
    refine ⟨before.reverse, after.reverse, ?_, fun pair member same => ?_⟩
    · rw [← List.reverse_reverse pairs, whole]
      simp
    · exact absurd same.symm (bne_iff_ne.1 (others pair (List.mem_reverse.1 member)))
  · rintro ⟨before, after, rfl, others⟩
    refine ⟨after.reverse, before.reverse, by simp, fun pair member => ?_⟩
    exact bne_iff_ne.2 (others pair (List.mem_reverse.1 member)).symm

theorem get?_parse_eq_some_iff : (parse text).get? name = some value ↔
    ∃ before segment after, Text.split ';' text = before ++ segment :: after ∧
      Sets segment name value ∧ ∀ other ∈ after, ∀ value, ¬Sets other name value := by
  rw [get?_parse, lookup_reverse_eq_some_iff, fieldsOf]
  constructor
  · rintro ⟨before, after, fields, others⟩
    obtain ⟨front, rest, whole, -, below⟩ := List.filterMap_eq_append_iff.1 fields
    obtain ⟨signless, segment, back, rfl, -, read, later⟩ := List.filterMap_eq_cons_iff.1 below
    refine ⟨front ++ signless, segment, back, ?_, field?_eq_some_iff.1 read, ?_⟩
    · rw [whole, List.append_assoc]
    · intro other member value sets
      have field : (name, value) ∈ after :=
        later ▸ List.mem_filterMap.2 ⟨other, member, field?_eq_some_iff.2 sets⟩
      exact others _ field rfl
  · rintro ⟨before, segment, after, whole, sets, others⟩
    refine ⟨before.filterMap field?, after.filterMap field?, ?_, fun field member => ?_⟩
    · rw [whole, List.filterMap_append, List.filterMap_cons, field?_eq_some_iff.2 sets]
    · obtain ⟨other, inside, read⟩ := List.mem_filterMap.1 member
      exact ne_of_not_sets read (others other inside)

theorem get?_parse_eq_none_iff : (parse text).get? name = none ↔
    ∀ segment ∈ Text.split ';' text, ∀ value, ¬Sets segment name value := by
  rw [get?_parse, List.lookup_eq_none_iff, fieldsOf]
  constructor
  · intro others segment member value sets
    have field : (name, value) ∈ (Text.split ';' text).filterMap field? :=
      List.mem_filterMap.2 ⟨segment, member, field?_eq_some_iff.2 sets⟩
    exact bne_iff_ne.1 (others _ (List.mem_reverse.2 field)) rfl
  · intro unset field member
    obtain ⟨segment, inside, read⟩ := List.mem_filterMap.1 (List.mem_reverse.1 member)
    exact bne_iff_ne.2 (ne_of_not_sets read (unset segment inside)).symm

theorem encard_names (text : String) :
    {name | ∃ segment ∈ Text.split ';' text, ∃ value, Sets segment name value}.encard =
      (parse text).size := by
  have same : {name | ∃ segment ∈ Text.split ';' text, ∃ value, Sets segment name value} =
      (parse text).fields.keys.toFinset := by
    ext name
    rw [List.coe_toFinset, Set.mem_ofPred_eq, Set.mem_ofPred_eq, Table.mem_keys_iff,
      Option.isSome_iff_ne_none, ← get?, Ne, get?_parse_eq_none_iff]
    push Not
    rfl
  have distinct : (parse text).fields.keys.Nodup := (parse text).fields.distinct
  rw [same, Set.encard_coe_eq_coe_finsetCard, List.toFinset_card_of_nodup distinct, Table.keys,
    List.length_map, size, Table.size]

/-- A cookie has the value of the last segment that sets it and is missing if no segment does. There
are as many cookies as names that segments set, and the map that is filled anew leaves no trace. -/
theorem last_segment_counts (prior : CookieMap) (text : String) :
    let cookies := prior.refill text
    let segments := Text.split ';' text
    (∀ name value, cookies.get? name = some value ↔
      ∃ before segment after, segments = before ++ segment :: after ∧ Sets segment name value ∧
        ∀ other ∈ after, ∀ value, ¬Sets other name value) ∧
    (∀ name, cookies.get? name = none ↔
      ∀ segment ∈ segments, ∀ value, ¬Sets segment name value) ∧
    {name | ∃ segment ∈ segments, ∃ value, Sets segment name value}.encard = cookies.size ∧
    ∀ other : CookieMap, other.refill text = cookies := by
  intro cookies segments
  have read : cookies = parse text := refill_eq prior text
  rw [read]
  exact ⟨fun name value => get?_parse_eq_some_iff, fun name => get?_parse_eq_none_iff,
    encard_names text, fun other => refill_eq other text⟩

example : let cookies := (empty.insert "old" "1").refill "a=1;\u2003a\t=x=y ;=;a;b"
    cookies.get? "a" = some "x=y " ∧ cookies.get? "" = some "" ∧ cookies.get? "old" = none ∧
      cookies.size = 2 := by
  decide +kernel

end CredentialRelay.Http.CookieMap

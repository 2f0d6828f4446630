import Mathlib
import CredentialRelay.Proofs.Bytes.Cut
import CredentialRelay.Text.Blank

namespace CredentialRelay.Text

variable {sep : Char} {s t : String}

theorem split_append (clean : sep ∉ s.toList) :
    split sep (s ++ String.singleton sep ++ t) = s :: split sep t := by
  have whole : (s ++ String.singleton sep ++ t).toList = s.toList ++ sep :: t.toList := by simp
  rw [split, whole, List.splitOn_append_cons_self_of_not_mem clean, List.map_cons,
    String.ofList_toList, split]

theorem split_eq_singleton (clean : sep ∉ s.toList) : split sep s = [s] := by
  rw [split, List.splitOn_eq_singleton clean, List.map_singleton, String.ofList_toList]

theorem length_split (sep : Char) (s : String) :
    (split sep s).length = s.toList.count sep + 1 := by
  have pieces (cs : List Char) : (cs.splitOn sep).length = cs.count sep + 1 := by
    induction cs with
    | nil => simp
    | cons c cs ih =>
        rw [List.splitOn_cons_eq_if_modifyHead]
        by_cases same : c = sep
        · simp [same, ih]
        · simp [same, ih, List.count_cons_of_ne]
  rw [split, List.length_map, pieces]

theorem cut?_append (clean : sep ∉ s.toList) :
    cut? sep (s ++ String.singleton sep ++ t) = some (s, t) := by
  have whole : (s ++ String.singleton sep ++ t).toList = s.toList ++ sep :: t.toList := by simp
  rw [cut?, whole, cutAt?_append clean]
  simp

theorem cut?_eq_some_iff {before after : String} :
    cut? sep s = some (before, after) ↔
      sep ∉ before.toList ∧ s = before ++ String.singleton sep ++ after := by
  constructor
  · intro cut
    obtain ⟨⟨front, back⟩, parts, same⟩ := Option.map_eq_some_iff.1 cut
    cases same
    obtain ⟨clean, whole⟩ := cutAt?_eq_some.1 parts
    rw [String.toList_ofList]
    exact ⟨clean, by simp [← String.toList_inj, whole]⟩
  · rintro ⟨clean, rfl⟩
    exact cut?_append clean

structure Pads (padded bare : String) : Prop where
  around : ∃ before after : String, padded = before ++ bare ++ after ∧
    (∀ c ∈ before.toList, isBlank c = true) ∧ ∀ c ∈ after.toList, isBlank c = true
  front : ∀ c, bare.toList.head? = some c → isBlank c = false
  back : ∀ c, bare.toList.getLast? = some c → isBlank c = false

theorem trim_append_blanks {before after : String} (front : ∀ c ∈ before.toList, isBlank c = true)
    (back : ∀ c ∈ after.toList, isBlank c = true) (s : String) :
    trim (before ++ s ++ after) = trim s := by
  rw [trim, String.toList_append, String.toList_append, trimBy_append_right back,
    trimBy_append_left front, trim]

theorem trim_eq_iff {padded bare : String} : trim padded = bare ↔ Pads padded bare := by
  constructor
  · rintro rfl
    obtain ⟨before, after, whole, front, back⟩ := exists_trimBy isBlank padded.toList
    refine ⟨⟨String.ofList before, String.ofList after, ?_, ?_, ?_⟩, ?_, ?_⟩
    · rw [← String.toList_inj, trim]
      simpa using whole
    · simpa using front
    · simpa using back
    · rw [trim, String.toList_ofList]
      exact fun c => head?_trimBy
    · rw [trim, String.toList_ofList]
      exact fun c => getLast?_trimBy
  · rintro ⟨⟨before, after, rfl, front, back⟩, first, last⟩
    rw [trim_append_blanks front back, trim, trimBy_eq_self first last, String.ofList_toList]

theorem trim_between (plain : isBlank sep = false) (s middle t : String) :
    ∃ s' t' : String, s'.toList ⊆ s.toList ∧ t'.toList ⊆ t.toList ∧
      trim (s ++ String.singleton sep ++ (middle ++ String.singleton sep ++ t)) =
        s' ++ String.singleton sep ++ (middle ++ String.singleton sep ++ t') := by
  refine ⟨String.ofList (s.toList.dropWhile isBlank),
    String.ofList (t.toList.reverse.dropWhile isBlank).reverse, ?_, ?_, ?_⟩
  · rw [String.toList_ofList]
    exact (List.dropWhile_sublist _).subset
  · intro c member
    rw [String.toList_ofList, List.mem_reverse] at member
    exact List.mem_reverse.1 ((List.dropWhile_sublist _).subset member)
  · have whole : (s ++ String.singleton sep ++ (middle ++ String.singleton sep ++ t)).toList =
        s.toList ++ sep :: (middle.toList ++ sep :: t.toList) := by simp
    rw [← String.toList_inj, trim, whole, String.toList_ofList, trimBy,
      dropWhile_append_cons plain]
    simp [dropWhile_append_cons plain]

end CredentialRelay.Text

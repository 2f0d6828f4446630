import Mathlib
import CredentialRelay.Bytes

namespace CredentialRelay

variable {α : Type}

section Cut
variable [BEq α] [LawfulBEq α]

theorem cutAt?_append {sep : α} {xs : List α} (clean : sep ∉ xs) (ys : List α) :
    cutAt? sep (xs ++ sep :: ys) = some (xs, ys) := by
  have before : ∀ x ∈ xs, (x != sep) = true := by
    intro x member
    simpa using fun same : x = sep => clean (same ▸ member)
  simp [cutAt?, List.dropWhile_append_of_pos before, List.takeWhile_append_of_pos before]

theorem cutAt?_eq_some {sep : α} {xs before after : List α} :
    cutAt? sep xs = some (before, after) ↔ sep ∉ before ∧ xs = before ++ sep :: after := by
  constructor
  · intro h
    unfold cutAt? at h
    split at h
    · cases h
    · next x rest dropped =>
      cases h
      have found : x = sep := by
        have := List.head?_dropWhile_not (· != sep) xs
        rw [dropped] at this
        simpa using this
      refine ⟨fun member => ?_, ?_⟩
      · simpa using List.mem_takeWhile_imp member
      · rw [← found, ← dropped]
        subst found
        exact List.takeWhile_append_dropWhile.symm
  · rintro ⟨clean, rfl⟩
    exact cutAt?_append clean after

theorem mem_splitOn {sep : α} {xs piece : List α}
    (h : piece ∈ xs.splitOn sep) : sep ∉ piece ∧ piece ⊆ xs := by
  induction xs generalizing piece with
  | nil => simp at h; simp [h]
  | cons x xs ih =>
      rw [List.splitOn_cons_eq_if_modifyHead] at h
      split at h
      · rcases List.mem_cons.1 h with rfl | h
        · simp
        · exact ⟨(ih h).1, fun _ member => List.mem_cons_of_mem x ((ih h).2 member)⟩
      · next other =>
        obtain ⟨first, rest, cut⟩ := List.exists_cons_of_ne_nil (List.splitOn_ne_nil sep xs)
        rw [cut] at h ih
        rcases List.mem_cons.1 h with rfl | h
        · have front := ih List.mem_cons_self
          refine ⟨?_, List.cons_subset_cons x front.2⟩
          rw [List.mem_cons, not_or]
          exact ⟨fun same => other (by simp [same]), front.1⟩
        · have back := ih (List.mem_cons_of_mem first h)
          exact ⟨back.1, fun _ member => List.mem_cons_of_mem x (back.2 member)⟩

end Cut

theorem intercalate_concat (sep : α) (pieces : List (List α)) (last : List α) :
    [sep].intercalate (pieces ++ [last]) = (pieces.map (· ++ [sep])).flatten ++ last := by
  induction pieces with
  | nil => simp
  | cons piece pieces ih =>
      obtain ⟨next, rest, more⟩ := List.exists_cons_of_ne_nil
        (List.append_ne_nil_of_right_ne_nil pieces (List.cons_ne_nil last []))
      rw [List.cons_append, more, List.intercalate_cons_cons, ← more, ih]
      simp

theorem mem_intercalate {sep x : α} {pieces : List (List α)} (h : x ∈ [sep].intercalate pieces) :
    x = sep ∨ ∃ piece ∈ pieces, x ∈ piece := by
  induction pieces with
  | nil => simp at h
  | cons piece pieces ih =>
      cases pieces with
      | nil => exact .inr ⟨piece, List.mem_cons_self, by simpa using h⟩
      | cons next pieces =>
          rw [List.intercalate_cons_cons, List.append_assoc, List.mem_append, List.mem_append,
            List.mem_singleton] at h
          rcases h with here | same | later
          · exact .inr ⟨piece, List.mem_cons_self, here⟩
          · exact .inl same
          · exact (ih later).imp id fun ⟨piece', member, inside⟩ =>
              ⟨piece', List.mem_cons_of_mem piece member, inside⟩

section Trim
variable {p : α → Bool}

theorem trimBy_subset (p : α → Bool) (xs : List α) : trimBy p xs ⊆ xs := by
  intro x member
  rw [trimBy, List.mem_reverse] at member
  have := (List.dropWhile_sublist p).subset member
  rw [List.mem_reverse] at this
  exact (List.dropWhile_sublist p).subset this

theorem dropWhile_append_cons {x : α} (stop : p x = false) (xs ys : List α) :
    (xs ++ x :: ys).dropWhile p = xs.dropWhile p ++ x :: ys := by
  rw [List.dropWhile_append]
  split
  · next empty =>
    rw [List.isEmpty_iff.1 empty, List.dropWhile_cons_of_neg (by simp [stop]), List.nil_append]
  · rfl

theorem span_pads {pads xs : List α} (h : ∀ x ∈ pads, p x)
    (front : ∀ x, xs.head? = some x → p x = false) :
    (pads ++ xs).takeWhile p = pads ∧ (pads ++ xs).dropWhile p = xs := by
  rw [List.takeWhile_append_of_pos h, List.dropWhile_append_of_pos h]
  cases xs with
  | nil => simp
  | cons x xs => simp [front x rfl]

theorem trimBy_append_left {pads : List α} (h : ∀ x ∈ pads, p x) (xs : List α) :
    trimBy p (pads ++ xs) = trimBy p xs := by
  rw [trimBy, List.dropWhile_append_of_pos h, trimBy]

theorem trimBy_append_right {pads : List α} (h : ∀ x ∈ pads, p x) (xs : List α) :
    trimBy p (xs ++ pads) = trimBy p xs := by
  have back : ∀ x ∈ pads.reverse, p x := fun x member => h x (List.mem_reverse.1 member)
  rw [trimBy, trimBy, List.dropWhile_append]
  split
  · next empty =>
    rw [List.isEmpty_iff] at empty
    rw [empty, List.dropWhile_eq_nil_iff.2 h]
  · rw [List.reverse_append, List.dropWhile_append_of_pos back]

theorem exists_trimBy (p : α → Bool) (xs : List α) : ∃ before after,
    xs = before ++ trimBy p xs ++ after ∧ (∀ x ∈ before, p x) ∧ ∀ x ∈ after, p x := by
  have front := List.takeWhile_append_dropWhile (p := p) (l := xs)
  have back := congrArg List.reverse
    (List.takeWhile_append_dropWhile (p := p) (l := (xs.dropWhile p).reverse))
  rw [List.reverse_append, List.reverse_reverse] at back
  refine ⟨xs.takeWhile p, ((xs.dropWhile p).reverse.takeWhile p).reverse, ?_,
    fun x member => List.mem_takeWhile_imp member,
    fun x member => List.mem_takeWhile_imp (List.mem_reverse.1 member)⟩
  rw [trimBy, List.append_assoc, back, front]

theorem trimBy_eq_self {xs : List α} (front : ∀ x, xs.head? = some x → p x = false)
    (back : ∀ x, xs.getLast? = some x → p x = false) : trimBy p xs = xs := by
  have keep {ys : List α} (h : ∀ y, ys.head? = some y → p y = false) : ys.dropWhile p = ys :=
    (span_pads (List.forall_mem_nil _) h).2
  rw [trimBy, keep front, keep, List.reverse_reverse]
  simpa using back

theorem head?_trimBy {xs : List α} {x : α} (h : (trimBy p xs).head? = some x) : p x = false := by
  obtain ⟨rest, whole⟩ : trimBy p xs <+: xs.dropWhile p := List.rdropWhile_prefix p _
  have first := List.head?_dropWhile_not p xs
  rw [← whole, List.head?_append, h] at first
  exact first

theorem getLast?_trimBy {xs : List α} {x : α} (h : (trimBy p xs).getLast? = some x) :
    p x = false := by
  rw [trimBy, List.getLast?_reverse] at h
  have := List.head?_dropWhile_not p (xs.dropWhile p).reverse
  rw [h] at this
  exact this

theorem trimBy_trimBy (xs : List α) : trimBy p (trimBy p xs) = trimBy p xs :=
  trimBy_eq_self (fun _ => head?_trimBy) (fun _ => getLast?_trimBy)

end Trim

end CredentialRelay

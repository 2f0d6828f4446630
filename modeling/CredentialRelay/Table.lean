namespace CredentialRelay

structure Table (κ : Type) (α : Type) where
  pairs : List (κ × α)
  distinct : (pairs.map Prod.fst).Nodup

namespace Table

variable {κ α : Type} [DecidableEq κ]

def empty : Table κ α := ⟨[], List.nodup_nil⟩

instance : EmptyCollection (Table κ α) := ⟨empty⟩
instance : Inhabited (Table κ α) := ⟨empty⟩

def size (t : Table κ α) : Nat := t.pairs.length

def keys (t : Table κ α) : List κ := t.pairs.map Prod.fst

def get? (t : Table κ α) (key : κ) : Option α := t.pairs.lookup key

def filter (t : Table κ α) (keep : κ → α → Bool) : Table κ α :=
  ⟨t.pairs.filter fun pair => keep pair.1 pair.2,
    t.distinct.sublist (List.filter_sublist.map Prod.fst)⟩

def erase (t : Table κ α) (key : κ) : Table κ α := t.filter fun k _ => k ≠ key

def clear (t : Table κ α) : Table κ α := t.filter fun _ _ => false

def put (key : κ) (value : α) : List (κ × α) → List (κ × α)
  | [] => [(key, value)]
  | pair :: rest => if pair.1 = key then (key, value) :: rest else pair :: put key value rest

theorem mem_keys_put {key k : κ} {value : α} {pairs : List (κ × α)} :
    k ∈ (put key value pairs).map Prod.fst ↔ k = key ∨ k ∈ pairs.map Prod.fst := by
  induction pairs with
  | nil => simp [put]
  | cons pair rest ih =>
    by_cases h : pair.1 = key
    · simp only [put, if_pos h, List.map_cons, List.mem_cons]
      grind
    · simp only [put, if_neg h, List.map_cons, List.mem_cons, ih]
      grind

theorem nodup_put {key : κ} {value : α} {pairs : List (κ × α)}
    (h : (pairs.map Prod.fst).Nodup) : ((put key value pairs).map Prod.fst).Nodup := by
  induction pairs with
  | nil => simp [put]
  | cons pair rest ih =>
    simp only [List.map_cons, List.nodup_cons] at h
    by_cases hk : pair.1 = key
    · simp only [put, if_pos hk, List.map_cons, List.nodup_cons]
      exact hk ▸ h
    · simp only [put, if_neg hk, List.map_cons, List.nodup_cons, mem_keys_put]
      exact ⟨fun m => m.elim hk h.1, ih h.2⟩

def insert (t : Table κ α) (key : κ) (value : α) : Table κ α :=
  ⟨put key value t.pairs, nodup_put t.distinct⟩

theorem lookup_put {key k : κ} {value : α} {pairs : List (κ × α)} :
    (put key value pairs).lookup k = if k = key then some value else pairs.lookup k := by
  induction pairs with
  | nil => simp [put, List.lookup_cons]; grind
  | cons pair rest ih =>
    obtain ⟨k', v⟩ := pair
    by_cases h : k' = key <;> simp only [put, h, if_true, if_false, List.lookup_cons, ih] <;> grind

theorem get?_insert (t : Table κ α) (key k : κ) (value : α) :
    (t.insert key value).get? k = if k = key then some value else t.get? k :=
  lookup_put

@[simp] theorem get?_empty (k : κ) : (empty : Table κ α).get? k = none := rfl

omit [DecidableEq κ] in
@[simp] theorem clear_eq (t : Table κ α) : t.clear = ∅ := by
  have none : t.pairs.filter (fun _ => false) = [] := List.filter_eq_nil_iff.2 (by simp)
  simp only [clear, filter, none]
  rfl

theorem mem_keys_iff {table : Table κ α} {key : κ} :
    key ∈ table.keys ↔ (table.get? key).isSome := by
  rw [← Decidable.not_iff_not, Option.not_isSome_iff_eq_none, get?, List.lookup_eq_none_iff, keys]
  constructor
  · intro absent pair member
    exact bne_iff_ne.2 fun same => absent (same ▸ List.mem_map_of_mem member)
  · intro others member
    obtain ⟨pair, inside, rfl⟩ := List.mem_map.1 member
    exact bne_iff_ne.1 (others pair inside) rfl

theorem lookup_filter {keep : κ → α → Bool} {k : κ} {pairs : List (κ × α)}
    (distinct : (pairs.map Prod.fst).Nodup) :
    (pairs.filter fun pair => keep pair.1 pair.2).lookup k = (pairs.lookup k).filter (keep k) := by
  induction pairs with
  | nil => rfl
  | cons pair rest ih =>
    obtain ⟨name, value⟩ := pair
    simp only [List.map_cons, List.nodup_cons] at distinct
    have later := ih distinct.2
    by_cases same : k = name
    · subst same
      have absent : rest.lookup k = none := by
        rw [List.lookup_eq_none_iff]
        intro pair member
        exact bne_iff_ne.2 fun same => distinct.1 (same ▸ List.mem_map_of_mem member)
      by_cases kept : keep k value <;> simp [kept, later, absent, Option.filter]
    · have other : (k == name) = false := beq_false_of_ne same
      by_cases kept : keep name value <;>
        simp [List.lookup_cons, kept, later, other]

theorem get?_filter (t : Table κ α) (keep : κ → α → Bool) (k : κ) :
    (t.filter keep).get? k = (t.get? k).filter (keep k) :=
  lookup_filter t.distinct

theorem get?_erase (t : Table κ α) (key k : κ) :
    (t.erase key).get? k = if k = key then none else t.get? k := by
  rw [erase, get?_filter]
  by_cases same : k = key
  · cases t.get? k <;> simp [same, Option.filter]
  · cases t.get? k <;> simp [same, Option.filter]

end Table

end CredentialRelay

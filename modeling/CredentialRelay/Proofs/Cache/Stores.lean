import Mathlib
import CredentialRelay.Cache.FaultyStore

namespace CredentialRelay.Cache

structure Dependable {σ : Type} [FieldStore σ] (view : σ → String → String → Option String) :
    Prop where
  getField : ∀ key field (store : σ), view (FieldStore.getField key field store).2 = view store
  found : ∀ key field (store : σ) value, (FieldStore.getField key field store).1 = .ok value →
    value = view store key field
  setField : ∀ key field value (store : σ) other, other ≠ key →
    view (FieldStore.setField key field value store).2 other field = view store other field
  stored : ∀ key field value (store : σ), (FieldStore.setField key field value store).1 = .ok () →
    view (FieldStore.setField key field value store).2 key field = some value
  deleteField : ∀ key field (store : σ) other, other ≠ key →
    view (FieldStore.deleteField key field store).2 other field = view store other field
  deleted : ∀ key field (store : σ), (FieldStore.deleteField key field store).1 = .ok () →
    view (FieldStore.deleteField key field store).2 key field = none

def InReach (σ : Type) [FieldStore σ] : Prop :=
  ∀ key field (store : σ) error, (FieldStore.deleteField key field store).1 = .error error →
    error.isFatal = false

namespace MemoryStore

theorem find?_put (key field value other field' : String) (store : MemoryStore) :
    (store.put key field value).find? other field' =
      if other = key ∧ field' = field then some value else store.find? other field' := by
  rw [find?, put, Table.get?_insert]
  by_cases same : other = key
  · subst same
    rw [if_pos rfl, Option.bind_some, Table.get?_insert]
    by_cases same' : field' = field
    · simp [same']
    · rw [if_neg same', if_neg (fun h => same' h.2), find?]
      cases store.records.get? other <;> rfl
  · rw [if_neg same, if_neg (fun h => same h.1), find?]

theorem get?_of_size_eq_zero {table : Table String String} (empty : table.size = 0)
    (key : String) : table.get? key = none := by
  have none : table.pairs = [] := List.length_eq_zero_iff.1 empty
  rw [Table.get?, none, List.lookup_nil]

theorem find?_delete (key field other field' : String) (store : MemoryStore) :
    (store.delete key field).find? other field' =
      if other = key ∧ field' = field then none else store.find? other field' := by
  unfold delete
  split
  · next absent =>
    by_cases same : other = key
    · subst same
      simp [find?, absent]
    · rw [if_neg (fun h => same h.1)]
  · next record found =>
    have old : store.find? key field' = record.get? field' := by simp [find?, found]
    dsimp only
    by_cases empty : (record.erase field).size = 0
    · rw [if_pos empty, find?, Table.get?_erase]
      by_cases same : other = key
      · subst same
        have gone := get?_of_size_eq_zero empty field'
        rw [Table.get?_erase] at gone
        rw [if_pos rfl, Option.bind_none, old]
        split
        · rfl
        · next kept => rw [if_neg (fun h => kept ⟨rfl, h⟩)] at gone; exact gone.symm
      · rw [if_neg same, if_neg (fun h => same h.1), find?]
    · rw [if_neg empty, find?, Table.get?_insert]
      by_cases same : other = key
      · subst same
        rw [if_pos rfl, Option.bind_some, Table.get?_erase, old]
        simp
      · rw [if_neg same, if_neg (fun h => same h.1), find?]

end MemoryStore

structure RefusingStore where
  inner : MemoryStore
  refusals : List Bool

namespace RefusingStore

def ofRefusals (refusals : List Bool) : RefusingStore := ⟨.empty, refusals⟩

def view (store : RefusingStore) (key field : String) : Option String := store.inner.find? key field

def answer {α : Type} (run : MemoryStore → α × MemoryStore) (store : RefusingStore) :
    Except RelayError α × RefusingStore :=
  if store.refusals.head? = some true then
    (.error FaultyStore.refusal, ⟨store.inner, store.refusals.tail⟩)
  else (.ok (run store.inner).1, ⟨(run store.inner).2, store.refusals.tail⟩)

instance : FieldStore RefusingStore where
  getField key field := answer fun inner => (inner.find? key field, inner)
  setField key field value := answer fun inner => ((), inner.put key field value)
  deleteField key field := answer fun inner => ((), inner.delete key field)

theorem dependable : Dependable view := by
  refine ⟨?_, ?_, ?_, ?_, ?_, ?_⟩
  · intro key field store
    simp only [FieldStore.getField, answer]
    split <;> rfl
  · intro key field store value h
    simp only [FieldStore.getField, answer] at h
    split at h
    · cases h
    · cases h
      rfl
  · intro key field value store other ne
    simp only [FieldStore.setField, answer]
    split
    · rfl
    · simp [view, MemoryStore.find?_put, ne]
  · intro key field value store h
    simp only [FieldStore.setField, answer] at h ⊢
    split at h
    · cases h
    · next accepted => simp [accepted, view, MemoryStore.find?_put]
  · intro key field store other ne
    simp only [FieldStore.deleteField, answer]
    split
    · rfl
    · simp [view, MemoryStore.find?_delete, ne]
  · intro key field store h
    simp only [FieldStore.deleteField, answer] at h ⊢
    split at h
    · cases h
    · next accepted => simp [accepted, view, MemoryStore.find?_delete]

theorem inReach : InReach RefusingStore := by
  intro key field store error h
  simp only [FieldStore.deleteField, answer] at h
  split at h
  · cases h
    rfl
  · cases h

end RefusingStore

end CredentialRelay.Cache

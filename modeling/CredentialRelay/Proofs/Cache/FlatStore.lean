import Mathlib
import CredentialRelay.Proofs.Cache.Agreement
import CredentialRelay.Proofs.Cache.Removal

namespace CredentialRelay.Cache

class SwitchedStore (σ : Type) extends FieldStore σ where
  setOffline : Bool → σ → σ

inductive StoreTurn where
  | call (field : String) (request : Request)
  | setOffline (offline : Bool)
deriving DecidableEq, Repr

section Runs

variable {σ : Type} [SwitchedStore σ]

def StoreTurn.obey (store : σ) : StoreTurn → List Reply × σ
  | call field request =>
    let (reply, store) := request.ask field store
    ([reply], store)
  | setOffline offline => ([], SwitchedStore.setOffline offline store)

def obeyAll (store : σ) : List StoreTurn → List Reply × σ
  | [] => ([], store)
  | turn :: turns =>
    let (replies, store) := turn.obey store
    let (later, store) := obeyAll store turns
    (replies ++ later, store)

end Runs

instance : SwitchedStore MemoryStore where
  setOffline offline store := { store with offline }

structure FlatStore where
  value : String × String → Option String
  offline : Bool

namespace FlatStore

def empty : FlatStore := ⟨fun _ => none, false⟩

def edit (key field : String) (value : Option String) (flat : FlatStore) : FlatStore :=
  { flat with value := Function.update flat.value (key, field) value }

def online {α : Type} (flat : FlatStore) (answer : α) (next : FlatStore) :
    Except RelayError α × FlatStore :=
  if flat.offline then (.error (.storeUnavailable "memory store is offline"), flat)
  else (.ok answer, next)

instance : SwitchedStore FlatStore where
  getField key field flat := flat.online (flat.value (key, field)) flat
  setField key field value flat := flat.online () (flat.edit key field (some value))
  deleteField key field flat := flat.online () (flat.edit key field none)
  setOffline offline flat := { flat with offline }

def keys (flat : FlatStore) : Set String := {key | ∃ field, flat.value (key, field) ≠ none}

theorem value_edit (key field other field' : String) (value : Option String) (flat : FlatStore) :
    (flat.edit key field value).value (other, field') =
      if other = key ∧ field' = field then value else flat.value (other, field') := by
  simp only [edit, Function.update_apply, Prod.mk.injEq]

end FlatStore

namespace MemoryStore

def Filled (store : MemoryStore) : Prop :=
  ∀ key record, store.records.get? key = some record → record.size ≠ 0

variable {store : MemoryStore}

theorem size_ne_zero_of_get? {record : Table String String} {field value : String}
    (held : record.get? field = some value) : record.size ≠ 0 := by
  intro empty
  rw [get?_of_size_eq_zero empty] at held
  cases held

theorem Filled.put (filled : store.Filled) (key field value : String) :
    (store.put key field value).Filled := by
  intro other record found
  rw [MemoryStore.put, Table.get?_insert] at found
  split at found
  · cases found
    exact size_ne_zero_of_get? (by rw [Table.get?_insert, if_pos rfl])
  · exact filled other record found

theorem Filled.delete (filled : store.Filled) (key field : String) :
    (store.delete key field).Filled := by
  unfold MemoryStore.delete
  split
  · exact filled
  · intro other record found
    dsimp only at found
    split at found
    · rw [Table.get?_erase] at found
      split at found
      · cases found
      · exact filled other record found
    · next rest =>
      rw [Table.get?_insert] at found
      split at found
      · cases found
        exact rest
      · exact filled other record found

theorem exists_find?_iff (filled : store.Filled) {key : String} :
    (∃ field, store.find? key field ≠ none) ↔ key ∈ store.records.keys := by
  simp only [Table.mem_keys_iff, find?]
  cases found : store.records.get? key with
  | none => simp
  | some record =>
      have held := filled key record found
      obtain ⟨pair, member⟩ := List.exists_mem_of_length_pos (Nat.pos_of_ne_zero held)
      have inside : (record.get? pair.1).isSome :=
        Table.mem_keys_iff.1 (List.mem_map_of_mem member)
      simp only [Option.bind_some, Option.isSome_some, iff_true]
      exact ⟨pair.1, Option.isSome_iff_ne_none.1 inside⟩

end MemoryStore

theorem MemoryStore.ask_offline {store : MemoryStore} (down : store.offline = true)
    {field : String} {request : Request} :
    request.ask field store = (.error (.storeUnavailable "memory store is offline"), store) := by
  cases request <;> simp [Request.ask, FieldStore.getField, FieldStore.setField,
    FieldStore.deleteField, down, offlineError, Except.map]

theorem FlatStore.ask_offline {flat : FlatStore} (down : flat.offline = true)
    {field : String} {request : Request} :
    request.ask field flat = (.error (.storeUnavailable "memory store is offline"), flat) := by
  cases request <;> simp [Request.ask, FieldStore.getField, FieldStore.setField,
    FieldStore.deleteField, down, online, Except.map]

theorem MemoryStore.ask_online {store : MemoryStore} (up : store.offline = false) {field : String}
    {request : Request} :
    request.ask field store =
      match request with
      | .get key => (.ok (store.find? key field), store)
      | .set key value => (.ok none, store.put key field value)
      | .remove key => (.ok none, store.delete key field) := by
  cases request <;> simp [Request.ask, MemoryStore.getField_online up, MemoryStore.setField_online up,
    MemoryStore.deleteField_online up, Except.map]

theorem FlatStore.ask_online {flat : FlatStore} (up : flat.offline = false) {field : String}
    {request : Request} :
    request.ask field flat =
      match request with
      | .get key => (.ok (flat.value (key, field)), flat)
      | .set key value => (.ok none, flat.edit key field (some value))
      | .remove key => (.ok none, flat.edit key field none) := by
  cases request <;> simp [Request.ask, FieldStore.getField, FieldStore.setField,
    FieldStore.deleteField, up, online, Except.map]

structure Mirrors (store : MemoryStore) (flat : FlatStore) : Prop where
  value : ∀ key field, store.find? key field = flat.value (key, field)
  offline : store.offline = flat.offline
  filled : store.Filled

namespace Mirrors

variable {store : MemoryStore} {flat : FlatStore}

theorem edit (mirrors : Mirrors store flat) {store' : MemoryStore} {key field : String}
    {value : Option String} (same : store'.offline = store.offline) (filled : store'.Filled)
    (edited : ∀ other field', store'.find? other field' =
      if other = key ∧ field' = field then value else store.find? other field') :
    Mirrors store' (flat.edit key field value) := by
  refine ⟨fun other field' => ?_, same.trans mirrors.offline, filled⟩
  rw [edited, FlatStore.value_edit, mirrors.value]

theorem put (mirrors : Mirrors store flat) (key field value : String) :
    Mirrors (store.put key field value) (flat.edit key field (some value)) :=
  mirrors.edit rfl (mirrors.filled.put key field value)
    fun other field' => MemoryStore.find?_put key field value other field' store

theorem delete (mirrors : Mirrors store flat) (key field : String) :
    Mirrors (store.delete key field) (flat.edit key field none) :=
  mirrors.edit (store.offline_delete key field) (mirrors.filled.delete key field)
    fun other field' => MemoryStore.find?_delete key field other field' store

theorem ask (mirrors : Mirrors store flat) (field : String) (request : Request) :
    (request.ask field store).1 = (request.ask field flat).1 ∧
      Mirrors (request.ask field store).2 (request.ask field flat).2 := by
  cases down : store.offline with
  | true =>
      rw [MemoryStore.ask_offline down, FlatStore.ask_offline (mirrors.offline ▸ down)]
      exact ⟨rfl, mirrors⟩
  | false =>
      rw [MemoryStore.ask_online down, FlatStore.ask_online (mirrors.offline ▸ down)]
      cases request with
      | get key => exact ⟨congrArg Except.ok (mirrors.value key field), mirrors⟩
      | set key value => exact ⟨rfl, mirrors.put key field value⟩
      | remove key => exact ⟨rfl, mirrors.delete key field⟩

theorem obey (mirrors : Mirrors store flat) (turn : StoreTurn) :
    (turn.obey store).1 = (turn.obey flat).1 ∧ Mirrors (turn.obey store).2 (turn.obey flat).2 := by
  cases turn with
  | call field request =>
      obtain ⟨reply, next⟩ := mirrors.ask field request
      exact ⟨congrArg (fun reply => [reply]) reply, next⟩
  | setOffline offline => exact ⟨rfl, mirrors.value, rfl, mirrors.filled⟩

theorem obeyAll (mirrors : Mirrors store flat) (turns : List StoreTurn) :
    (obeyAll store turns).1 = (Cache.obeyAll flat turns).1 ∧
      Mirrors (Cache.obeyAll store turns).2 (Cache.obeyAll flat turns).2 := by
  induction turns generalizing store flat with
  | nil => exact ⟨rfl, mirrors⟩
  | cons turn turns ih =>
      obtain ⟨first, next⟩ := mirrors.obey turn
      obtain ⟨later, last⟩ := ih next
      exact ⟨congrArg₂ (· ++ ·) first later, last⟩

theorem encard_keys (mirrors : Mirrors store flat) : flat.keys.encard = store.keyCount := by
  have same : flat.keys = store.records.keys.toFinset := by
    ext key
    rw [List.coe_toFinset, Set.mem_ofPred_eq, ← MemoryStore.exists_find?_iff mirrors.filled]
    simp only [FlatStore.keys, Set.mem_ofPred_eq, mirrors.value]
  have distinct : store.records.keys.Nodup := store.records.distinct
  rw [same, Set.encard_coe_eq_coe_finsetCard, List.toFinset_card_of_nodup distinct, Table.keys,
    List.length_map, MemoryStore.keyCount, Table.size]

end Mirrors

theorem mirrors_empty : Mirrors .empty .empty := ⟨fun _ _ => rfl, rfl, nofun⟩

/-- Whatever comes to an empty store in memory, its replies are those of a single map from keys and
fields to values, it counts the keys that have a field, and it has no record without one. While it is
offline all calls are refused and nothing changes. -/
theorem memory_replies_flat (turns : List StoreTurn) :
    let memory := obeyAll MemoryStore.empty turns
    let flat := obeyAll FlatStore.empty turns
    memory.1 = flat.1 ∧
      (∀ key field, memory.2.find? key field = flat.2.value (key, field)) ∧
      flat.2.keys.encard = memory.2.keyCount ∧
      (∀ key record, memory.2.records.get? key = some record → record.size ≠ 0) ∧
      ∀ (field : String) (request : Request), memory.2.offline = true →
        request.ask field memory.2 =
          (.error (.storeUnavailable "memory store is offline"), memory.2) := by
  obtain ⟨replies, mirrors⟩ := mirrors_empty.obeyAll turns
  exact ⟨replies, mirrors.value, mirrors.encard_keys, mirrors.filled,
    fun field request down => MemoryStore.ask_offline down⟩

theorem key_outlives_outage :
    let turns : List StoreTurn :=
      [.call "cookie" (.set "447455" "connect.sid=a;"), .call "xaccessToken" (.set "447455" "t"),
        .call "cookie" (.remove "447455"), .setOffline true, .call "xaccessToken" (.remove "447455")]
    let memory := obeyAll MemoryStore.empty turns
    memory.1 = (obeyAll FlatStore.empty turns).1 ∧ memory.2.keyCount = 1 ∧
      memory.2.offline = true ∧
      (Request.get "447455").ask "xaccessToken" memory.2 =
        (.error (.storeUnavailable "memory store is offline"), memory.2) := by
  intro turns memory
  have down : memory.2.offline = true := by decide +kernel
  obtain ⟨replies, -, -, -, refused⟩ := memory_replies_flat turns
  exact ⟨replies, by decide +kernel, down, refused "xaccessToken" (.get "447455") down⟩

end CredentialRelay.Cache

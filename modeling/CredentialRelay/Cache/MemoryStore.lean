import CredentialRelay.Cache.Store
import CredentialRelay.Table

namespace CredentialRelay.Cache

structure MemoryStore where
  records : Table String (Table String String)
  offline : Bool

namespace MemoryStore

def empty : MemoryStore := ⟨∅, false⟩

def offlineError : RelayError := .storeUnavailable "memory store is offline"

def keyCount (store : MemoryStore) : Nat := store.records.size

def find? (key field : String) (store : MemoryStore) : Option String :=
  (store.records.get? key).bind (·.get? field)

def put (key field value : String) (store : MemoryStore) : MemoryStore :=
  let record := (store.records.get? key).getD ∅
  { store with records := store.records.insert key (record.insert field value) }

def delete (key field : String) (store : MemoryStore) : MemoryStore :=
  match store.records.get? key with
  | none => store
  | some record =>
    let record := record.erase field
    if record.size = 0 then { store with records := store.records.erase key }
    else { store with records := store.records.insert key record }

instance : FieldStore MemoryStore where
  getField key field store :=
    if store.offline then (.error offlineError, store) else (.ok (store.find? key field), store)
  setField key field value store :=
    if store.offline then (.error offlineError, store) else (.ok (), store.put key field value)
  deleteField key field store :=
    if store.offline then (.error offlineError, store) else (.ok (), store.delete key field)

end MemoryStore

end CredentialRelay.Cache

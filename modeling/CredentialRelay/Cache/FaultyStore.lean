import CredentialRelay.Cache.MemoryStore

namespace CredentialRelay.Cache

inductive StoreCall where
  | get
  | set
  | delete
deriving DecidableEq, Repr

structure FaultyStore where
  inner : MemoryStore
  refused : List StoreCall
  refusedField : Option String
  deleteDelay : Nat

namespace FaultyStore

def empty : FaultyStore := ⟨.empty, [], none, 0⟩

def refusal : RelayError := .storeRefused "WRONGTYPE"

def refuses (store : FaultyStore) (call : StoreCall) (field : String) : Bool :=
  store.refused.contains call && store.refusedField.all (· = field)

def guarded {α : Type} (call : StoreCall) (field : String)
    (run : MemoryStore → Except RelayError α × MemoryStore) (store : FaultyStore) :
    Except RelayError α × FaultyStore :=
  if store.refuses call field then (.error refusal, store)
  else
    let (result, inner) := run store.inner
    (result, { store with inner })

instance : FieldStore FaultyStore where
  getField key field := guarded .get field (FieldStore.getField key field)
  setField key field value := guarded .set field (FieldStore.setField key field value)
  deleteField key field := guarded .delete field (FieldStore.deleteField key field)

end FaultyStore

end CredentialRelay.Cache

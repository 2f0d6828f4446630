import CredentialRelay.Cache.Expiry
import CredentialRelay.Table

namespace CredentialRelay.Cache

structure Entry where
  value : String
  lastUse : Nat
deriving DecidableEq, Repr

structure LocalCache where
  ttl : Nat
  entries : Table String Entry

namespace LocalCache

def empty (ttl : Nat) : LocalCache := ⟨ttl, ∅⟩

def size (cache : LocalCache) : Nat := cache.entries.size

/-- An expired entry is dropped when it is read, if no sweep was there before. -/
def get (now : Nat) (key : String) (cache : LocalCache) : Option String × LocalCache :=
  match cache.entries.get? key with
  | none => (none, cache)
  | some entry =>
    if isExpired cache.ttl now entry.lastUse then
      (none, { cache with entries := cache.entries.erase key })
    else
      (some entry.value,
        { cache with entries := cache.entries.insert key { entry with lastUse := now } })

def set (now : Nat) (key value : String) (cache : LocalCache) : LocalCache :=
  { cache with entries := cache.entries.insert key { value, lastUse := now } }

def remove (key : String) (cache : LocalCache) : LocalCache :=
  { cache with entries := cache.entries.erase key }

def sweep (now : Nat) (cache : LocalCache) : LocalCache :=
  { cache with
    entries := cache.entries.filter fun _ entry => !isExpired cache.ttl now entry.lastUse }

end LocalCache

end CredentialRelay.Cache

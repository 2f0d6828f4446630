import CredentialRelay.Cache.Expiry
import CredentialRelay.Cache.Store
import CredentialRelay.Table

/-!
A cache whose values live in a field store, under one field that is its own, and that keeps only
the time of the last use of each key. Once a sweep finds the store out of reach the cache has a
fault, and every later call fails without asking the store.
-/

namespace CredentialRelay.Cache

structure SharedCache where
  field : String
  ttl : Nat
  lastUse : Table String Nat
  fault : Option String

namespace SharedCache

variable {σ : Type} [FieldStore σ]

def empty (field : String) (ttl : Nat) : SharedCache := ⟨field, ttl, ∅, none⟩

def size (cache : SharedCache) : Nat := cache.lastUse.size

def touch (now : Nat) (key : String) (cache : SharedCache) : SharedCache :=
  { cache with lastUse := cache.lastUse.insert key now }

def forget (key : String) (cache : SharedCache) : SharedCache :=
  { cache with lastUse := cache.lastUse.erase key }

def isIdle (now : Nat) (key : String) (cache : SharedCache) : Bool :=
  (cache.lastUse.get? key).any (isExpired cache.ttl now)

def refusal? (cache : SharedCache) : Option RelayError := cache.fault.map .storeUnavailable

def read (now : Nat) (key : String) (cache : SharedCache) (store : σ) :
    Except RelayError (Option String) × SharedCache × σ :=
  if cache.isIdle now key then (.ok none, cache, store)
  else
    match FieldStore.getField key cache.field store with
    | (.ok (some value), store) => (.ok (some value), cache.touch now key, store)
    | (result, store) => (result, cache, store)

/-- The time is kept even if the store fails, so that what was half written expires too. -/
def write (now : Nat) (key value : String) (cache : SharedCache) (store : σ) :
    Except RelayError Unit × SharedCache × σ :=
  let (result, store) := FieldStore.setField key cache.field value store
  (result, cache.touch now key, store)

def get (now : Nat) (key : String) (cache : SharedCache) (store : σ) :
    Except RelayError (Option String) × SharedCache × σ :=
  match cache.refusal? with
  | some error => (.error error, cache, store)
  | none => cache.read now key store

def set (now : Nat) (key value : String) (cache : SharedCache) (store : σ) :
    Except RelayError Unit × SharedCache × σ :=
  match cache.refusal? with
  | some error => (.error error, cache, store)
  | none => cache.write now key value store

def remove (key : String) (cache : SharedCache) (store : σ) :
    Except RelayError Unit × SharedCache × σ :=
  match cache.refusal? with
  | some error => (.error error, cache, store)
  | none =>
    let (result, store) := FieldStore.deleteField key cache.field store
    (result, cache.forget key, store)

def idleKeys (cutoff : Nat) (cache : SharedCache) : List String :=
  cache.lastUse.keys.filter fun key => cache.isIdle cutoff key

/-- Gives up a key for deletion, unless it was used after the sweep began. -/
def release? (cutoff : Nat) (key : String) (cache : SharedCache) : Option SharedCache :=
  if cache.isIdle cutoff key then some (cache.forget key) else none

def settle (result : Except RelayError Unit) (cache : SharedCache) : SharedCache :=
  match result with
  | .error error => if error.isFatal then { cache with fault := some error.message } else cache
  | .ok () => cache

def evict (cutoff : Nat) : List String → SharedCache → σ → SharedCache × σ
  | [], cache, store => (cache, store)
  | key :: keys, cache, store =>
    match cache.release? cutoff key with
    | none => evict cutoff keys cache store
    | some cache =>
      let (result, store) := FieldStore.deleteField key cache.field store
      let cache := cache.settle result
      if cache.fault.isSome then (cache, store) else evict cutoff keys cache store

/-- A sweep in which no other call comes between; a cache with a fault is not swept. -/
def sweep (now : Nat) (cache : SharedCache) (store : σ) : SharedCache × σ :=
  if cache.fault.isSome then (cache, store)
  else evict now (cache.idleKeys now) cache store

end SharedCache

end CredentialRelay.Cache

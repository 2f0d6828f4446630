import CredentialRelay.Cache.Local
import CredentialRelay.Cache.Shared

namespace CredentialRelay.Cache

inductive Credential where
  | sessionCookie
  | accessToken
  | problem
deriving DecidableEq, Repr

def Credential.field : Credential → String
  | sessionCookie => "cookie"
  | accessToken => "xaccessToken"
  | problem => "problems"

class CredentialCaches (σ : Type) where
  lookup : Credential → (identity : String) → σ → Except RelayError (Option String) × σ
  record : Credential → (identity value : String) → σ → Except RelayError Unit × σ

structure LocalCaches where
  now : Nat
  cache : Credential → LocalCache

namespace LocalCaches

def empty (ttl : Nat) : LocalCaches := ⟨0, fun _ => .empty ttl⟩

def update (credential : Credential) (cache : LocalCache) (caches : LocalCaches) : LocalCaches :=
  { caches with cache := fun c => if c = credential then cache else caches.cache c }

def get (credential : Credential) (key : String) (caches : LocalCaches) :
    Option String × LocalCaches :=
  let (value, cache) := (caches.cache credential).get caches.now key
  (value, caches.update credential cache)

def set (credential : Credential) (key value : String) (caches : LocalCaches) : LocalCaches :=
  caches.update credential ((caches.cache credential).set caches.now key value)

def remove (credential : Credential) (key : String) (caches : LocalCaches) : LocalCaches :=
  caches.update credential ((caches.cache credential).remove key)

instance : CredentialCaches LocalCaches where
  lookup credential identity caches :=
    let (value, caches) := caches.get credential identity
    (.ok value, caches)
  record credential identity value caches := (.ok (), caches.set credential identity value)

def sweep (credential : Credential) (caches : LocalCaches) : LocalCaches :=
  caches.update credential ((caches.cache credential).sweep caches.now)

def advanceTo (now : Nat) (period : Nat) (caches : LocalCaches) : LocalCaches :=
  let later := { caches with now }
  if caches.now / period < now / period then
    ((later.sweep .sessionCookie).sweep .accessToken).sweep .problem
  else later

end LocalCaches

structure SharedCaches (σ : Type) where
  now : Nat
  cache : Credential → SharedCache
  store : σ

namespace SharedCaches

variable {σ : Type} [FieldStore σ]

def empty (ttl : Nat) (store : σ) : SharedCaches σ :=
  ⟨0, fun credential => .empty credential.field ttl, store⟩

def update (credential : Credential) (cache : SharedCache) (store : σ)
    (caches : SharedCaches σ) : SharedCaches σ :=
  { caches with
    cache := fun c => if c = credential then cache else caches.cache c
    store }

def get (credential : Credential) (key : String) (caches : SharedCaches σ) :
    Except RelayError (Option String) × SharedCaches σ :=
  let (result, cache, store) := (caches.cache credential).get caches.now key caches.store
  (result, caches.update credential cache store)

def set (credential : Credential) (key value : String) (caches : SharedCaches σ) :
    Except RelayError Unit × SharedCaches σ :=
  let (result, cache, store) := (caches.cache credential).set caches.now key value caches.store
  (result, caches.update credential cache store)

def remove (credential : Credential) (key : String) (caches : SharedCaches σ) :
    Except RelayError Unit × SharedCaches σ :=
  let (result, cache, store) := (caches.cache credential).remove key caches.store
  (result, caches.update credential cache store)

instance : CredentialCaches (SharedCaches σ) where
  lookup credential identity caches := caches.get credential identity
  record credential identity value caches := caches.set credential identity value

def sweep (credential : Credential) (caches : SharedCaches σ) : SharedCaches σ :=
  let (cache, store) := (caches.cache credential).sweep caches.now caches.store
  caches.update credential cache store

end SharedCaches

end CredentialRelay.Cache

import Mathlib
import CredentialRelay.Cache.Credentials
import CredentialRelay.Proofs.Cache.Answers

/-!
# Caches that take turns with their sweepers

Calls and sweepers come in any order. A local cache is swept in one go; the sweeper of a shared cache
notes the keys that are idle when it sets out and gives them up one at a turn, so that anything may
come between two of them.
-/

namespace CredentialRelay.Cache

class TurnTaking (σ : Type) where
  setClock : Nat → σ → σ
  sweep : Credential → σ → σ
  refusal? : Credential → σ → Option RelayError
  perform : Credential → Request → σ → Reply × σ

namespace TurnTaking

variable {σ : Type} [TurnTaking σ]

def call (credential : Credential) (request : Request) (caches : σ) : Reply × σ :=
  match refusal? credential caches with
  | some error => (.error error, caches)
  | none => perform credential request caches

def takeTurn (time : Nat) (credential : Credential) (turn : Turn) (caches : σ) : σ :=
  match turn with
  | .call request => (call credential request (setClock time caches)).2
  | .sweep => sweep credential (setClock time caches)

def afterTurns (start : σ) : List (Nat × Credential × Turn) → σ
  | [] => start
  | (time, credential, turn) :: past => takeTurn time credential turn (afterTurns start past)

def replies (start : σ) : List (Nat × Credential × Turn) → List Reply
  | [] => []
  | (time, credential, .call request) :: past =>
    (call credential request (setClock time (afterTurns start past))).1 :: replies start past
  | (_, _, .sweep) :: past => replies start past

end TurnTaking

namespace LocalCaches

def perform (credential : Credential) (request : Request) (caches : LocalCaches) :
    Reply × LocalCaches :=
  let (value, cache) := (caches.cache credential).perform caches.now request
  (.ok value, caches.update credential cache)

instance : TurnTaking LocalCaches where
  setClock now caches := { caches with now }
  sweep := LocalCaches.sweep
  refusal? _ _ := none
  perform := perform

end LocalCaches

theorem Credential.field_injective : Function.Injective Credential.field := by
  intro credential other same
  cases credential <;> cases other <;> first | rfl | exact absurd same (by decide)

section Shared

variable {σ : Type}

theorem SharedCaches.update_self (credential : Credential) (caches : SharedCaches σ) :
    caches.update credential (caches.cache credential) caches.store = caches := by
  have each : (caches.update credential (caches.cache credential) caches.store).cache =
      caches.cache := by
    funext other
    dsimp only [update]
    split
    · next same => rw [same]
    · rfl
  calc caches.update credential (caches.cache credential) caches.store
      = ⟨caches.now, (caches.update credential (caches.cache credential) caches.store).cache,
          caches.store⟩ := rfl
    _ = caches := by rw [each]

variable [FieldStore σ]

def Request.enter (now : Nat) (cache : SharedCache) (store : σ) : Request → Reply × SharedCache × σ
  | get key => cache.read now key store
  | set key value =>
    let (result, state) := cache.write now key value store
    (result.map fun _ => none, state)
  | remove key =>
    let (result, store) := FieldStore.deleteField key cache.field store
    (result.map fun _ => none, cache.forget key, store)

theorem Request.perform_eq_enter (now : Nat) (cache : SharedCache) (store : σ) (request : Request) :
    request.perform now cache store =
      match cache.refusal? with
      | some error => (.error error, cache, store)
      | none => request.enter now cache store := by
  cases faulty : cache.refusal? with
  | some error => exact perform_refused faulty
  | none => cases request <;> simp only [perform, SharedCache.get, SharedCache.set,
      SharedCache.remove, faulty, enter]

theorem SharedCache.evict_one (cutoff : Nat) (key : String) (cache : SharedCache) (store : σ) :
    evict cutoff [key] cache store =
      match cache.release? cutoff key with
      | none => (cache, store)
      | some cache =>
        let deletion := FieldStore.deleteField key cache.field store
        (cache.settle deletion.1, deletion.2) := by
  unfold evict
  cases cache.release? cutoff key with
  | none => rfl
  | some cache => exact ite_self _

theorem SharedCache.evict_cons (cutoff : Nat) (key : String) (keys : List String)
    {cache : SharedCache} (store : σ) (sane : cache.fault = none) :
    evict cutoff (key :: keys) cache store =
      let state := evict cutoff [key] cache store
      if state.1.fault.isSome then state else evict cutoff keys state.1 state.2 := by
  rw [evict_one, evict]
  cases cache.release? cutoff key with
  | none => simp [sane]
  | some cache => rfl

end Shared

structure SweptCaches (σ : Type) where
  caches : SharedCaches σ
  left : Credential → Option (Nat × List String)

namespace SweptCaches

variable {σ : Type}

def start (ttl : Nat) (store : σ) : SweptCaches σ := ⟨.empty ttl store, fun _ => none⟩

def setLeft (credential : Credential) (keys : Option (Nat × List String)) (s : SweptCaches σ) :
    SweptCaches σ :=
  { s with left := fun other => if other = credential then keys else s.left other }

def update (credential : Credential) (state : SharedCache × σ) (s : SweptCaches σ) :
    SweptCaches σ :=
  { s with caches := s.caches.update credential state.1 state.2 }

theorem cache_update (credential other : Credential) (state : SharedCache × σ)
    (s : SweptCaches σ) :
    (s.update credential state).caches.cache other =
      if other = credential then state.1 else s.caches.cache other := rfl

theorem setLeft_setLeft (credential : Credential) (keys keys' : Option (Nat × List String))
    (s : SweptCaches σ) :
    (s.setLeft credential keys).setLeft credential keys' = s.setLeft credential keys' := by
  simp only [setLeft]
  congr
  funext other
  split <;> rfl

theorem update_update (credential : Credential) (state state' : SharedCache × σ)
    (s : SweptCaches σ) :
    (s.update credential state).update credential state' = s.update credential state' := by
  simp only [update, SharedCaches.update]
  congr
  funext other
  split <;> rfl

theorem setLeft_self {credential : Credential} {s : SweptCaches σ}
    (resting : s.left credential = none) : s.setLeft credential none = s := by
  simp only [setLeft]
  congr
  funext other
  split
  · next same => rw [same, resting]
  · rfl

variable [FieldStore σ]

def sweepOn (credential : Credential) (s : SweptCaches σ) : SweptCaches σ :=
  let cache := s.caches.cache credential
  match s.left credential with
  | none =>
    if cache.fault.isSome then s
    else s.setLeft credential (some (s.caches.now, cache.idleKeys s.caches.now))
  | some (_, []) => s.setLeft credential none
  | some (cutoff, key :: keys) =>
    let state := SharedCache.evict cutoff [key] cache s.caches.store
    (s.update credential state).setLeft credential
      (if state.1.fault.isSome then none else some (cutoff, keys))

def perform (credential : Credential) (request : Request) (s : SweptCaches σ) :
    Reply × SweptCaches σ :=
  let (reply, state) := request.enter s.caches.now (s.caches.cache credential) s.caches.store
  (reply, s.update credential state)

instance : TurnTaking (SweptCaches σ) where
  setClock now s := { s with caches := { s.caches with now } }
  sweep := sweepOn
  refusal? credential s := (s.caches.cache credential).refusal?
  perform := perform

theorem call_alone (credential : Credential) (request : Request) (s : SweptCaches σ) :
    TurnTaking.call credential request s =
      let (reply, state) :=
        request.perform s.caches.now (s.caches.cache credential) s.caches.store
      (reply, s.update credential state) := by
  have refused : TurnTaking.refusal? credential s = (s.caches.cache credential).refusal? := rfl
  rw [TurnTaking.call, refused, Request.perform_eq_enter]
  cases (s.caches.cache credential).refusal? with
  | none => rfl
  | some error =>
      dsimp only
      rw [update, SharedCaches.update_self]

theorem evict_alone {credential : Credential} {cutoff : Nat} {keys : List String}
    {s : SweptCaches σ} (next : s.left credential = some (cutoff, keys))
    (sane : (s.caches.cache credential).fault = none) :
    ∃ turns, (sweepOn credential)^[turns] s =
      (s.update credential (SharedCache.evict cutoff keys (s.caches.cache credential)
        s.caches.store)).setLeft credential none := by
  induction keys generalizing s with
  | nil =>
      refine ⟨1, ?_⟩
      rw [Function.iterate_one, sweepOn, next, SharedCache.evict, update, SharedCaches.update_self]
  | cons key keys ih =>
      let state := SharedCache.evict cutoff [key] (s.caches.cache credential) s.caches.store
      have first : sweepOn credential s = (s.update credential state).setLeft credential
          (if state.1.fault.isSome then none else some (cutoff, keys)) := by
        rw [sweepOn, next]
      rw [SharedCache.evict_cons cutoff key keys s.caches.store sane]
      dsimp only
      by_cases faulty : state.1.fault.isSome
      · rw [if_pos faulty] at first ⊢
        exact ⟨1, first⟩
      · rw [if_neg faulty] at first ⊢
        have own : (sweepOn credential s).caches.cache credential = state.1 := by
          rw [first]
          exact if_pos rfl
        obtain ⟨turns, rest⟩ := ih (s := sweepOn credential s) (by rw [first]; exact if_pos rfl)
          (by rw [own]; exact Option.not_isSome_iff_eq_none.1 faulty)
        refine ⟨turns + 1, ?_⟩
        rw [Function.iterate_succ_apply, rest, own, first]
        calc _ = (((s.update credential state).update credential _).setLeft credential _).setLeft
              credential none := rfl
          _ = _ := by
            rw [setLeft_setLeft, update_update]
            rfl

theorem sweep_alone {credential : Credential} {s : SweptCaches σ}
    (resting : s.left credential = none) :
    ∃ turns, (sweepOn credential)^[turns] s = { s with caches := s.caches.sweep credential } := by
  by_cases faulty : (s.caches.cache credential).fault.isSome
  · refine ⟨0, ?_⟩
    have same : s.caches.sweep credential = s.caches := by
      rw [SharedCaches.sweep, SharedCache.sweep, if_pos faulty]
      exact SharedCaches.update_self credential s.caches
    rw [Function.iterate_zero_apply, same]
  · have first : sweepOn credential s = s.setLeft credential
        (some (s.caches.now, (s.caches.cache credential).idleKeys s.caches.now)) := by
      rw [sweepOn, resting, if_neg faulty]
    obtain ⟨turns, rest⟩ := evict_alone (s := sweepOn credential s) (by rw [first]; exact if_pos rfl)
      (by rw [first]; exact Option.not_isSome_iff_eq_none.1 faulty)
    refine ⟨turns + 1, ?_⟩
    rw [Function.iterate_succ_apply, rest, first]
    calc _ = ((s.update credential _).setLeft credential _).setLeft credential none := rfl
      _ = (s.update credential _).setLeft credential none := setLeft_setLeft credential _ none _
      _ = s.update credential _ := setLeft_self resting
      _ = _ := by
        rw [SharedCaches.sweep, SharedCache.sweep, if_neg faulty]
        rfl

end SweptCaches

end CredentialRelay.Cache

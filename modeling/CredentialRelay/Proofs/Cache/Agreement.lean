import Mathlib
import CredentialRelay.Proofs.Cache.Sparing
import CredentialRelay.Proofs.Cache.Sweepers

/-!
# Local and shared caches answer alike

Over a store in memory that does not fail, what a key of a shared cache holds is determined by its own
uses in the same way as for a local cache: the time of its last use and the value in the store together
tell what the local entry does. So the two kinds of caches give the same replies to the same calls,
whenever they are swept.
-/

namespace CredentialRelay.Cache

namespace MemoryStore

variable {store : MemoryStore} (online : store.offline = false) (key field value : String)
include online

theorem getField_online :
    FieldStore.getField key field store = (.ok (store.find? key field), store) := by
  simp [FieldStore.getField, online]

theorem setField_online :
    FieldStore.setField key field value store = (.ok (), store.put key field value) := by
  simp [FieldStore.setField, online]

theorem deleteField_online :
    FieldStore.deleteField key field store = (.ok (), store.delete key field) := by
  simp [FieldStore.deleteField, online]

omit online

theorem offline_delete (store : MemoryStore) : (store.delete key field).offline = store.offline := by
  unfold delete
  split
  · rfl
  · dsimp only
    split <;> rfl

end MemoryStore

namespace SharedCache

variable {cache cache' : SharedCache} {store store' : MemoryStore} {key other : String}
variable {now later : Nat} {uses : List (Nat × Use)} {calls : List (Nat × Request)}

def peek? (later : Nat) (key : String) (cache : SharedCache) (store : MemoryStore) :
    Option String :=
  if cache.isIdle later key then none else store.find? key cache.field

def Follows (cache : SharedCache) (store : MemoryStore) (key : String) (now : Nat)
    (uses : List (Nat × Use)) : Prop :=
  ∀ later, now ≤ later → cache.peek? later key store = held? cache.ttl later uses

theorem Follows.mono (follows : cache.Follows store key now uses) (order : now ≤ later) :
    cache.Follows store key later uses :=
  fun time after => follows time (order.trans after)

theorem Follows.congr (follows : cache.Follows store key now uses) (field : cache'.field = cache.field)
    (ttl : cache'.ttl = cache.ttl) (time : cache'.lastUse.get? key = cache.lastUse.get? key)
    (value : store'.find? key cache.field = store.find? key cache.field) :
    cache'.Follows store' key now uses := by
  intro later order
  have same := follows later order
  rw [peek?, isIdle] at same ⊢
  rwa [field, ttl, time, value]

theorem isIdle_mono (order : now ≤ later) (idle : cache.isIdle now key = true) :
    cache.isIdle later key = true := by
  obtain ⟨time, found, expired⟩ := isIdle_iff.1 idle
  exact isIdle_iff.2 ⟨time, found, expired.trans_le order⟩

theorem isIdle_touch (later now : Nat) (key : String) (cache : SharedCache) :
    (cache.touch now key).isIdle later key = isExpired cache.ttl later now := by
  rw [isIdle, lastUse_touch, if_pos rfl]
  rfl

/-! ## Uses of the key -/

theorem follows_write (now : Nat) (key value : String) (cache : SharedCache) (store : MemoryStore)
    (uses : List (Nat × Use)) :
    (cache.touch now key).Follows (store.put key cache.field value) key now
      ((now, .write value) :: uses) := by
  intro later _
  have written : (store.put key cache.field value).find? key (cache.touch now key).field =
      some value := by
    rw [MemoryStore.find?_put, if_pos ⟨rfl, rfl⟩]
  rw [peek?, isIdle_touch, written, held?]
  rfl

theorem follows_forget (now : Nat) (key : String) (cache : SharedCache) (store : MemoryStore)
    (uses : List (Nat × Use)) :
    (cache.forget key).Follows (store.delete key cache.field) key now ((now, .remove) :: uses) := by
  intro later _
  have gone : (store.delete key cache.field).find? key (cache.forget key).field = none := by
    rw [MemoryStore.find?_delete, if_pos ⟨rfl, rfl⟩]
  rw [peek?, gone, ite_self, held?, ite_self]

theorem Follows.read_found (follows : cache.Follows store key now uses) {value : String}
    (held : held? cache.ttl now uses = some value) :
    (cache.touch now key).Follows store key now ((now, .read) :: uses) := by
  intro later _
  have found := follows now le_rfl
  rw [held, peek?] at found
  split at found
  · cases found
  · rw [peek?, isIdle_touch, held?]
    show _ = if isExpired cache.ttl later now then none else held? cache.ttl now uses
    rw [held, ← found]
    rfl

theorem Follows.read_lost (follows : cache.Follows store key now uses)
    (lost : held? cache.ttl now uses = none) :
    cache.Follows store key now ((now, .read) :: uses) := by
  intro later order
  rw [held?, lost, ite_self, follows later order, Option.eq_none_iff_forall_ne_some]
  intro value held
  rw [held?_of_later order held] at lost
  cases lost

/-! ## Calls -/

theorem enter_get (online : store.offline = false) (now : Nat) (key : String) :
    (Request.get key).enter now cache store =
      if cache.isIdle now key then (.ok none, cache, store)
      else (.ok (store.find? key cache.field),
        if (store.find? key cache.field).isSome then cache.touch now key else cache, store) := by
  rw [Request.enter, read, MemoryStore.getField_online online]
  cases store.find? key cache.field <;> rfl

theorem enter_set (online : store.offline = false) (now : Nat) (key value : String) :
    (Request.set key value).enter now cache store =
      (.ok none, cache.touch now key, store.put key cache.field value) := by
  rw [Request.enter, write, MemoryStore.setField_online online]
  rfl

theorem enter_remove (online : store.offline = false) (now : Nat) (key : String) :
    (Request.remove key).enter now cache store =
      (.ok none, cache.forget key, store.delete key cache.field) := by
  rw [Request.enter, MemoryStore.deleteField_online online]
  rfl

theorem follows_enter_get (online : store.offline = false)
    (follows : cache.Follows store key now uses) :
    let entered := (Request.get key).enter now cache store
    entered.1 = .ok (held? cache.ttl now uses) ∧
      entered.2.1.Follows entered.2.2 key now ((now, .read) :: uses) := by
  have held := follows now le_rfl
  unfold peek? at held
  rw [enter_get online]
  by_cases idle : cache.isIdle now key
  · rw [if_pos idle] at held ⊢
    exact ⟨congrArg Except.ok held, follows.read_lost held.symm⟩
  · rw [if_neg idle] at held ⊢
    refine ⟨congrArg Except.ok held, ?_⟩
    cases found : store.find? key cache.field with
    | none => exact follows.read_lost (held.symm.trans found)
    | some value => exact follows.read_found (held.symm.trans found)

theorem Follows.enter_of_ne (online : store.offline = false)
    (follows : cache.Follows store key now uses) {request : Request} (ne : request.key ≠ key) :
    let entered := request.enter now cache store
    entered.2.1.Follows entered.2.2 key now uses := by
  cases request with
  | get other =>
      rw [enter_get online]
      by_cases idle : cache.isIdle now other
      · rw [if_pos idle]
        exact follows
      · rw [if_neg idle]
        cases store.find? other cache.field with
        | none => exact follows
        | some value =>
            refine follows.congr rfl rfl ?_ rfl
            exact (lastUse_touch now other key cache).trans (if_neg (Ne.symm ne))
  | set other value =>
      rw [enter_set online]
      refine follows.congr rfl rfl ?_ ?_
      · exact (lastUse_touch now other key cache).trans (if_neg (Ne.symm ne))
      · rw [MemoryStore.find?_put, if_neg fun own => ne own.1.symm]
  | remove other =>
      rw [enter_remove online]
      refine follows.congr rfl rfl ?_ ?_
      · exact (lastUse_forget other key cache).trans (if_neg (Ne.symm ne))
      · rw [MemoryStore.find?_delete, if_neg fun own => ne own.1.symm]

theorem Follows.enter (online : store.offline = false)
    (follows : cache.Follows store key now (usesOf key calls)) (request : Request) :
    let entered := request.enter now cache store
    entered.2.1.Follows entered.2.2 key now (usesOf key ((now, request) :: calls)) := by
  rw [usesOf_cons]
  by_cases own : request.key = key
  · subst own
    rw [if_pos rfl]
    cases request with
    | get key => exact (follows_enter_get online follows).2
    | set key value =>
        rw [enter_set online]
        exact follows_write now key value cache store _
    | remove key =>
        rw [enter_remove online]
        exact follows_forget now key cache store _
  · rw [if_neg own]
    exact follows.enter_of_ne online own

theorem reply_enter (online : store.offline = false)
    (follows : ∀ key, cache.Follows store key now (usesOf key calls)) (request : Request) :
    (request.enter now cache store).1 = .ok (request.answer? cache.ttl now calls) := by
  cases request with
  | get key => exact (follows_enter_get online (follows key)).1
  | set key value => rw [enter_set online, Request.answer?]
  | remove key => rw [enter_remove online, Request.answer?]

/-! ## Evictions -/

theorem evict_online (online : store.offline = false) (cutoff : Nat) (key : String) :
    evict cutoff [key] cache store =
      if cache.isIdle cutoff key then (cache.forget key, store.delete key cache.field)
      else (cache, store) := by
  rw [evict_one, release?]
  by_cases idle : cache.isIdle cutoff key
  · have deletion : FieldStore.deleteField key (cache.forget key).field store =
        (.ok (), store.delete key cache.field) := MemoryStore.deleteField_online online key _
    rw [if_pos idle, if_pos idle]
    dsimp only
    rw [deletion, settle]
  · rw [if_neg idle, if_neg idle]

theorem Follows.evict (online : store.offline = false) (follows : cache.Follows store key now uses)
    {cutoff : Nat} (order : cutoff ≤ now) (other : String) :
    let left := SharedCache.evict cutoff [other] cache store
    left.1.Follows left.2 key now uses := by
  rw [evict_online online]
  by_cases idle : cache.isIdle cutoff other
  · rw [if_pos idle]
    by_cases own : other = key
    · subst own
      show (cache.forget other).Follows (store.delete other cache.field) other now uses
      intro later after
      have gone := follows later after
      rw [peek?, if_pos (isIdle_mono (order.trans after) idle)] at gone
      have deleted : (store.delete other cache.field).find? other (cache.forget other).field =
          none := by
        rw [MemoryStore.find?_delete, if_pos ⟨rfl, rfl⟩]
      rw [peek?, deleted, ite_self]
      exact gone
    · refine follows.congr rfl rfl ?_ ?_
      · exact (lastUse_forget other key cache).trans (if_neg (Ne.symm own))
      · rw [MemoryStore.find?_delete, if_neg fun same => own same.1.symm]
  · rw [if_neg idle]
    exact follows

/-! ## What a step of one cache leaves alone -/

structure OwnField (before after : SharedCache × MemoryStore) : Prop where
  field : after.1.field = before.1.field
  ttl : after.1.ttl = before.1.ttl
  fault : after.1.fault = before.1.fault
  offline : after.2.offline = before.2.offline
  others : ∀ key field, field ≠ before.1.field →
    after.2.find? key field = before.2.find? key field

theorem ownField_forget (key : String) (cache : SharedCache) (store : MemoryStore) :
    OwnField (cache, store) (cache.forget key, store.delete key cache.field) := by
  refine ⟨rfl, rfl, rfl, MemoryStore.offline_delete _ _ store, fun other field ne => ?_⟩
  rw [MemoryStore.find?_delete, if_neg fun own => ne own.2]

theorem ownField_enter (online : store.offline = false) (now : Nat) (request : Request) :
    OwnField (cache, store) (request.enter now cache store).2 := by
  cases request with
  | get key =>
      rw [enter_get online]
      split
      · exact ⟨rfl, rfl, rfl, rfl, fun _ _ _ => rfl⟩
      · cases store.find? key cache.field <;> exact ⟨rfl, rfl, rfl, rfl, fun _ _ _ => rfl⟩
  | set key value =>
      rw [enter_set online]
      refine ⟨rfl, rfl, rfl, rfl, fun other field ne => ?_⟩
      rw [MemoryStore.find?_put, if_neg fun own => ne own.2]
  | remove key =>
      rw [enter_remove online]
      exact ownField_forget key cache store

theorem ownField_evict (online : store.offline = false) (cutoff : Nat) (key : String) :
    OwnField (cache, store) (evict cutoff [key] cache store) := by
  rw [evict_online online]
  split
  · exact ownField_forget key cache store
  · exact ⟨rfl, rfl, rfl, rfl, fun _ _ _ => rfl⟩

end SharedCache

/-! ## Replies by the calls -/

def allCalls (past : List (Nat × Credential × Turn)) : List (Nat × Credential × Request) :=
  past.filterMap fun (time, credential, turn) =>
    match turn with
    | .call request => some (time, credential, request)
    | .sweep => none

def callsTo (credential : Credential) (calls : List (Nat × Credential × Request)) :
    List (Nat × Request) :=
  calls.filterMap fun (time, other, request) =>
    if other = credential then some (time, request) else none

theorem callsTo_cons (credential other : Credential) (time : Nat) (request : Request)
    (calls : List (Nat × Credential × Request)) :
    callsTo credential ((time, other, request) :: calls) =
      if other = credential then (time, request) :: callsTo credential calls
      else callsTo credential calls := by
  rw [callsTo, List.filterMap_cons]
  by_cases own : other = credential
  · simp [own, callsTo]
  · simp [own, callsTo]

def dueReplies (ttl : Nat) : List (Nat × Credential × Request) → List Reply
  | [] => []
  | (time, credential, request) :: calls =>
    .ok (request.answer? ttl time (callsTo credential calls)) :: dueReplies ttl calls

namespace TurnTaking

variable {σ : Type} [TurnTaking σ]

structure Replays (ttl : Nat) (told : List (Nat × Credential × Request) → Nat → σ → Prop) :
    Prop where
  later : ∀ calls now time caches, told calls now caches → now ≤ time →
    told calls time (setClock time caches)
  reply : ∀ calls now caches credential request, told calls now caches →
    (call credential request caches).1 = .ok (request.answer? ttl now (callsTo credential calls))
  call : ∀ calls now caches credential request, told calls now caches →
    told ((now, credential, request) :: calls) now (call credential request caches).2
  sweep : ∀ calls now caches credential, told calls now caches →
    told calls now (sweep credential caches)

section Replays

variable {ttl : Nat} {told : List (Nat × Credential × Request) → Nat → σ → Prop} {start : σ}
variable (replays : Replays ttl told) (fresh : told [] 0 start)
include replays fresh

theorem Replays.afterTurns {past : List (Nat × Credential × Turn)} {now : Nat}
    (timed : Timed now past) :
    ∃ time ≤ now, told (allCalls past) time (afterTurns start past) := by
  -- Nothing has come to the caches since their own time, which may be before `now`.
  induction past generalizing now with
  | nil => exact ⟨0, Nat.zero_le now, fresh⟩
  | cons entry past ih =>
      obtain ⟨time, credential, turn⟩ := entry
      obtain ⟨order, before⟩ := timed_cons.1 timed
      obtain ⟨last, earlier, holds⟩ := ih before
      have present := replays.later _ _ time _ holds earlier
      refine ⟨time, order, ?_⟩
      cases turn with
      | call request => exact replays.call _ _ _ credential request present
      | sweep => exact replays.sweep _ _ _ credential present

theorem Replays.replies {past : List (Nat × Credential × Turn)} {now : Nat}
    (timed : Timed now past) : replies start past = dueReplies ttl (allCalls past) := by
  induction past generalizing now with
  | nil => rfl
  | cons entry past ih =>
      obtain ⟨time, credential, turn⟩ := entry
      obtain ⟨-, before⟩ := timed_cons.1 timed
      cases turn with
      | call request =>
          obtain ⟨last, earlier, holds⟩ := replays.afterTurns fresh before
          have present := replays.later _ _ time _ holds earlier
          rw [TurnTaking.replies, replays.reply _ _ _ credential request present, ih before]
          rfl
      | sweep => exact ih before

end Replays

end TurnTaking

namespace LocalCaches

structure Tells (ttl : Nat) (calls : List (Nat × Credential × Request)) (now : Nat)
    (caches : LocalCaches) : Prop where
  clock : caches.now = now
  ttl : ∀ credential, (caches.cache credential).ttl = ttl
  follows : ∀ credential key,
    (caches.cache credential).Follows key now (usesOf key (callsTo credential calls))

theorem replays (ttl : Nat) : TurnTaking.Replays ttl (Tells ttl) := by
  refine ⟨?_, ?_, ?_, ?_⟩
  · intro calls now time caches tells order
    exact ⟨rfl, tells.ttl, fun credential key => (tells.follows credential key).mono order⟩
  · intro calls now caches credential request tells
    obtain rfl := tells.clock
    have answer := LocalCache.perform_fst (tells.follows credential) request
    rw [tells.ttl] at answer
    exact congrArg Except.ok answer
  · intro calls now caches credential request tells
    obtain rfl := tells.clock
    have edited : (TurnTaking.call credential request caches).2 =
        caches.edit credential fun cache => (cache.perform caches.now request).2 := rfl
    rw [edited]
    refine ⟨rfl, fun other => ?_, fun other key => ?_⟩
    · rw [cache_edit, ← tells.ttl other]
      split
      · exact LocalCache.ttl_perform _ _ _
      · rfl
    · rw [cache_edit, callsTo_cons]
      by_cases own : other = credential
      · rw [if_pos own, if_pos own.symm]
        exact (tells.follows other key).perform request
      · rw [if_neg own, if_neg (Ne.symm own)]
        exact tells.follows other key
  · intro calls now caches credential tells
    obtain rfl := tells.clock
    have swept : TurnTaking.sweep credential caches =
        caches.edit credential (LocalCache.sweep caches.now) := rfl
    rw [swept]
    refine ⟨rfl, fun other => ?_, fun other key => ?_⟩
    · rw [cache_edit, ← tells.ttl other]
      split <;> rfl
    · rw [cache_edit]
      split
      · exact (tells.follows other key).sweep
      · exact tells.follows other key

theorem tells_empty (ttl : Nat) : Tells ttl [] 0 (empty ttl) :=
  ⟨rfl, fun _ => rfl, fun _ key => LocalCache.follows_empty ttl key 0⟩

end LocalCaches

namespace SweptCaches

structure Tells (ttl : Nat) (calls : List (Nat × Credential × Request)) (now : Nat)
    (s : SweptCaches MemoryStore) : Prop where
  clock : s.caches.now = now
  online : s.caches.store.offline = false
  field : ∀ credential, (s.caches.cache credential).field = credential.field
  ttl : ∀ credential, (s.caches.cache credential).ttl = ttl
  sane : ∀ credential, (s.caches.cache credential).fault = none
  cutoff : ∀ credential cutoff keys, s.left credential = some (cutoff, keys) → cutoff ≤ now
  follows : ∀ credential key, (s.caches.cache credential).Follows s.caches.store key now
    (usesOf key (callsTo credential calls))

variable {ttl now : Nat} {calls calls' : List (Nat × Credential × Request)}
variable {s : SweptCaches MemoryStore}

theorem Tells.setLeft (tells : Tells ttl calls now s) (credential : Credential)
    {keys : Option (Nat × List String)} (early : ∀ left ∈ keys, left.1 ≤ now) :
    Tells ttl calls now (s.setLeft credential keys) := by
  refine ⟨tells.clock, tells.online, tells.field, tells.ttl, tells.sane, ?_, tells.follows⟩
  intro other cutoff rest left
  dsimp only [SweptCaches.setLeft] at left
  split at left
  · exact early _ left
  · exact tells.cutoff other cutoff rest left

theorem Tells.update (tells : Tells ttl calls now s) {credential : Credential}
    {state : SharedCache × MemoryStore}
    (own : SharedCache.OwnField (s.caches.cache credential, s.caches.store) state)
    (follows : ∀ key, state.1.Follows state.2 key now (usesOf key (callsTo credential calls')))
    (rest : ∀ other, other ≠ credential → callsTo other calls' = callsTo other calls) :
    Tells ttl calls' now (s.update credential state) := by
  refine ⟨tells.clock, own.offline.trans tells.online, ?_, ?_, ?_, tells.cutoff, ?_⟩
  · intro other
    rw [cache_update, ← tells.field other]
    split
    · next same => exact same ▸ own.field
    · rfl
  · intro other
    rw [cache_update, ← tells.ttl credential]
    split
    · exact own.ttl
    · rw [tells.ttl, tells.ttl]
  · intro other
    rw [cache_update]
    split
    · exact own.fault.trans (tells.sane credential)
    · exact tells.sane other
  · intro other key
    rw [cache_update]
    by_cases same : other = credential
    · subst same
      rw [if_pos rfl]
      exact follows key
    · rw [if_neg same, rest other same]
      have apart : (s.caches.cache other).field ≠ (s.caches.cache credential).field := by
        rw [tells.field, tells.field]
        exact fun fields => same (Credential.field_injective fields)
      exact (tells.follows other key).congr rfl rfl rfl (own.others key _ apart)

theorem Tells.sweepOn (tells : Tells ttl calls now s) (credential : Credential) :
    Tells ttl calls now (s.sweepOn credential) := by
  unfold SweptCaches.sweepOn
  dsimp only
  split
  · split
    · exact tells
    · exact tells.setLeft credential (by rintro _ ⟨⟩; exact tells.clock.le)
  · exact tells.setLeft credential nofun
  · next cutoff key keys left =>
    have early := tells.cutoff credential cutoff _ left
    have online := tells.online
    refine (tells.update (SharedCache.ownField_evict online cutoff key) (fun other => ?_)
      fun _ _ => rfl).setLeft credential ?_
    · exact (tells.follows credential other).evict online early key
    · intro rest member
      split at member
      · cases member
      · cases member
        exact early

theorem replays (ttl : Nat) : TurnTaking.Replays ttl (Tells ttl) := by
  have admitted {calls now} {s : SweptCaches MemoryStore} (tells : Tells ttl calls now s)
      (credential : Credential) (request : Request) :
      TurnTaking.call credential request s = s.perform credential request := by
    have open' : TurnTaking.refusal? credential s = none :=
      congrArg (Option.map RelayError.storeUnavailable) (tells.sane credential)
    rw [TurnTaking.call, open']
    rfl
  refine ⟨?_, ?_, ?_, ?_⟩
  · intro calls now time s tells order
    exact ⟨rfl, tells.online, tells.field, tells.ttl, tells.sane,
      fun credential cutoff keys left => (tells.cutoff credential cutoff keys left).trans order,
      fun credential key => (tells.follows credential key).mono order⟩
  · intro calls now s credential request tells
    obtain rfl := tells.clock
    have reply := SharedCache.reply_enter tells.online (tells.follows credential) request
    rw [tells.ttl] at reply
    rw [admitted tells]
    exact reply
  · intro calls now s credential request tells
    obtain rfl := tells.clock
    rw [admitted tells]
    refine tells.update (SharedCache.ownField_enter tells.online _ request) (fun key => ?_)
      fun other ne => ?_
    · rw [callsTo_cons, if_pos rfl]
      exact (tells.follows credential key).enter tells.online request
    · rw [callsTo_cons, if_neg (Ne.symm ne)]
  · intro calls now s credential tells
    exact tells.sweepOn credential

theorem tells_start (ttl : Nat) : Tells ttl [] 0 (start ttl .empty) :=
  ⟨rfl, rfl, fun _ => rfl, fun _ => rfl, fun _ => rfl, nofun, fun _ _ _ _ => rfl⟩

end SweptCaches

/-- Local caches and shared caches over a store that does not fail give the same replies to the same
calls at the same times, whenever the sweepers of either come. -/
theorem backends_reply_alike (ttl : Nat) {past past' : List (Nat × Credential × Turn)}
    {now now' : Nat} (timed : Timed now past) (timed' : Timed now' past')
    (same : allCalls past = allCalls past') :
    TurnTaking.replies (LocalCaches.empty ttl) past =
      TurnTaking.replies (SweptCaches.start ttl MemoryStore.empty) past' := by
  rw [(LocalCaches.replays ttl).replies (LocalCaches.tells_empty ttl) timed,
    (SweptCaches.replays ttl).replies (SweptCaches.tells_start ttl) timed', same]

theorem lapsed_cookie_missed_by_both :
    let calls := [(2500, Credential.sessionCookie, Turn.call (.get "447455")),
      (1000, .accessToken, .call (.get "447455")), (0, .accessToken, .call (.set "447455" "a.b.c")),
      (0, .sessionCookie, .call (.set "447455" "connect.sid=a;"))]
    let swept := [(2500, Credential.sessionCookie, Turn.call (.get "447455")),
      (2300, .sessionCookie, .sweep), (1500, .sessionCookie, .sweep),
      (1000, .accessToken, .call (.get "447455")), (900, .accessToken, .sweep),
      (0, .accessToken, .call (.set "447455" "a.b.c")),
      (0, .sessionCookie, .call (.set "447455" "connect.sid=a;"))]
    Timed 2500 calls ∧ Timed 2500 swept ∧ allCalls calls = allCalls swept ∧
      TurnTaking.replies (SweptCaches.start 1000 MemoryStore.empty) swept =
        [.ok none, .ok (some "a.b.c"), .ok none, .ok none] := by
  intro calls swept
  have timed : Timed 2500 calls := by simp [Timed, calls]
  have timed' : Timed 2500 swept := by simp [Timed, swept]
  have same : allCalls calls = allCalls swept := by decide
  exact ⟨timed, timed', same, (backends_reply_alike 1000 timed timed' same).symm.trans rfl⟩

end CredentialRelay.Cache

import Mathlib
import CredentialRelay.Cache.Shared
import CredentialRelay.Proofs.Cache.Lifetime
import CredentialRelay.Proofs.Cache.Stores

/-!
# What a shared cache answers after a key has lapsed

Of all that happens to a key only the newest counts: a touch leaves its time, a deletion by a sweep
leaves nothing, and a deletion that the store refused leaves the value without a time. In the last
case, and in no other, a key that has lapsed is read again.
-/

namespace CredentialRelay.Cache

inductive Call where
  | get (key : String)
  | set (key value : String)
  | sweep
deriving DecidableEq, Repr

inductive Mark where
  | touched (time : Nat)
  | deleted
  | refused
deriving DecidableEq, Repr

def Mark.time? : Mark → Option Nat
  | touched time => some time
  | _ => none

def Mark.ofDeletion : Except RelayError Unit → Mark
  | .ok () => deleted
  | .error _ => refused

def lastTouch? (marks : List Mark) : Option Nat := marks.findSome? Mark.time?

namespace SharedCache

theorem lastUse_touch (now : Nat) (key other : String) (cache : SharedCache) :
    (cache.touch now key).lastUse.get? other =
      if other = key then some now else cache.lastUse.get? other :=
  Table.get?_insert cache.lastUse key other now

theorem lastUse_forget (key other : String) (cache : SharedCache) :
    (cache.forget key).lastUse.get? other = if other = key then none else cache.lastUse.get? other :=
  Table.get?_erase cache.lastUse key other

theorem settle_eq {result : Except RelayError Unit} (cache : SharedCache)
    (mild : ∀ error, result = .error error → error.isFatal = false) :
    cache.settle result = cache := by
  cases result with
  | ok done => rfl
  | error error => rw [settle, mild error rfl]; rfl

theorem release?_eq_some {cutoff : Nat} {key : String} {cache cache' : SharedCache}
    (h : cache.release? cutoff key = some cache') :
    cache' = cache.forget key ∧ cache.isIdle cutoff key = true := by
  unfold release? at h
  split at h
  · next idle => cases h; exact ⟨rfl, idle⟩
  · cases h

variable {σ : Type}

/-- The newest mark of a key tells whether the cache has a time for it and, if it has none, whether
the store can have a value. -/
structure Marked (view : σ → String → String → Option String) (field : String) (ttl : Nat)
    (key : String) (newest : Option Mark) (state : SharedCache × σ) : Prop where
  own : state.1.field = field
  ttl : state.1.ttl = ttl
  sane : state.1.fault = none
  time : state.1.lastUse.get? key = newest.bind Mark.time?
  gone : newest = none ∨ newest = some .deleted → view state.2 key field = none

section Steps

variable {view : σ → String → String → Option String}
variable {field key other : String} {ttl : Nat} {marks : List Mark} {cache : SharedCache} {store : σ}

theorem Marked.touch (marked : Marked view field ttl key marks.head? (cache, store)) (now : Nat)
    (store' : σ) :
    Marked view field ttl key (.touched now :: marks).head? (cache.touch now key, store') := by
  refine ⟨marked.own, marked.ttl, marked.sane, ?_, ?_⟩
  · rw [lastUse_touch, if_pos rfl]
    rfl
  · intro newest
    simp at newest

theorem Marked.touch_of_ne (marked : Marked view field ttl key marks.head? (cache, store))
    (ne : key ≠ other) (now : Nat) :
    Marked view field ttl key marks.head? (cache.touch now other, store) := by
  refine ⟨marked.own, marked.ttl, marked.sane, ?_, marked.gone⟩
  rw [lastUse_touch, if_neg ne]
  exact marked.time

theorem Marked.forget_of_ne (marked : Marked view field ttl key marks.head? (cache, store))
    (ne : key ≠ other) : Marked view field ttl key marks.head? (cache.forget other, store) := by
  refine ⟨marked.own, marked.ttl, marked.sane, ?_, marked.gone⟩
  rw [lastUse_forget, if_neg ne]
  exact marked.time

theorem Marked.withStore (marked : Marked view field ttl key marks.head? (cache, store))
    {store' : σ} (same : view store' key cache.field = view store key cache.field) :
    Marked view field ttl key marks.head? (cache, store') := by
  obtain rfl : cache.field = field := marked.own
  exact ⟨rfl, marked.ttl, marked.sane, marked.time, fun newest => same.trans (marked.gone newest)⟩

end Steps

variable [FieldStore σ]

def obey (now : Nat) (call : Call) (state : SharedCache × σ) : SharedCache × σ :=
  match call with
  | .get key => (state.1.get now key state.2).2
  | .set key value => (state.1.set now key value state.2).2
  | .sweep => state.1.sweep now state.2

def afterCalls (start : SharedCache × σ) : List (Nat × Call) → SharedCache × σ
  | [] => start
  | (time, call) :: past => obey time call (afterCalls start past)

def evictMarks (key : String) (cutoff : Nat) : List String → SharedCache → σ → List Mark
  | [], _, _ => []
  | next :: keys, cache, store =>
    match cache.release? cutoff next with
    | none => evictMarks key cutoff keys cache store
    | some cache =>
      let (result, store) := FieldStore.deleteField next cache.field store
      let cache := cache.settle result
      (if cache.fault.isSome then [] else evictMarks key cutoff keys cache store) ++
        if next = key then [Mark.ofDeletion result] else []

def callMarks (key : String) (now : Nat) (call : Call) (state : SharedCache × σ) : List Mark :=
  match call with
  | .get other =>
    match (state.1.get now other state.2).1 with
    | .ok (some _) => if other = key then [.touched now] else []
    | _ => []
  | .set other _ => if other = key then [.touched now] else []
  | .sweep =>
    if state.1.fault.isSome then []
    else evictMarks key now (state.1.idleKeys now) state.1 state.2

def marksAfter (key : String) (start : SharedCache × σ) : List (Nat × Call) → List Mark
  | [] => []
  | (time, call) :: past =>
    callMarks key time call (afterCalls start past) ++ marksAfter key start past

section Calls

variable {view : σ → String → String → Option String} (dependable : Dependable view)
variable {field key : String} {ttl : Nat} {marks : List Mark} {cache : SharedCache} {store : σ}
include dependable

theorem Marked.get (marked : Marked view field ttl key marks.head? (cache, store)) (now : Nat)
    (other : String) :
    Marked view field ttl key (callMarks key now (.get other) (cache, store) ++ marks).head?
      (cache.get now other store).2 := by
  have sane : cache.fault = none := marked.sane
  have kept := dependable.getField other cache.field store
  unfold callMarks SharedCache.get refusal? read
  simp only [sane, Option.map_none]
  by_cases idle : cache.isIdle now other
  · simp only [idle, if_true]
    exact marked
  · rcases result : FieldStore.getField other cache.field store with ⟨answer, store'⟩
    rw [result] at kept
    have later := marked.withStore (congrFun (congrFun kept key) cache.field)
    simp only [idle, Bool.false_eq_true, if_false]
    rcases answer with error | _ | value
    · exact later
    · exact later
    · by_cases same : other = key
      · subst same
        simp only [if_true]
        exact later.touch now store'
      · simp only [same, if_false]
        exact later.touch_of_ne (Ne.symm same) now

theorem Marked.set (marked : Marked view field ttl key marks.head? (cache, store)) (now : Nat)
    (other value : String) :
    Marked view field ttl key (callMarks key now (.set other value) (cache, store) ++ marks).head?
      (cache.set now other value store).2 := by
  have sane : cache.fault = none := marked.sane
  unfold callMarks SharedCache.set refusal? write
  simp only [sane, Option.map_none]
  by_cases same : other = key
  · subst same
    rw [if_pos rfl]
    exact marked.touch now _
  · rw [if_neg same]
    have kept := dependable.setField other cache.field value store key (Ne.symm same)
    exact (marked.withStore kept).touch_of_ne (Ne.symm same) now

theorem Marked.delete (marked : Marked view field ttl key marks.head? (cache, store)) :
    let deletion := FieldStore.deleteField key cache.field store
    Marked view field ttl key ([Mark.ofDeletion deletion.1] ++ marks).head?
      (cache.forget key, deletion.2) := by
  intro deletion
  obtain rfl : cache.field = field := marked.own
  refine ⟨rfl, marked.ttl, marked.sane, ?_, fun newest => ?_⟩
  · rw [lastUse_forget, if_pos rfl]
    cases deletion.1 <;> rfl
  · apply dependable.deleted key cache.field store
    cases result : deletion.1 with
    | ok done => rfl
    | error error => simp [result, Mark.ofDeletion] at newest

theorem Marked.evict (inReach : InReach σ) (cutoff : Nat) (keys : List String)
    (marked : Marked view field ttl key marks.head? (cache, store)) :
    Marked view field ttl key (evictMarks key cutoff keys cache store ++ marks).head?
      (evict cutoff keys cache store) := by
  induction keys generalizing marks cache store with
  | nil => exact marked
  | cons next keys ih =>
      unfold SharedCache.evict evictMarks
      cases released : cache.release? cutoff next with
      | none => exact ih marked
      | some cache' =>
          obtain ⟨rfl, -⟩ := release?_eq_some released
          have sane : (cache.forget next).fault = none := marked.sane
          have settled := settle_eq (cache.forget next)
            (inReach next (cache.forget next).field store)
          dsimp only
          rw [settled, sane, List.append_assoc]
          apply ih
          by_cases same : next = key
          · subst same
            rw [if_pos rfl]
            exact marked.delete dependable
          · rw [if_neg same, List.nil_append]
            have kept := dependable.deleteField next cache.field store key (Ne.symm same)
            exact (marked.withStore kept).forget_of_ne (Ne.symm same)

theorem Marked.obey (inReach : InReach σ) {state : SharedCache × σ}
    (marked : Marked view field ttl key marks.head? state) (now : Nat) (call : Call) :
    Marked view field ttl key (callMarks key now call state ++ marks).head?
      (obey now call state) := by
  obtain ⟨cache, store⟩ := state
  cases call with
  | get other => exact marked.get dependable now other
  | set other value => exact marked.set dependable now other value
  | sweep =>
      have sane : cache.fault = none := marked.sane
      unfold SharedCache.obey callMarks SharedCache.sweep
      simp only [sane]
      exact marked.evict dependable inReach now (cache.idleKeys now)

theorem marked_afterCalls (inReach : InReach σ) {start : SharedCache × σ}
    (fresh : Marked view field ttl key none start) (past : List (Nat × Call)) :
    Marked view field ttl key (marksAfter key start past).head? (afterCalls start past) := by
  induction past with
  | nil => exact fresh
  | cons entry past ih => exact ih.obey dependable inReach entry.1 entry.2

theorem Marked.get_lapsed (marked : Marked view field ttl key marks.head? (cache, store)) {now : Nat}
    (lapsed : ∀ time, lastTouch? marks = some time → time + ttl < now) (value : String) :
    (cache.get now key store).1 = .ok (some value) ↔
      marks.head? = some .refused ∧
        (FieldStore.getField key cache.field store).1 = .ok (some value) := by
  have sane : cache.fault = none := marked.sane
  have answer : (cache.get now key store).1 =
      if cache.isIdle now key then .ok none else (FieldStore.getField key cache.field store).1 := by
    unfold SharedCache.get refusal? read
    simp only [sane, Option.map_none]
    by_cases idle : cache.isIdle now key
    · simp only [idle, if_true]
    · rcases result : FieldStore.getField key cache.field store with ⟨answer, store'⟩
      simp only [idle, Bool.false_eq_true, if_false]
      rcases answer with error | _ | found <;> rfl
  obtain rfl : cache.field = field := marked.own
  have absent (empty : view store key cache.field = none) :
      (FieldStore.getField key cache.field store).1 ≠ .ok (some value) := by
    intro found
    have held := dependable.found key cache.field store _ found
    rw [empty] at held
    cases held
  have time := marked.time
  rw [answer, isIdle, time]
  -- A key without marks has no value, a touch has lapsed, and only a refusal leaves a value untimed.
  cases marks with
  | nil =>
      have nothing := absent (marked.gone (.inl rfl))
      simpa using nothing
  | cons newest marks =>
      cases newest with
      | touched last =>
          have expired : isExpired cache.ttl now last = true := by
            rw [isExpired, decide_eq_true_eq, marked.ttl]
            exact Nat.lt_sub_iff_add_lt'.2 (lapsed last rfl)
          simp [Mark.time?, expired]
      | deleted =>
          have nothing := absent (marked.gone (.inr rfl))
          simpa [Mark.time?] using nothing
      | refused => simp [Mark.time?]

end Calls

/-- Whatever calls a store refuses, a key that was not touched for longer than the cache lets it idle
is found by a read only if the store refused to delete it and was not told since, and then the read
finds what the store has kept. -/
theorem lapsed_get_iff (field : String) (ttl : Nat) (refusals : List Bool)
    (past : List (Nat × Call)) {now : Nat} {key : String} :
    let start := (empty field ttl, RefusingStore.ofRefusals refusals)
    let state := afterCalls start past
    (∀ time, lastTouch? (marksAfter key start past) = some time → time + ttl < now) →
    ∀ value, (state.1.get now key state.2).1 = .ok (some value) ↔
      (marksAfter key start past).head? = some .refused ∧
        (FieldStore.getField key field state.2).1 = .ok (some value) := by
  intro start state lapsed value
  have fresh : Marked RefusingStore.view field ttl key none start :=
    ⟨rfl, rfl, rfl, rfl, fun _ => rfl⟩
  have marked := marked_afterCalls RefusingStore.dependable RefusingStore.inReach fresh past
  have found := marked.get_lapsed RefusingStore.dependable lapsed value
  rwa [show (afterCalls start past).1.field = field from marked.own] at found

theorem refused_deletion_is_read :
    let start := (empty "cookie" 1000, RefusingStore.ofRefusals [false, true])
    let past := [(2000, Call.sweep), (0, .set "447455" "v")]
    let state := afterCalls start past
    lastTouch? (marksAfter "447455" start past) = some 0 ∧
      (state.1.get 3000 "447455" state.2).1 = .ok (some "v") := by
  intro start past state
  have touched : lastTouch? (marksAfter "447455" start past) = some 0 := by decide +kernel
  have lapsed : ∀ time, lastTouch? (marksAfter "447455" start past) = some time →
      time + 1000 < 3000 := by
    intro time last
    rw [touched] at last
    cases last
    decide
  refine ⟨touched, (lapsed_get_iff "cookie" 1000 [false, true] past lapsed "v").2 ⟨?_, ?_⟩⟩
  · decide +kernel
  · decide +kernel

end SharedCache

end CredentialRelay.Cache

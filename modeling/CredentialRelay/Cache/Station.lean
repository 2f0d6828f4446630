import CredentialRelay.Cache.Local
import CredentialRelay.Cache.Shared

/-!
A cache together with its sweeper, as a machine in time. Without a period there are no sweeps. The
sweeper of a shared cache gives up one key after the other; while a key is being deleted the cache
is taken, and whoever else wants it waits for the end of that one deletion.
-/

namespace CredentialRelay.Cache

inductive AnyCache where
  | local (cache : LocalCache)
  | shared (cache : SharedCache)

inductive Phase where
  | resting (since : Nat)
  | waiting (cutoff : Nat) (keys : List String)
  | deleting (cutoff : Nat) (key : String) (keys : List String) (finish : Nat)
deriving DecidableEq, Repr

structure Station where
  cache : AnyCache
  period : Nat
  due : Nat
  phase : Phase

namespace Station

def create (cache : AnyCache) (period : Nat) : Station :=
  { cache, period, due := period, phase := .resting 0 }

def size (station : Station) : Nat :=
  match station.cache with
  | .local cache => cache.size
  | .shared cache => cache.size

/-- When the sweep after one that is due at `due` and begins at `now` is due: a period after the
former, but a period after the latter if it began more than five milliseconds late. -/
def nextDue (period : Nat) (due now : Nat) : Nat :=
  (if due + 5 < now then now else due) + period

theorem lt_nextDue {period : Nat} (positive : 0 < period) (due now : Nat) :
    due < nextDue period due now := by
  unfold nextDue; split <;> omega

def nextSweep? (horizon since : Nat) (station : Station) : Option Nat :=
  let now := max station.due since
  if 0 < station.period ∧ now ≤ horizon then some now else none

theorem of_nextSweep? {horizon since now : Nat} {station : Station}
    (h : nextSweep? horizon since station = some now) :
    0 < station.period ∧ station.due ≤ now ∧ now ≤ horizon := by
  unfold nextSweep? at h
  dsimp only at h
  split at h
  · next le => cases h; exact ⟨le.1, Nat.le_max_left .., le.2⟩
  · cases h

def giveUp (now : Nat) (delay : Nat) (cutoff : Nat) (cache : SharedCache) :
    List String → SharedCache × Phase
  | [] => (cache, .resting now)
  | key :: keys =>
    match cache.release? cutoff key with
    | none => giveUp now delay cutoff cache keys
    | some cache => (cache, .deleting cutoff key keys (now + delay))

def work : Phase → Nat
  | .resting _ => 0
  | .waiting _ keys => keys.length
  | .deleting _ _ keys _ => keys.length + 1

theorem work_giveUp (now : Nat) (delay : Nat) (cutoff : Nat) (cache : SharedCache)
    (keys : List String) : work (giveUp now delay cutoff cache keys).2 ≤ keys.length := by
  induction keys with
  | nil => simp [giveUp, work]
  | cons key keys ih =>
    unfold giveUp
    split
    · exact Nat.le_succ_of_le ih
    · simp [work]

variable {σ : Type} [FieldStore σ]

def finishDelete (key : String) (cache : SharedCache) (store : σ) : SharedCache × σ :=
  let (result, store) := FieldStore.deleteField key cache.field store
  (cache.settle result, store)

/-- The next thing the sweeper does up to and including the time `horizon`, if there is one; a
deletion takes `delay`. While the cache is `taken` by a call, a sweep that finds idle keys waits. -/
def step? (horizon delay : Nat) (taken : Bool) (station : Station) (store : σ) :
    Option (Station × σ) :=
  match station.phase, station.cache with
  | .waiting _ _, _ => none
  | .resting since, .local cache =>
    match nextSweep? horizon since station with
    | none => none
    | some now =>
      let due := nextDue station.period station.due now
      some ({ station with cache := .local (cache.sweep now), due, phase := .resting now }, store)
  | .resting since, .shared cache =>
    match nextSweep? horizon since station with
    | none => none
    | some now =>
      let due := nextDue station.period station.due now
      let keys := cache.idleKeys now
      if cache.fault.isSome then none
      else if taken && !keys.isEmpty then
        some ({ station with due, phase := .waiting now keys }, store)
      else
        let next := giveUp now delay now cache keys
        some ({ station with cache := .shared next.1, due, phase := next.2 }, store)
  | .deleting _ _ _ _, .local _ => none
  | .deleting cutoff key keys finish, .shared cache =>
    if finish ≤ horizon then
      let (cache, store) := finishDelete key cache store
      if cache.fault.isSome then
        some ({ station with cache := .shared cache, phase := .resting finish }, store)
      else
        let next := giveUp finish delay cutoff cache keys
        some ({ station with cache := .shared next.1, phase := next.2 }, store)
    else none

def remaining (horizon : Nat) (station : Station) : Nat × Nat :=
  (horizon + 1 - station.due, work station.phase)

theorem remaining_step? {horizon delay : Nat} {taken : Bool} {station : Station} {store : σ}
    {next : Station × σ} (h : step? horizon delay taken station store = some next) :
    Prod.Lex (· < ·) (· < ·) (next.1.remaining horizon) (station.remaining horizon) := by
  have later {since now : Nat} (sweep : nextSweep? horizon since station = some now) :
      horizon + 1 - nextDue station.period station.due now < horizon + 1 - station.due := by
    obtain ⟨positive, _, _⟩ := of_nextSweep? sweep
    have := lt_nextDue positive station.due now
    omega
  unfold step? at h
  dsimp only at h
  split at h
  · cases h
  · split at h
    · cases h
    · next sweep => cases h; exact .left _ _ (later sweep)
  · split at h
    · cases h
    · next sweep =>
      split at h
      · cases h
      · split at h <;> cases h <;> exact .left _ _ (later sweep)
  · cases h
  · next cutoff key keys finish cache hphase _ =>
    have all : work station.phase = keys.length + 1 := by rw [hphase]; rfl
    simp only [remaining, all]
    split at h
    · split at h
      · cases h; exact .right _ (Nat.succ_pos _)
      · cases h; exact .right _ (Nat.lt_succ_of_le (work_giveUp ..))
    · cases h

def run (horizon delay : Nat) (taken : Bool) (station : Station) (store : σ) : Station × σ :=
  match _next : step? horizon delay taken station store with
  | none => (station, store)
  | some next => run horizon delay taken next.1 next.2
termination_by station.remaining horizon
decreasing_by exact remaining_step? (by assumption)

def freeAt (now : Nat) (station : Station) : Nat :=
  match station.phase with
  | .deleting _ _ _ finish => finish
  | _ => now

def handOver (station : Station) (store : σ) : Station × σ :=
  match station.phase, station.cache with
  | .deleting cutoff key keys finish, .shared cache =>
    let (cache, store) := finishDelete key cache store
    let phase :=
      if cache.fault.isSome || keys.isEmpty then .resting finish else .waiting cutoff keys
    ({ station with cache := .shared cache, phase }, store)
  | _, _ => (station, store)

def resume (now : Nat) (delay : Nat) (station : Station) : Station :=
  match station.phase, station.cache with
  | .waiting cutoff keys, .shared cache =>
    let (cache, phase) := giveUp now delay cutoff cache keys
    { station with cache := .shared cache, phase }
  | _, _ => station

end Station

end CredentialRelay.Cache

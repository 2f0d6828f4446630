import Mathlib
import CredentialRelay.Cache.Station
import CredentialRelay.Proofs.Cache.Interleaving

namespace CredentialRelay.Cache

variable {σ : Type} [FieldStore σ]

def Phase.sweeper : Phase → Sweeper
  | resting _ => .resting
  | waiting cutoff keys => .sweeping cutoff keys
  | deleting cutoff key keys _ => .deleting cutoff key keys

/-- A world in which the cache and its sweeper are where a station has them, and no later than when
the sweeper goes on. Unless a call has `taken` the cache, only the sweeper can have it. -/
structure Embodies {σ : Type} (taken : Bool) (w : World σ) (station : Station) : Prop where
  cache : station.cache = .shared w.cache
  sweeper : w.sweeper = station.phase.sweeper
  free : taken = false → w.sweeper.holds = false → w.holder = none
  rest : ∀ since, station.phase = .resting since → w.now ≤ max station.due since
  finish : ∀ cutoff key keys time, station.phase = .deleting cutoff key keys time → w.now ≤ time

def Act.ofSweep : Act → Bool
  | quiet | erased _ _ _ => true
  | asked _ | returned _ _ => false

def Sweeps (w w' : World σ) : Prop :=
  ∃ acts, Run w acts w' ∧ ∀ act ∈ acts, act.ofSweep = true

theorem Sweeps.refl (w : World σ) : Sweeps w w := ⟨[], .nil, nofun⟩

theorem Sweeps.snoc {w w' w'' : World σ} {act : Act} (sweeps : Sweeps w w')
    (step : Step w' act w'') (own : act.ofSweep = true) : Sweeps w w'' := by
  obtain ⟨acts, run, all⟩ := sweeps
  exact ⟨_, run.snoc step, List.forall_mem_append.2 ⟨all, List.forall_mem_singleton.2 own⟩⟩

theorem Sweeps.of_step {w w' : World σ} {act : Act} (step : Step w act w')
    (own : act.ofSweep = true) : Sweeps w w' :=
  (Sweeps.refl w).snoc step own

theorem Sweeps.trans {w w' w'' : World σ} (sweeps : Sweeps w w') (next : Sweeps w' w'') :
    Sweeps w w'' := by
  obtain ⟨acts, run, all⟩ := sweeps
  obtain ⟨later, rest, all'⟩ := next
  exact ⟨_, run.trans rest, List.forall_mem_append.2 ⟨all, all'⟩⟩

theorem phase_giveUp (now delay cutoff : Nat) (cache : SharedCache) (keys : List String) :
    (Station.giveUp now delay cutoff cache keys).2 = .resting now ∨
      ∃ key rest,
        (Station.giveUp now delay cutoff cache keys).2 = .deleting cutoff key rest (now + delay) := by
  induction keys with
  | nil => exact .inl rfl
  | cons key keys ih =>
      unfold Station.giveUp
      cases cache.release? cutoff key with
      | none => exact ih
      | some cache => exact .inr ⟨key, keys, rfl⟩

theorem sweeps_giveUp {w : World σ} (delay : Nat) {cutoff : Nat} {keys : List String}
    (next : w.sweeper = .sweeping cutoff keys) (free : w.holder = none) :
    let given := Station.giveUp w.now delay cutoff w.cache keys
    ∃ w', Sweeps w w' ∧ w'.store = w.store ∧ w'.now = w.now ∧ w'.cache = given.1 ∧
      w'.sweeper = given.2.sweeper ∧ (w'.sweeper.holds = false → w'.holder = none) := by
  induction keys generalizing w with
  | nil => exact ⟨_, .of_step (.finish next) rfl, rfl, rfl, rfl, rfl, fun _ => free⟩
  | cons key keys ih =>
      unfold Station.giveUp
      cases released : w.cache.release? cutoff key with
      | none =>
          obtain ⟨w', sweeps, same⟩ := ih
            (w := { w with sweeper := .sweeping cutoff keys }) rfl free
          exact ⟨w', (Sweeps.of_step (.skip next free released) rfl).trans sweeps, same⟩
      | some cache =>
          exact ⟨_, .of_step (.take next free released) rfl, rfl, rfl, rfl, rfl, by rintro ⟨⟩⟩

theorem embodies_giveUp (taken : Bool) {w : World σ} (delay period due : Nat)
    {cutoff : Nat} {keys : List String} (next : w.sweeper = .sweeping cutoff keys)
    (free : w.holder = none) :
    let given := Station.giveUp w.now delay cutoff w.cache keys
    ∃ w', Sweeps w w' ∧ w'.store = w.store ∧
      Embodies taken w' ⟨.shared given.1, period, due, given.2⟩ := by
  intro given
  obtain ⟨w', sweeps, store, now, cache, sweeper, holder⟩ := sweeps_giveUp delay next free
  have phase := phase_giveUp w.now delay cutoff w.cache keys
  refine ⟨w', sweeps, store, ?_, sweeper, fun _ => holder, fun since resting => ?_, ?_⟩
  · exact congrArg AnyCache.shared cache.symm
  · replace resting : given.2 = .resting since := resting
    rcases phase with same | ⟨key, rest, same⟩
    · rw [show given.2 = _ from same] at resting
      cases resting
      exact now.le.trans (Nat.le_max_right due _)
    · rw [show given.2 = _ from same] at resting
      cases resting
  · intro cutoff' key keys' time deleting
    replace deleting : given.2 = .deleting cutoff' key keys' time := deleting
    rcases phase with same | ⟨key, rest, same⟩
    · rw [show given.2 = _ from same] at deleting
      cases deleting
    · rw [show given.2 = _ from same] at deleting
      cases deleting
      exact now.le.trans (Nat.le_add_right _ delay)

theorem sweeps_finishDelete {w : World σ} {cutoff finish : Nat} {key : String} {keys : List String}
    (given : w.sweeper = .deleting cutoff key keys) (order : w.now ≤ finish) :
    let done := Station.finishDelete key w.cache w.store
    Sweeps w
      { w with
        now := finish
        cache := done.1
        store := done.2
        holder := none
        sweeper := if done.1.fault.isSome then .resting else .sweeping cutoff keys } := by
  have tick := Sweeps.of_step (Step.tick order) rfl
  have erase := Sweeps.of_step (Step.erase (w := { w with now := finish }) given) rfl
  exact (tick.trans erase).snoc (.drop rfl) rfl

omit [FieldStore σ] in
theorem le_of_nextSweep? {w : World σ} {horizon since now : Nat} {station : Station}
    (rest : w.now ≤ max station.due since)
    (sweep : Station.nextSweep? horizon since station = some now) : w.now ≤ now := by
  unfold Station.nextSweep? at sweep
  dsimp only at sweep
  split at sweep
  · cases sweep
    exact rest
  · cases sweep

theorem embodies_sweep (taken : Bool) {w : World σ} (delay period due : Nat) {now : Nat}
    (resting : w.sweeper = .resting) (sane : w.cache.fault = none) (order : w.now ≤ now)
    (free : taken = false → w.holder = none)
    (idle : taken = true → w.cache.idleKeys now = []) :
    let given := Station.giveUp now delay now w.cache (w.cache.idleKeys now)
    ∃ w', Sweeps w w' ∧ w'.store = w.store ∧
      Embodies taken w' ⟨.shared given.1, period, due, given.2⟩ := by
  have start := (Sweeps.of_step (Step.tick order) rfl).snoc (.start resting sane (Nat.le_refl now)) rfl
  cases taken with
  | false =>
      obtain ⟨w', sweeps, kept⟩ := embodies_giveUp false
        (w := ⟨now, w.cache, w.store, w.holder, .sweeping now (w.cache.idleKeys now), w.calls,
          w.lastTouch⟩) delay period due rfl (free rfl)
      exact ⟨w', start.trans sweeps, kept⟩
  | true =>
      -- A sweep without keys is over before it would want the cache.
      rw [idle rfl] at start ⊢
      exact ⟨_, start.snoc (.finish rfl) rfl, rfl, rfl, rfl, nofun,
        fun since same => by cases same; exact Nat.le_max_right _ now, nofun⟩

theorem Embodies.step? {taken : Bool} {w : World σ} {station station' : Station}
    {store' : σ} (embodies : Embodies taken w station) {horizon delay : Nat}
    (step : station.step? horizon delay taken w.store = some (station', store')) :
    ∃ w', Sweeps w w' ∧ w'.store = store' ∧ Embodies taken w' station' := by
  obtain ⟨cache, period, due, phase⟩ := station
  obtain rfl : cache = .shared w.cache := embodies.cache
  unfold Station.step? at step
  cases phase with
  | waiting cutoff keys => cases step
  | resting since =>
      have resting : w.sweeper = .resting := embodies.sweeper
      have free (idle : taken = false) : w.holder = none :=
        embodies.free idle (by rw [resting]; rfl)
      dsimp only at step
      split at step
      · cases step
      · next now sweep =>
        have order := le_of_nextSweep? (embodies.rest since rfl) sweep
        split at step
        · cases step
        · next well =>
          have sane := Option.not_isSome_iff_eq_none.1 well
          split at step
          · next busy =>
            cases step
            -- A call has the cache, so the sweep waits with its keys.
            have start := (Sweeps.of_step (Step.tick order) rfl).snoc
              (.start resting sane (Nat.le_refl now)) rfl
            have held : taken = true := (Bool.and_eq_true_iff.1 busy).1
            refine ⟨_, start, rfl, rfl, rfl, fun idle => ?_, nofun, nofun⟩
            rw [held] at idle
            cases idle
          · next goes =>
            cases step
            refine embodies_sweep taken delay period _ resting sane order free fun held => ?_
            simpa [held] using goes
  | deleting cutoff key keys finish =>
      have done := sweeps_finishDelete embodies.sweeper
        (embodies.finish cutoff key keys finish rfl)
      dsimp only at step done
      split at step
      · split at step
        · next faulty =>
          cases step
          rw [if_pos faulty] at done
          exact ⟨_, done, rfl, rfl, rfl, fun _ _ => rfl,
            fun since same => by cases same; exact Nat.le_max_right _ finish, nofun⟩
        · next well =>
          cases step
          rw [if_neg well] at done
          obtain ⟨w', sweeps, kept⟩ := embodies_giveUp taken
            (w := (⟨finish, _, _, none, .sweeping cutoff keys, w.calls, w.lastTouch⟩ : World σ))
            delay period due rfl rfl
          exact ⟨w', done.trans sweeps, kept⟩
      · cases step

theorem Embodies.run {taken : Bool} {w : World σ} {station : Station}
    (embodies : Embodies taken w station) (horizon delay : Nat) :
    let swept := station.run horizon delay taken w.store
    ∃ w', Sweeps w w' ∧ w'.store = swept.2 ∧ Embodies taken w' swept.1 := by
  -- By what the sweeper does up to the horizon, one thing after the other.
  induction station, h : w.store using Station.run.induct (σ := σ) horizon delay taken
    generalizing w with
  | case1 station store last =>
      subst h
      unfold Station.run
      split
      · exact ⟨w, .refl w, rfl, embodies⟩
      · next next step => rw [last] at step; cases step
  | case2 station store next step ih =>
      subst h
      unfold Station.run
      split
      · next last => rw [last] at step; cases step
      · next next' step' =>
        rw [step] at step'
        cases step'
        obtain ⟨w', first, store, now⟩ := embodies.step? step
        obtain ⟨w'', rest, kept⟩ := ih now store
        exact ⟨w'', first.trans rest, kept⟩

theorem Embodies.handOver {w : World σ} {station : Station}
    (embodies : Embodies false w station) :
    let left := station.handOver w.store
    ∃ w', Sweeps w w' ∧ w'.store = left.2 ∧ Embodies false w' left.1 := by
  obtain ⟨cache, period, due, phase⟩ := station
  obtain rfl : cache = .shared w.cache := embodies.cache
  cases phase with
  | resting since => exact ⟨w, .refl w, rfl, embodies⟩
  | waiting cutoff keys => exact ⟨w, .refl w, rfl, embodies⟩
  | deleting cutoff key keys finish =>
      have done := sweeps_finishDelete embodies.sweeper
        (embodies.finish cutoff key keys finish rfl)
      unfold Station.handOver
      dsimp only at done ⊢
      have rested : ∀ since, Phase.resting finish = .resting since → finish ≤ max due since := by
        rintro since ⟨⟩
        exact Nat.le_max_right due finish
      cases faulty : (Station.finishDelete key w.cache w.store).1.fault.isSome with
      | true =>
          simp only [faulty, if_true, Bool.true_or] at done ⊢
          exact ⟨_, done, rfl, rfl, rfl, fun _ _ => rfl, rested, nofun⟩
      | false =>
          simp only [faulty, Bool.false_eq_true, if_false, Bool.false_or] at done ⊢
          cases keys with
          | nil =>
              exact ⟨_, done.snoc (.finish rfl) rfl, rfl, rfl, rfl, fun _ _ => rfl, rested, nofun⟩
          | cons key keys => exact ⟨_, done, rfl, rfl, rfl, fun _ _ => rfl, nofun, nofun⟩

theorem Embodies.resume {w : World σ} {station : Station}
    (embodies : Embodies false w station) (delay : Nat) :
    ∃ w', Sweeps w w' ∧ w'.store = w.store ∧
      Embodies false w' (station.resume w.now delay) := by
  obtain ⟨cache, period, due, phase⟩ := station
  obtain rfl : cache = .shared w.cache := embodies.cache
  cases phase with
  | resting since => exact ⟨w, .refl w, rfl, embodies⟩
  | waiting cutoff keys =>
      exact embodies_giveUp false delay period due embodies.sweeper
        (embodies.free rfl (by rw [embodies.sweeper]; rfl))
  | deleting cutoff key keys finish => exact ⟨w, .refl w, rfl, embodies⟩

/-- What a station does at a time: it sweeps, or leaves the cache to a call, or has it back. -/
inductive Station.Turn (taken : Bool) (now : Nat) (station : Station) (store : σ) :
    Station → σ → Prop
  | sweep (horizon delay : Nat) :
      Turn taken now station store (station.run horizon delay taken store).1
        (station.run horizon delay taken store).2
  | handOver (free : taken = false) :
      Turn taken now station store (station.handOver store).1 (station.handOver store).2
  | resume (free : taken = false) (delay : Nat) :
      Turn taken now station store (station.resume now delay) store

theorem Embodies.turn {taken : Bool} {w : World σ} {station station' : Station} {store' : σ}
    (embodies : Embodies taken w station)
    (turn : station.Turn taken w.now w.store station' store') :
    ∃ w', Sweeps w w' ∧ w'.store = store' ∧ Embodies taken w' station' := by
  cases turn with
  | sweep horizon delay => exact embodies.run horizon delay
  | handOver free =>
      subst free
      exact embodies.handOver
  | resume free delay =>
      subst free
      exact embodies.resume delay

omit [FieldStore σ] in
theorem embodies_start (field : String) (ttl period : Nat) (store : σ) :
    Embodies false (.start field ttl store) (.create (.shared (.empty field ttl)) period) :=
  ⟨rfl, rfl, fun _ _ => rfl, fun _ _ => Nat.zero_le _, nofun⟩

end CredentialRelay.Cache

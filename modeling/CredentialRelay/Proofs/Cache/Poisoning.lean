import Mathlib
import CredentialRelay.Proofs.Cache.Sparing

/-!
# Caches that have a fault

Several caches share a store, and others may change it at any time. The loop around the sweeper of a
cache ends with a sweep that met a fatal failure, and from then on the cache has a fault: it refuses
whatever comes without asking the store, and changes nothing once the calls under way are over. Other
failures do no more than leave a key behind, and the fault is that of the one cache.
-/

namespace CredentialRelay.Cache

/-! ## Several caches over one store -/

structure Member where
  cache : SharedCache
  holder : Option Holder
  sweeper : Sweeper
  calls : Nat → Option CallState
  lastTouch : String → Option Nat
  ended : Bool

structure Fleet (ι σ : Type) where
  now : Nat
  store : σ
  member : ι → Member

def Sweeper.breaksOff : Sweeper → Sweeper → Bool
  | deleted _ _ (.error error), resting => error.isFatal
  | _, _ => false

inductive Event (ι : Type) where
  | outside
  | own (i : ι) (act : Act)

namespace Fleet

variable {ι σ : Type}

def start (field : ι → String) (ttl : ι → Nat) (store : σ) : Fleet ι σ where
  now := 0
  store := store
  member i :=
    { cache := .empty (field i) (ttl i), holder := none, sweeper := .resting
      calls := fun _ => none, lastTouch := fun _ => none, ended := false }

def world (i : ι) (f : Fleet ι σ) : World σ where
  now := f.now
  store := f.store
  cache := (f.member i).cache
  holder := (f.member i).holder
  sweeper := (f.member i).sweeper
  calls := (f.member i).calls
  lastTouch := (f.member i).lastTouch

def become [DecidableEq ι] (i : ι) (w : World σ) (f : Fleet ι σ) : Fleet ι σ where
  now := w.now
  store := w.store
  member := Function.update f.member i
    { cache := w.cache, holder := w.holder, sweeper := w.sweeper, calls := w.calls,
      lastTouch := w.lastTouch
      ended := (f.member i).ended || (f.member i).sweeper.breaksOff w.sweeper }

end Fleet

variable {ι σ : Type} [DecidableEq ι] [FieldStore σ]

/-- Each cache takes the steps of a cache that has the store for itself, but that a sweep begins as
long as the loop goes on. The store may be changed from outside at any time. -/
inductive FleetStep (f : Fleet ι σ) : Event ι → Fleet ι σ → Prop
  | outside {time : Nat} (order : f.now ≤ time) (store : σ) :
      FleetStep f .outside { f with now := time, store }
  | sweep {i : ι} {cutoff : Nat} (goesOn : (f.member i).ended = false)
      (resting : (f.member i).sweeper = .resting) (order : cutoff ≤ f.now) :
      FleetStep f (.own i .quiet)
        (f.become i { f.world i with
          sweeper := .sweeping cutoff ((f.member i).cache.idleKeys cutoff) })
  | own {i : ι} {act : Act} {w : World σ} (step : Step (f.world i) act w)
      (begun : (f.member i).sweeper = .resting → w.sweeper = .resting) :
      FleetStep f (.own i act) (f.become i w)

inductive FleetRun (f : Fleet ι σ) : List (Event ι) → Fleet ι σ → Prop
  | nil : FleetRun f [] f
  | snoc {events : List (Event ι)} {event : Event ι} {f' f'' : Fleet ι σ}
      (run : FleetRun f events f') (step : FleetStep f' event f'') :
      FleetRun f (events ++ [event]) f''

/-! ## Steps of one cache -/

section World

variable {w w' : World σ} {act : Act} {reason : String}

theorem Request.fault_prepare (request : Request) (cache : SharedCache) :
    (request.prepare cache).fault = cache.fault := by
  cases request <;> rfl

omit [FieldStore σ] in
theorem fault_settleCall (request : Request) (reply : Reply) (w : World σ) :
    (w.settleCall request reply).cache.fault = w.cache.fault := by
  dsimp only [World.settleCall]
  split <;> rfl

theorem SharedCache.fault_settle {cache : SharedCache} (sane : cache.fault = none)
    (result : Except RelayError Unit) :
    (cache.settle result).fault =
      match result with
      | .error error => if error.isFatal then some error.message else none
      | .ok () => none := by
  cases result with
  | ok done => exact sane
  | error error =>
      unfold settle
      dsimp only
      split
      · rfl
      · exact sane

theorem Step.fault_cases (step : Step w act w')
    (sane : w.sweeper ≠ .resting → w.cache.fault = none) :
    (w'.cache.fault = w.cache.fault ∧ ∀ cutoff keys result,
      w.sweeper = .deleted cutoff keys result → w'.sweeper = w.sweeper) ∨
    (∃ cutoff keys error, w.sweeper = .deleted cutoff keys (.error error) ∧ error.isFatal = true ∧
      w'.cache.fault = some error.message ∧ w'.sweeper = .resting) ∨
    ∃ cutoff keys result, w.sweeper = .deleted cutoff keys result ∧
      (∀ error, result = .error error → error.isFatal = false) ∧
      w'.cache.fault = none ∧ w'.sweeper = .sweeping cutoff keys := by
  cases step with
  | @drop cutoff keys result done =>
      have settled := SharedCache.fault_settle (sane (by simp [done])) result
      dsimp only
      rw [settled]
      cases result with
      | ok _ => exact .inr (.inr ⟨cutoff, keys, .ok (), done, nofun, rfl, rfl⟩)
      | error error =>
          cases fatal : error.isFatal with
          | true => exact .inr (.inl ⟨cutoff, keys, error, done, fatal, by simp [fatal]⟩)
          | false =>
              refine .inr (.inr
                ⟨cutoff, keys, .error error, done, fun other same => ?_, by simp [fatal]⟩)
              exact Except.error.inj same ▸ fatal
  | start resting sane order => exact .inl ⟨rfl, by simp [resting]⟩
  | finish done => exact .inl ⟨rfl, by simp [done]⟩
  | skip next free used => exact .inl ⟨rfl, by simp [next]⟩
  | take next free idle =>
      obtain ⟨rfl, -⟩ := SharedCache.release?_eq_some idle
      exact .inl ⟨rfl, by simp [next]⟩
  | erase given => exact .inl ⟨rfl, by simp [given]⟩
  | @enter id request waits free goes =>
      exact .inl ⟨request.fault_prepare w.cache, fun _ _ _ _ => rfl⟩
  | leave answered => exact .inl ⟨fault_settleCall _ _ _, fun _ _ _ _ => rfl⟩
  | _ => exact .inl ⟨rfl, fun _ _ _ _ => rfl⟩

theorem Step.start_of_begun (step : Step w act w') (resting : w.sweeper = .resting)
    (begun : w'.sweeper ≠ .resting) :
    ∃ cutoff, w.cache.fault = none ∧ cutoff ≤ w.now ∧ act = .quiet ∧
      w' = { w with sweeper := .sweeping cutoff (w.cache.idleKeys cutoff) } := by
  cases step with
  | start _ sane order => exact ⟨_, sane, order, rfl, rfl⟩
  | finish done => cases resting.symm.trans done
  | skip next free used => cases resting.symm.trans next
  | take next free idle => cases resting.symm.trans next
  | erase given => cases resting.symm.trans given
  | drop done => cases resting.symm.trans done
  | _ => exact absurd resting begun

theorem refusal?_of_fault {cache : SharedCache} (faulty : cache.fault = some reason) :
    cache.refusal? = some (.storeUnavailable reason) := by
  rw [SharedCache.refusal?, faulty, Option.map_some]

theorem Step.resting_kept (step : Step w act w') (faulty : w.cache.fault = some reason)
    (resting : w.sweeper = .resting) : w'.sweeper = .resting := by
  by_contra begun
  obtain ⟨-, sane, -⟩ := step.start_of_begun resting begun
  cases sane.symm.trans faulty

theorem Step.refuse_of_begun (step : Step w act w') (faulty : w.cache.fault = some reason)
    {id : Nat} (new : w.calls id = none) (begun : w'.calls id ≠ none) :
    ∃ request, act = .returned request (.error (.storeUnavailable reason)) ∧
      w' = w.setCall id .returned := by
  -- A call that goes on was known before.
  have other {call state : CallState} {id' : Nat} (known : w.calls id' = some call)
      (begun : (w.setCall id' state).calls id ≠ none) : False := by
    rw [calls_setCall] at begun
    split at begun
    · next same => cases new.symm.trans (same ▸ known)
    · exact begun new
  cases step with
  | @refuse id' request error _ refused =>
      rw [calls_setCall] at begun
      split at begun
      · next same =>
        subst same
        cases refused.symm.trans (refusal?_of_fault faulty)
        exact ⟨request, rfl, rfl⟩
      · exact absurd new begun
  | come _ sane => cases sane.symm.trans (refusal?_of_fault faulty)
  | miss waits free idle => exact (other waits begun).elim
  | enter waits free goes => exact (other waits begun).elim
  | ask holds => exact (other holds begun).elim
  | leave answered => exact (other answered begun).elim
  | _ => exact absurd new begun

def AllReturned (calls : Nat → Option CallState) : Prop :=
  ∀ id call, calls id = some call → call = .returned

theorem Step.nothing_changed (step : Step w act w') (faulty : w.cache.fault = some reason)
    (resting : w.sweeper = .resting) (returned : AllReturned w.calls) :
    w'.store = w.store ∧ w'.cache = w.cache ∧ AllReturned w'.calls := by
  cases step with
  | tick order => exact ⟨rfl, rfl, returned⟩
  | start _ sane order => cases sane.symm.trans faulty
  | finish done => cases resting.symm.trans done
  | skip next free used => cases resting.symm.trans next
  | take next free idle => cases resting.symm.trans next
  | erase given => cases resting.symm.trans given
  | drop done => cases resting.symm.trans done
  | refuse new _ =>
      refine ⟨rfl, rfl, fun id call known => ?_⟩
      rw [calls_setCall] at known
      split at known
      · exact (Option.some.inj known).symm
      · exact returned id call known
  | come new sane => cases sane.symm.trans (refusal?_of_fault faulty)
  | miss waits free idle => cases returned _ _ waits
  | enter waits free goes => cases returned _ _ waits
  | ask holds => cases returned _ _ holds
  | leave answered => cases returned _ _ answered

end World

/-! ## Steps of a fleet -/

structure Member.Sound (m : Member) : Prop where
  ended : m.ended = m.cache.fault.isSome
  resting : m.cache.fault.isSome = true → m.sweeper = .resting

theorem Member.Sound.fault_eq_none {m : Member} (sound : m.Sound) (busy : m.sweeper ≠ .resting) :
    m.cache.fault = none :=
  Option.not_isSome_iff_eq_none.1 fun faulty => busy (sound.resting faulty)

theorem Sweeper.breaksOff_eq_false {sweeper next : Sweeper}
    (kept : ∀ cutoff keys result, sweeper = .deleted cutoff keys result → next = sweeper) :
    sweeper.breaksOff next = false := by
  cases sweeper with
  | deleted cutoff keys result =>
      rw [kept cutoff keys result rfl]
      cases result <;> rfl
  | _ => rfl

section Fleet

variable {f f' g : Fleet ι σ} {event : Event ι} {events : List (Event ι)} {i j : ι} {act : Act}
variable {w : World σ} {reason : String}

omit [FieldStore σ] in
theorem member_become (i : ι) (w : World σ) (f : Fleet ι σ) :
    (f.become i w).member i =
      { cache := w.cache, holder := w.holder, sweeper := w.sweeper, calls := w.calls,
        lastTouch := w.lastTouch
        ended := (f.member i).ended || (f.member i).sweeper.breaksOff w.sweeper } :=
  Function.update_self ..

omit [FieldStore σ] in
theorem member_become_of_ne (ne : j ≠ i) (w : World σ) (f : Fleet ι σ) :
    (f.become i w).member j = f.member j :=
  Function.update_of_ne ne ..

theorem Member.Sound.step (sound : (f.member i).Sound) (step : Step (f.world i) act w) :
    ((f.become i w).member i).Sound := by
  rw [member_become]
  obtain ⟨fault, kept⟩ | ⟨cutoff, keys, error, known, fatal, fault, resting⟩ |
    ⟨cutoff, keys, result, known, harmless, fault, goesOn⟩ := step.fault_cases sound.fault_eq_none
  · -- No deletion comes to its end, so neither the loop nor the fault is touched.
    have goesOn : (f.member i).sweeper.breaksOff w.sweeper = false :=
      Sweeper.breaksOff_eq_false kept
    constructor
    · dsimp only
      rw [goesOn, Bool.or_false, sound.ended, fault]
      rfl
    · intro faulty
      dsimp only at faulty
      obtain ⟨reason, found⟩ := Option.isSome_iff_exists.1 faulty
      have before : (f.world i).cache.fault = some reason := fault.symm.trans found
      exact step.resting_kept before (sound.resting (Option.isSome_of_eq_some before))
  · replace known : (f.member i).sweeper = .deleted cutoff keys (.error error) := known
    constructor
    · simp [known, fault, resting, Sweeper.breaksOff, fatal]
    · exact fun _ => resting
  · replace known : (f.member i).sweeper = .deleted cutoff keys result := known
    constructor
    · have begun : (f.member i).ended = false := by
        rw [sound.ended, sound.fault_eq_none (by simp [known])]
        rfl
      cases result <;> simp [known, begun, fault, goesOn, Sweeper.breaksOff]
    · simp [fault]

abbrev Fleet.Sound (f : Fleet ι σ) : Prop := ∀ i, (f.member i).Sound

theorem own_step_iff (sound : f.Sound) :
    FleetStep f (.own i act) f' ↔ ∃ w, Step (f.world i) act w ∧ f' = f.become i w := by
  constructor
  · intro step
    cases step with
    | sweep goesOn resting order =>
        have sane := (sound i).ended.symm.trans goesOn
        rw [Option.isSome_eq_false_iff, Option.isNone_iff_eq_none] at sane
        exact ⟨_, .start resting sane order, rfl⟩
    | own step _ => exact ⟨_, step, rfl⟩
  · rintro ⟨w, step, rfl⟩
    by_cases begun : (f.member i).sweeper = .resting → w.sweeper = .resting
    · exact .own step begun
    · obtain ⟨resting, begun⟩ := Classical.not_imp.1 begun
      obtain ⟨cutoff, sane, order, rfl, rfl⟩ := step.start_of_begun resting begun
      have goesOn := (sound i).ended.trans (congrArg Option.isSome sane)
      exact .sweep goesOn resting order

theorem FleetStep.member_cases (step : FleetStep f event f') (sound : f.Sound) (i : ι) :
    (f'.member i = f.member i ∧ ∀ act, event ≠ .own i act) ∨
      ∃ act w, event = .own i act ∧ Step (f.world i) act w ∧ f' = f.become i w := by
  cases event with
  | outside =>
      cases step with
      | outside order store => exact .inl ⟨rfl, nofun⟩
  | own j act =>
      obtain ⟨w, own, rfl⟩ := (own_step_iff sound).1 step
      by_cases same : i = j
      · subst same
        exact .inr ⟨act, w, rfl, own, rfl⟩
      · refine .inl ⟨member_become_of_ne same w f, fun act' event => same ?_⟩
        injection event with owner
        exact owner.symm

theorem FleetStep.sound (step : FleetStep f event f') (sound : f.Sound) : f'.Sound := by
  intro i
  obtain ⟨same, -⟩ | ⟨act, w, -, own, rfl⟩ := step.member_cases sound i
  · rw [same]
    exact sound i
  · exact (sound i).step own

theorem FleetRun.sound (run : FleetRun f events g) (sound : f.Sound) : g.Sound := by
  induction run with
  | nil => exact sound
  | snoc run step ih => exact step.sound ih

omit [DecidableEq ι] [FieldStore σ] in
theorem sound_start (field : ι → String) (ttl : ι → Nat) (store : σ) :
    (Fleet.start field ttl store).Sound :=
  fun _ => ⟨rfl, nofun⟩

/-! ## After a fatal failure -/

structure Notes (i : ι) (cutoff : Nat) (keys : List String) (error : RelayError)
    (f f' : Fleet ι σ) : Prop where
  failed : (f.member i).sweeper = .deleted cutoff keys (.error error)
  noted : (f'.member i).sweeper ≠ (f.member i).sweeper

def Fleet.answered (i : ι) (id : Nat) (f : Fleet ι σ) : Fleet ι σ :=
  f.become i ((f.world i).setCall id .returned)

def Fleet.Refuses (i : ι) (reason : String) (f : Fleet ι σ) : Prop :=
  ∀ id, (f.member i).calls id = none →
    (∀ request, FleetStep f (.own i (.returned request (.error (.storeUnavailable reason))))
      (f.answered i id)) ∧
    ∀ event f', FleetStep f event f' → (f'.member i).calls id ≠ none →
      f' = f.answered i id ∧
        ∃ request, event = .own i (.returned request (.error (.storeUnavailable reason)))

def Fleet.Still (i : ι) (f : Fleet ι σ) : Prop :=
  ∀ events g, FleetRun f events g → (g.member i).cache = (f.member i).cache ∧
    ∀ act g', FleetStep g (.own i act) g' → g'.store = g.store

structure Fleet.Poisoned (i : ι) (reason : String) (f : Fleet ι σ) : Prop where
  fault : (f.member i).cache.fault = some reason
  resting : (f.member i).sweeper = .resting
  ended : (f.member i).ended = true
  refuses : f.Refuses i reason
  still : AllReturned (f.member i).calls → f.Still i

theorem refuses_of_fault (sound : f.Sound) (faulty : (f.member i).cache.fault = some reason) :
    f.Refuses i reason := by
  intro id new
  refine ⟨fun request => ?_, fun event f' step begun => ?_⟩
  · have refused : (f.world i).cache.refusal? = some (.storeUnavailable reason) :=
      refusal?_of_fault faulty
    exact (own_step_iff sound).2 ⟨_, .refuse new refused, rfl⟩
  · obtain ⟨same, -⟩ | ⟨act, w, rfl, own, rfl⟩ := step.member_cases sound i
    · rw [same] at begun
      exact absurd new begun
    · rw [member_become] at begun
      obtain ⟨request, rfl, rfl⟩ := own.refuse_of_begun faulty new begun
      exact ⟨rfl, request, rfl⟩

theorem FleetStep.nothing_changed (step : FleetStep f event f') (sound : f.Sound)
    (faulty : (f.member i).cache.fault = some reason)
    (returned : AllReturned (f.member i).calls) :
    (f'.member i).cache = (f.member i).cache ∧ AllReturned (f'.member i).calls ∧
      ∀ act, event = .own i act → f'.store = f.store := by
  have resting := (sound i).resting (Option.isSome_of_eq_some faulty)
  obtain ⟨same, elsewhere⟩ | ⟨act, w, rfl, own, rfl⟩ := step.member_cases sound i
  · rw [same]
    exact ⟨rfl, returned, fun act event => absurd event (elsewhere act)⟩
  · obtain ⟨store, cache, calls⟩ := own.nothing_changed faulty resting returned
    rw [member_become]
    exact ⟨cache, calls, fun _ _ => store⟩

theorem FleetStep.fault_kept_or_noted (step : FleetStep f event f') (sound : f.Sound) (i : ι) :
    (f'.member i).cache.fault = (f.member i).cache.fault ∨
      ∃ cutoff keys error, Notes i cutoff keys error f f' ∧ error.isFatal = true := by
  obtain ⟨same, -⟩ | ⟨act, w, -, own, rfl⟩ := step.member_cases sound i
  · exact .inl (by rw [same])
  · rw [member_become]
    obtain ⟨fault, -⟩ | ⟨cutoff, keys, error, known, fatal, -, resting⟩ |
      ⟨cutoff, keys, result, known, -, fault, -⟩ := own.fault_cases (sound i).fault_eq_none
    · exact .inl fault
    · replace known : (f.member i).sweeper = .deleted cutoff keys (.error error) := known
      refine .inr ⟨cutoff, keys, error, ⟨known, ?_⟩, fatal⟩
      rw [member_become, known, resting]
      exact Sweeper.noConfusion
    · replace known : (f.member i).sweeper = .deleted cutoff keys result := known
      exact .inl (fault.trans ((sound i).fault_eq_none (by simp [known])).symm)

theorem Notes.elsewhere {cutoff : Nat} {keys : List String} {error : RelayError}
    (notes : Notes i cutoff keys error f f') (step : FleetStep f event f') (sound : f.Sound)
    (ne : j ≠ i) : f'.member j = f.member j := by
  obtain ⟨same, -⟩ | ⟨act, w, -, -, rfl⟩ := step.member_cases sound i
  · exact absurd (congrArg Member.sweeper same) notes.noted
  · exact member_become_of_ne ne w f

theorem Notes.outcome {cutoff : Nat} {keys : List String} {error : RelayError}
    (notes : Notes i cutoff keys error f f') (step : FleetStep f event f') (sound : f.Sound) :
    (error.isFatal = true ∧ (f'.member i).cache.fault = some error.message) ∨
      (error.isFatal = false ∧ (f'.member i).cache.fault = none ∧
        (f'.member i).sweeper = .sweeping cutoff keys) := by
  have failed := notes.failed
  obtain ⟨same, -⟩ | ⟨act, w, -, own, rfl⟩ := step.member_cases sound i
  · exact absurd (congrArg Member.sweeper same) notes.noted
  · have noted := notes.noted
    rw [member_become] at noted ⊢
    obtain ⟨-, kept⟩ | ⟨_, _, _, known, fatal, fault, -⟩ |
      ⟨_, _, _, known, harmless, fault, goesOn⟩ := own.fault_cases (sound i).fault_eq_none
    · exact absurd (kept cutoff keys (.error error) failed) noted
    · cases failed.symm.trans known
      exact .inl ⟨fatal, fault⟩
    · cases failed.symm.trans known
      exact .inr ⟨harmless error rfl, fault, goesOn⟩

theorem FleetStep.fault_kept (step : FleetStep f event f') (sound : f.Sound)
    (faulty : (f.member i).cache.fault = some reason) :
    (f'.member i).cache.fault = some reason := by
  obtain same | ⟨cutoff, keys, error, notes, -⟩ := step.fault_kept_or_noted sound i
  · exact same.trans faulty
  · cases notes.failed.symm.trans ((sound i).resting (Option.isSome_of_eq_some faulty))

theorem FleetRun.fault_kept (run : FleetRun f events g) (sound : f.Sound)
    (faulty : (f.member i).cache.fault = some reason) :
    (g.member i).cache.fault = some reason := by
  induction run with
  | nil => exact faulty
  | snoc run step ih => exact step.fault_kept (run.sound sound) ih

theorem FleetRun.nothing_changed (run : FleetRun f events g) (sound : f.Sound)
    (faulty : (f.member i).cache.fault = some reason) (returned : AllReturned (f.member i).calls) :
    (g.member i).cache = (f.member i).cache ∧ AllReturned (g.member i).calls := by
  induction run with
  | nil => exact ⟨rfl, returned⟩
  | snoc run step ih =>
      obtain ⟨cache, returned, -⟩ :=
        step.nothing_changed (run.sound sound) (run.fault_kept sound faulty) ih.2
      exact ⟨cache.trans ih.1, returned⟩

theorem still_of_fault (sound : f.Sound) (faulty : (f.member i).cache.fault = some reason)
    (returned : AllReturned (f.member i).calls) : f.Still i := by
  intro events g run
  obtain ⟨cache, later⟩ := run.nothing_changed sound faulty returned
  have faulty := run.fault_kept sound faulty
  refine ⟨cache, fun act g' step => ?_⟩
  exact (step.nothing_changed (run.sound sound) faulty later).2.2 act rfl

theorem poisoned_of_fault (sound : f.Sound) (faulty : (f.member i).cache.fault = some reason) :
    f.Poisoned i reason where
  fault := faulty
  resting := (sound i).resting (Option.isSome_of_eq_some faulty)
  ended := (sound i).ended.trans (Option.isSome_of_eq_some faulty)
  refuses := refuses_of_fault sound faulty
  still := still_of_fault sound faulty

/-- A cache has a fault from the end of a deletion that met a fatal failure on, whatever becomes of
the store, and no other way; the other caches do not notice. -/
theorem fault_lasts_alone {field : ι → String} {ttl : ι → Nat} {store : σ}
    {before : List (Event ι)} (run : FleetRun (.start field ttl store) before f)
    (step : FleetStep f event f') (i : ι) :
    ((f'.member i).cache.fault = (f.member i).cache.fault ∨
      ∃ cutoff keys error, Notes i cutoff keys error f f' ∧ error.isFatal = true) ∧
    ∀ cutoff keys error, Notes i cutoff keys error f f' →
      (error.isFatal = true → ∀ later g, FleetRun f' later g → g.Poisoned i error.message) ∧
      (error.isFatal = false → (f'.member i).cache.fault = none ∧ (f'.member i).ended = false ∧
        (f'.member i).sweeper = .sweeping cutoff keys) ∧
      ∀ j, j ≠ i → f'.member j = f.member j := by
  have sound := run.sound (sound_start field ttl store)
  have sound' := step.sound sound
  refine ⟨step.fault_kept_or_noted sound i, fun cutoff keys error notes => ⟨?_, ?_, ?_⟩⟩
  · intro fatal later g next
    obtain ⟨-, faulty⟩ | ⟨harmless, -⟩ := notes.outcome step sound
    · exact poisoned_of_fault (next.sound sound') (next.fault_kept sound' faulty)
    · cases harmless.symm.trans fatal
  · intro harmless
    obtain ⟨fatal, -⟩ | ⟨-, sane, goesOn⟩ := notes.outcome step sound
    · cases harmless.symm.trans fatal
    · exact ⟨sane, (sound' i).ended.trans (congrArg Option.isSome sane), goesOn⟩
  · exact fun j ne => notes.elsewhere step sound ne

theorem fault_outlasts_outage :
    let shared : Fleet Credential MemoryStore := .start Credential.field (fun _ => 3000) .empty
    let set : Request := .set "447455" "connect.sid=a;"
    let own : Act → Event Credential := .own .sessionCookie
    let before : List (Event Credential) :=
      [own .quiet, own .quiet, own (.asked set), own (.returned set (.ok none)), .outside, own .quiet,
        own .quiet, own (.erased "447455" 4000 (some 0))]
    ∃ f f' g, FleetRun shared before f ∧
      Notes .sessionCookie 4000 [] (.storeUnavailable "memory store is offline") f f' ∧
      FleetRun f' [.outside] g ∧ g.store.offline = false ∧
      g.Poisoned .sessionCookie "Shared store unavailable: memory store is offline" ∧
      (f'.member .accessToken).cache.fault = none := by
  intro shared set own before
  have next {f : Fleet Credential MemoryStore} {events : List (Event Credential)} {act : Act}
      {w : World MemoryStore} (run : FleetRun shared events f)
      (step : Step (f.world .sessionCookie) act w) :
      FleetStep f (own act) (f.become .sessionCookie w) :=
    (own_step_iff (run.sound (sound_start _ _ _))).2 ⟨w, step, rfl⟩
  have come : FleetRun shared _ _ := .snoc .nil (next .nil (@Step.come _ _ _ 0 set rfl rfl))
  have enter := come.snoc (next come (@Step.enter _ _ _ 0 set rfl rfl rfl))
  have ask := enter.snoc (next enter (@Step.ask _ _ _ 0 set rfl))
  have leave := ask.snoc (next ask (@Step.leave _ _ _ 0 set _ rfl))
  have down := leave.snoc (@FleetStep.outside _ _ _ _ _ 4000 (by decide +kernel) ⟨∅, true⟩)
  have sweep := down.snoc (next down (@Step.start _ _ _ 4000 rfl rfl (by decide +kernel)))
  have take := sweep.snoc (next sweep (@Step.take _ _ _ 4000 "447455" [] _ rfl rfl rfl))
  have erase := take.snoc (next take (@Step.erase _ _ _ 4000 "447455" [] rfl))
  have run : FleetRun shared before _ := erase
  have drop := next run (@Step.drop _ _ _ 4000 [] _ rfl)
  have up (f : Fleet Credential MemoryStore) :
      FleetRun f [.outside] { f with store := MemoryStore.empty } :=
    .snoc .nil (.outside le_rfl MemoryStore.empty)
  have noted : Sweeper.resting ≠ .deleted 4000 [] (.error MemoryStore.offlineError) := nofun
  obtain ⟨poisoned, -, elsewhere⟩ :=
    (fault_lasts_alone run drop .sessionCookie).2 4000 [] MemoryStore.offlineError ⟨rfl, noted⟩
  refine ⟨_, _, _, run, ⟨rfl, noted⟩, up _, rfl, poisoned rfl _ _ (up _), ?_⟩
  rw [elsewhere .accessToken nofun]
  rfl

end Fleet

end CredentialRelay.Cache

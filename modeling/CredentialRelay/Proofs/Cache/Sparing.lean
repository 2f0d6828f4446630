import Mathlib
import CredentialRelay.Proofs.Cache.Stations

/-!
# What a sweep deletes when calls come between

A sweep may come to a key long after it set out, but deletes it only if its last touch is out of date
by the sweep's own cutoff: whoever has the cache has it alone, so the time that the sweep looks at is
that of the last touch until the store has deleted the key.
-/

namespace CredentialRelay.Cache

variable {σ : Type} [FieldStore σ]

/-! ## Who has the cache -/

structure Exclusive (w : World σ) : Prop where
  call : ∀ id call, w.calls id = some call → call.holds = true → w.holder = some (.call id)
  sweeper : w.sweeper.holds = true → w.holder = some .sweeper

section Exclusive

variable {w w' : World σ} {act : Act}

omit [FieldStore σ] in
theorem calls_setCall (id other : Nat) (call : CallState) (w : World σ) :
    (w.setCall id call).calls other = if other = id then some call else w.calls other := rfl

omit [FieldStore σ] in
theorem Exclusive.noCall (exclusive : Exclusive w) {id : Nat} {call : CallState}
    (other : w.holder ≠ some (.call id)) (h : w.calls id = some call) : call.holds = false :=
  Bool.eq_false_iff.2 fun holds => other (exclusive.call id call h holds)

omit [FieldStore σ] in
theorem Exclusive.setCall (exclusive : Exclusive w) (id : Nat) (call : CallState)
    (holds : call.holds = true → w.holder = some (.call id)) : Exclusive (w.setCall id call) := by
  refine ⟨fun other state h => ?_, exclusive.sweeper⟩
  rw [calls_setCall] at h
  split at h
  · next same =>
    cases h
    exact same ▸ holds
  · exact exclusive.call other state h

theorem Exclusive.step (exclusive : Exclusive w) (step : Step w act w') : Exclusive w' := by
  cases step with
  | tick order => exact ⟨exclusive.call, exclusive.sweeper⟩
  | start resting sane order => exact ⟨exclusive.call, nofun⟩
  | finish done => exact ⟨exclusive.call, nofun⟩
  | skip next free used => exact ⟨exclusive.call, nofun⟩
  | take next free idle =>
      refine ⟨fun id call h holds => ?_, fun _ => rfl⟩
      have idle := exclusive.noCall (by simp [free]) h
      rw [holds] at idle
      cases idle
  | erase given =>
      have holder := exclusive.sweeper (by rw [given]; rfl)
      exact ⟨exclusive.call, fun _ => holder⟩
  | drop done =>
      have holder := exclusive.sweeper (by rw [done]; rfl)
      refine ⟨fun id call h holds => ?_, fun holds => ?_⟩
      · have idle := exclusive.noCall (by simp [holder]) h
        rw [holds] at idle
        cases idle
      · dsimp only at holds
        split at holds <;> cases holds
  | refuse new faulty => exact exclusive.setCall _ _ nofun
  | come new sane => exact exclusive.setCall _ _ nofun
  | miss waits free idle => exact exclusive.setCall _ _ nofun
  | @enter id request waits free goes =>
      refine ⟨fun other call h holds => ?_, fun holds => ?_⟩
      · dsimp only at h
        rw [calls_setCall] at h
        split at h
        · next same => rw [same]
        · have idle := exclusive.noCall (by simp [free]) h
          rw [holds] at idle
          cases idle
      · have holder := exclusive.sweeper holds
        rw [free] at holder
        cases holder
  | @ask id request holds =>
      have holder := exclusive.call id _ holds rfl
      have kept := exclusive.setCall id
        (.answered request (request.ask w.cache.field w.store).1) fun _ => holder
      exact ⟨kept.call, kept.sweeper⟩
  | @leave id request reply answered =>
      have holder := exclusive.call id _ answered rfl
      refine ⟨fun other call h holds => ?_, fun holds => ?_⟩
      · replace h : (w.setCall id .returned).calls other = some call := h
        rw [calls_setCall] at h
        split at h
        · cases h
          cases holds
        · next ne =>
          have idle := exclusive.noCall (by simp [holder, Ne.symm ne]) h
          rw [holds] at idle
          cases idle
      · have taken := exclusive.sweeper holds
        rw [holder] at taken
        cases taken

end Exclusive

/-! ## What a sweep deletes -/

/-- The times in the cache are those of the last touches, and the key under deletion is out of date
by the cutoff of its sweep. -/
structure Timely (w : World σ) : Prop where
  times : ∀ key time, w.cache.lastUse.get? key = some time → w.lastTouch key = some time
  lapsed : ∀ cutoff key keys, w.sweeper = .deleting cutoff key keys →
    ∃ time, w.lastTouch key = some time ∧ time + w.cache.ttl < cutoff

theorem SharedCache.isIdle_iff {now : Nat} {key : String} {cache : SharedCache} :
    cache.isIdle now key = true ↔
      ∃ time, cache.lastUse.get? key = some time ∧ time + cache.ttl < now := by
  rw [isIdle, Option.any_eq_true]
  refine exists_congr fun time => and_congr_right fun _ => ?_
  rw [isExpired, decide_eq_true_eq, Nat.lt_sub_iff_add_lt']

theorem SharedCache.settle_kept (result : Except RelayError Unit) (cache : SharedCache) :
    (cache.settle result).lastUse = cache.lastUse ∧ (cache.settle result).ttl = cache.ttl ∧
      (cache.settle result).field = cache.field := by
  cases result with
  | ok done => exact ⟨rfl, rfl, rfl⟩
  | error error =>
      unfold settle
      dsimp only
      split <;> exact ⟨rfl, rfl, rfl⟩

theorem Request.prepare_kept (request : Request) (cache : SharedCache) :
    (request.prepare cache).ttl = cache.ttl ∧ (request.prepare cache).field = cache.field ∧
      ∀ key time, (request.prepare cache).lastUse.get? key = some time →
        cache.lastUse.get? key = some time := by
  cases request with
  | get key => exact ⟨rfl, rfl, fun _ _ h => h⟩
  | set key value => exact ⟨rfl, rfl, fun _ _ h => h⟩
  | remove key =>
      refine ⟨rfl, rfl, fun other time h => ?_⟩
      rw [prepare, SharedCache.lastUse_forget] at h
      split at h
      · cases h
      · exact h

section Timely

variable {w w' : World σ} {act : Act}

theorem Step.cache_kept (step : Step w act w') :
    w'.cache.ttl = w.cache.ttl ∧ w'.cache.field = w.cache.field := by
  cases step with
  | take next free idle =>
      obtain ⟨rfl, -⟩ := SharedCache.release?_eq_some idle
      exact ⟨rfl, rfl⟩
  | @drop _ _ result done => exact (SharedCache.settle_kept result w.cache).2
  | @enter id request waits free goes =>
      obtain ⟨ttl, field, -⟩ := request.prepare_kept w.cache
      exact ⟨ttl, field⟩
  | @leave id request reply answered =>
      dsimp only [World.settleCall]
      split <;> exact ⟨rfl, rfl⟩
  | _ => exact ⟨rfl, rfl⟩

theorem Timely.step (timely : Timely w) (exclusive : Exclusive w) (step : Step w act w') :
    Timely w' := by
  cases step with
  | tick order => exact ⟨timely.times, timely.lapsed⟩
  | start resting sane order => exact ⟨timely.times, by rintro _ _ _ ⟨⟩⟩
  | finish done => exact ⟨timely.times, by rintro _ _ _ ⟨⟩⟩
  | skip next free used => exact ⟨timely.times, by rintro _ _ _ ⟨⟩⟩
  | @take cutoff key keys cache next free idle =>
      obtain ⟨rfl, old⟩ := SharedCache.release?_eq_some idle
      refine ⟨fun other time h => ?_, fun _ _ _ given => ?_⟩
      · dsimp only at h
        rw [SharedCache.lastUse_forget] at h
        split at h
        · cases h
        · exact timely.times other time h
      · cases given
        obtain ⟨time, known, late⟩ := SharedCache.isIdle_iff.1 old
        exact ⟨time, timely.times key time known, late⟩
  | erase given => exact ⟨timely.times, by rintro _ _ _ ⟨⟩⟩
  | @drop _ _ result done =>
      obtain ⟨same, -⟩ := SharedCache.settle_kept result w.cache
      refine ⟨fun key time h => timely.times key time (same ▸ h), fun cutoff key keys given => ?_⟩
      dsimp only at given
      split at given <;> cases given
  | refuse new faulty => exact ⟨timely.times, timely.lapsed⟩
  | come new sane => exact ⟨timely.times, timely.lapsed⟩
  | miss waits free idle => exact ⟨timely.times, timely.lapsed⟩
  | @enter id request waits free goes =>
      obtain ⟨ttl, -, fewer⟩ := request.prepare_kept w.cache
      refine ⟨fun key time h => timely.times key time (fewer key time h), ?_⟩
      intro cutoff key keys given
      obtain ⟨time, last, late⟩ := timely.lapsed cutoff key keys given
      exact ⟨time, last, ttl.symm ▸ late⟩
  | ask holds => exact ⟨timely.times, timely.lapsed⟩
  | @leave id request reply answered =>
      refine ⟨fun key time h => ?_, fun cutoff key keys given => ?_⟩
      · dsimp only [World.settleCall] at h ⊢
        by_cases touches : request.touches reply
        · rw [if_pos touches, SharedCache.lastUse_touch] at h
          split at h
          · next same =>
            cases h
            rw [if_pos ⟨touches, same⟩]
          · next ne =>
            rw [if_neg fun both => ne both.2]
            exact timely.times key time h
        · rw [if_neg touches] at h
          rw [if_neg fun both => touches both.1]
          exact timely.times key time h
      · -- a call that leaves had the cache, so no deletion was under way
        have taken := exclusive.sweeper (by
          rw [show w.sweeper = .deleting cutoff key keys from given]
          rfl)
        rw [exclusive.call id _ answered rfl] at taken
        cases taken

end Timely

/-! ## What the store keeps -/

def Act.Writes (key : String) : Act → Prop
  | asked (.set other _) => other = key
  | asked (.remove other) => other = key
  | erased other _ _ => other = key
  | _ => False

def Stored (view : σ → String → String → Option String) (w : World σ) : Prop :=
  ∀ id key value, w.calls id = some (.answered (.set key value) (.ok none)) →
    view w.store key w.cache.field = some value

section Stored

variable {view : σ → String → String → Option String} (dependable : Dependable view)
variable {w w' : World σ} {act : Act}
include dependable

theorem Step.view_kept (step : Step w act w') {key : String} (spared : ¬act.Writes key) :
    view w'.store key w'.cache.field = view w.store key w.cache.field := by
  rw [step.cache_kept.2]
  cases step with
  | erase given =>
      exact dependable.deleteField _ w.cache.field w.store key fun same => spared same.symm
  | @ask id request holds =>
      cases request with
      | get other => exact congrFun (congrFun (dependable.getField other _ w.store) key) _
      | set other value =>
          exact dependable.setField other _ value w.store key fun same => spared same.symm
      | remove other => exact dependable.deleteField other _ w.store key fun same => spared same.symm
  | _ => rfl

theorem stored_ask {key value : String} {field : String} {store : σ}
    (ok : (Request.ask field store (.set key value)).1 = .ok none) :
    view (Request.ask field store (.set key value)).2 key field = some value := by
  apply dependable.stored
  unfold Request.ask at ok
  dsimp only at ok
  cases result : (FieldStore.setField key field value store).1 with
  | ok done => rfl
  | error error => rw [result] at ok; cases ok

omit dependable [FieldStore σ] in
theorem answered_of_setCall {id other : Nat} {call : CallState} {request : Request} {reply : Reply}
    (pending : ∀ request reply, call ≠ .answered request reply)
    (h : (w.setCall other call).calls id = some (.answered request reply)) :
    w.calls id = some (.answered request reply) := by
  rw [calls_setCall] at h
  split at h
  · exact absurd (Option.some.inj h) (pending request reply)
  · exact h

theorem Stored.step (stored : Stored view w) (exclusive : Exclusive w) (step : Step w act w') :
    Stored view w' := by
  intro id key value answered
  have old (before : w.calls id = some (.answered (.set key value) (.ok none)))
      (spared : ¬act.Writes key) : view w'.store key w'.cache.field = some value :=
    (step.view_kept dependable spared).trans (stored id key value before)
  cases step with
  | erase given =>
      have taken := exclusive.sweeper (by rw [given]; rfl)
      rw [exclusive.call id _ answered rfl] at taken
      cases taken
  | @ask other request holds =>
      have taken := exclusive.call other _ holds rfl
      replace answered : (w.setCall other _).calls id = _ := answered
      rw [calls_setCall] at answered
      split at answered
      · have same := Option.some.inj answered
        injection same with request_eq reply_eq
        subst request_eq
        exact stored_ask dependable reply_eq
      · next ne =>
        rw [exclusive.call id _ answered rfl] at taken
        cases taken
        exact absurd rfl ne
  | refuse new faulty => exact old (answered_of_setCall (by rintro _ _ ⟨⟩) answered) nofun
  | come new sane => exact old (answered_of_setCall (by rintro _ _ ⟨⟩) answered) nofun
  | miss waits free idle => exact old (answered_of_setCall (by rintro _ _ ⟨⟩) answered) nofun
  | @enter other request waits free goes =>
      have waiting : (w.setCall other (.holding request)).calls id = _ := answered
      exact old (answered_of_setCall (by rintro _ _ ⟨⟩) waiting) nofun
  | @leave other request reply gone =>
      have left : (w.setCall other .returned).calls id = _ := answered
      exact old (answered_of_setCall (by rintro _ _ ⟨⟩) left) nofun
  | _ => exact old answered nofun

end Stored

/-! ## Runs -/

theorem Run.exclusive {w w' : World σ} {acts : List Act} (run : Run w acts w')
    (exclusive : Exclusive w) : Exclusive w' := by
  induction run with
  | nil => exact exclusive
  | snoc run step ih => exact ih.step step

theorem Run.timely {w w' : World σ} {acts : List Act} (run : Run w acts w')
    (exclusive : Exclusive w) (timely : Timely w) : Timely w' := by
  induction run with
  | nil => exact timely
  | snoc run step ih => exact ih.step (run.exclusive exclusive) step

theorem Run.cache_kept {w w' : World σ} {acts : List Act} (run : Run w acts w') :
    w'.cache.ttl = w.cache.ttl ∧ w'.cache.field = w.cache.field := by
  induction run with
  | nil => exact ⟨rfl, rfl⟩
  | snoc run step ih =>
      obtain ⟨ttl, field⟩ := step.cache_kept
      exact ⟨ttl.trans ih.1, field.trans ih.2⟩

theorem Run.stored {view : σ → String → String → Option String} (dependable : Dependable view)
    {w w' : World σ} {acts : List Act} (run : Run w acts w') (exclusive : Exclusive w)
    (stored : Stored view w) : Stored view w' := by
  induction run with
  | nil => exact stored
  | snoc run step ih => exact ih.step dependable (run.exclusive exclusive) step

omit [FieldStore σ] in
theorem exclusive_start (field : String) (ttl : Nat) (store : σ) :
    Exclusive (World.start field ttl store) :=
  ⟨nofun, nofun⟩

omit [FieldStore σ] in
theorem timely_start (field : String) (ttl : Nat) (store : σ) :
    Timely (World.start field ttl store) :=
  ⟨nofun, nofun⟩

/-- The value of a key may be another one afterwards: the store was told to set or to remove it, or
a sweep deleted it whose cutoff the last touch did not reach. -/
def Act.Ends (ttl : Nat) (key : String) : Act → Prop
  | asked (.set other _) => other = key
  | asked (.remove other) => other = key
  | erased other cutoff touched =>
    other = key ∧ ∃ time, touched = some time ∧ time + ttl < cutoff
  | _ => False

theorem Act.ends_of_writes {ttl : Nat} {key : String} {act : Act} (writes : act.Writes key)
    (late : ∀ other cutoff touched, act = .erased other cutoff touched →
      ∃ time, touched = some time ∧ time + ttl < cutoff) : act.Ends ttl key := by
  cases act with
  | quiet => exact writes
  | asked request => cases request <;> exact writes
  | returned request reply => exact writes
  | erased other cutoff touched => exact ⟨writes, late other cutoff touched rfl⟩

theorem Step.late {w w' : World σ} {key : String} {cutoff : Nat} {touched : Option Nat}
    (step : Step w (.erased key cutoff touched) w') (timely : Timely w) :
    ∃ time, touched = some time ∧ time + w.cache.ttl < cutoff := by
  cases step with
  | erase given => exact timely.lapsed _ _ _ given

theorem Step.view_of_returned {view : σ → String → String → Option String} {w w' : World σ}
    {key value : String} (step : Step w (.returned (.set key value) (.ok none)) w')
    (stored : Stored view w) : view w'.store key w'.cache.field = some value := by
  have field := step.cache_kept.2
  rw [field]
  cases step with
  | miss waits free idle => cases idle
  | leave answered => exact stored _ key value answered

theorem Run.spares {view : σ → String → String → Option String}
    (dependable : Dependable view) {field : String} {ttl : Nat} {store : σ} {acts : List Act}
    {w : World σ} (run : Run (World.start field ttl store) acts w) :
    (∀ key cutoff touched, .erased key cutoff touched ∈ acts →
      ∃ time, touched = some time ∧ time + ttl < cutoff) ∧
    ∀ before after key value, acts = before ++ .returned (.set key value) (.ok none) :: after →
      (∀ act ∈ after, ¬act.Ends ttl key) → view w.store key field = some value := by
  have exclusive := exclusive_start field ttl store
  induction run with
  | nil =>
      refine ⟨fun _ _ _ member => ?_, fun before after key value cut => ?_⟩
      · cases member
      · simp at cut
  | @snoc acts act w' w'' run step ih =>
      obtain ⟨ttl_kept, field_kept⟩ := run.cache_kept
      have late : ∀ key cutoff touched, act = .erased key cutoff touched →
          ∃ time, touched = some time ∧ time + ttl < cutoff := by
        rintro key cutoff touched rfl
        have timely := run.timely exclusive (timely_start field ttl store)
        rw [← show w'.cache.ttl = ttl from ttl_kept]
        exact step.late timely
      have stored := run.stored dependable exclusive nofun
      have own : w''.cache.field = field := step.cache_kept.2.trans field_kept
      refine ⟨fun key cutoff touched member => ?_, fun before after key value cut quiet => ?_⟩
      · rcases List.mem_append.1 member with old | new
        · exact ih.1 key cutoff touched old
        · exact late key cutoff touched (List.mem_singleton.1 new).symm
      · -- The write returned in this step, or earlier, and then the step does not end it.
        rcases List.eq_nil_or_concat after with rfl | ⟨rest, last, rfl⟩
        · obtain ⟨rfl, same⟩ := List.append_inj' cut rfl
          cases same
          rw [← own]
          exact step.view_of_returned stored
        · rw [List.concat_eq_append] at cut quiet
          rw [← List.cons_append, ← List.append_assoc] at cut
          obtain ⟨rfl, same⟩ := List.append_inj' cut rfl
          cases same
          have kept := ih.2 before rest key value rfl fun act member =>
            quiet act (List.mem_append_left _ member)
          have spared : ¬act.Writes key := fun writes =>
            quiet act (by simp) (Act.ends_of_writes writes late)
          have same := step.view_kept dependable spared
          rw [own, show w'.cache.field = field from field_kept] at same
          exact same.trans kept

/-- A sweep deletes only what was touched too long ago by its cutoff, wherever the calls come
between. So a value whose write was acknowledged stays until another write or remove of its key, or
until a sweep that finds the last touch out of date. What the sweeper of a station does is part of such
a run. -/
theorem sweep_spares_touched {view : σ → String → String → Option String}
    (dependable : Dependable view) {field : String} {ttl : Nat} {store : σ} {acts : List Act}
    {w : World σ} (run : Run (World.start field ttl store) acts w) :
    (∀ key cutoff touched, .erased key cutoff touched ∈ acts →
      ∃ time, touched = some time ∧ time + ttl < cutoff) ∧
    (∀ before after key value, acts = before ++ .returned (.set key value) (.ok none) :: after →
      (∀ act ∈ after, ¬act.Ends ttl key) → view w.store key field = some value) ∧
    (∀ period, Embodies false (World.start field ttl store)
      (.create (.shared (.empty field ttl)) period)) ∧
    ∀ taken station station' store', Embodies taken w station →
      station.Turn taken w.now w.store station' store' →
        ∃ later w', Run (World.start field ttl store) (acts ++ later) w' ∧
          (∀ act ∈ later, act.ofSweep = true) ∧ w'.store = store' ∧ Embodies taken w' station' := by
  obtain ⟨late, kept⟩ := run.spares dependable
  refine ⟨late, kept, fun period => embodies_start field ttl period store, ?_⟩
  intro taken station station' store' embodies turn
  obtain ⟨w', ⟨later, next, own⟩, same, embodies'⟩ := embodies.turn turn
  exact ⟨later, w', run.trans next, own, same, embodies'⟩

theorem rewrite_during_sweep_survives :
    let stale (key : String) : List Act :=
      [.quiet, .quiet, .asked (.set key "stale"), .returned (.set key "stale") (.ok none)]
    let during : List Act :=
      [.quiet, .quiet, .quiet, .quiet, .erased "447455" 4000 (some 0), .quiet, .quiet,
        .asked (.set "447456" "fresh")]
    let fresh : Act := .returned (.set "447456" "fresh") (.ok none)
    ∃ w, Run (World.start "cookie" 3000 (RefusingStore.ofRefusals []))
        (stale "447455" ++ stale "447456" ++ during ++ fresh :: [.quiet, .quiet]) w ∧
      RefusingStore.view w.store "447456" "cookie" = some "fresh" := by
  intro stale during fresh
  have write {w : World RefusingStore} {acts : List Act}
      (run : Run (World.start "cookie" 3000 (RefusingStore.ofRefusals [])) acts w) (id : Nat)
      (key : String) (new : w.calls id = none) (free : w.holder = none)
      (sane : w.cache.refusal? = none) :=
    (((run.snoc (@Step.come _ _ _ id (.set key "stale") new sane)).snoc
      (@Step.enter _ _ _ id _ (if_pos rfl) free rfl)).snoc
      (@Step.ask _ _ _ id _ (if_pos rfl))).snoc (@Step.leave _ _ _ id _ _ (if_pos rfl))
  have old := write (write .nil 0 "447455" rfl rfl rfl) 1 "447456" rfl rfl rfl
  have start := (old.snoc (@Step.tick _ _ _ 4000 (by decide +kernel))).snoc
    (@Step.start _ _ _ 4000 rfl rfl (by decide +kernel))
  have take := start.snoc (@Step.take _ _ _ 4000 "447455" ["447456"] _ rfl rfl rfl)
  have come := take.snoc (@Step.come _ _ _ 2 (.set "447456" "fresh") rfl rfl)
  have drop := (come.snoc (.erase rfl)).snoc (.drop rfl)
  have enter := drop.snoc (@Step.enter _ _ _ 2 (.set "447456" "fresh") rfl rfl rfl)
  have leave := (enter.snoc (@Step.ask _ _ _ 2 _ rfl)).snoc (@Step.leave _ _ _ 2 _ _ rfl)
  have finish := (leave.snoc (@Step.skip _ _ _ 4000 "447456" [] rfl rfl rfl)).snoc
    (@Step.finish _ _ _ 4000 rfl)
  have run : Run _ (stale "447455" ++ stale "447456" ++ during ++ fresh :: [.quiet, .quiet]) _ :=
    finish
  refine ⟨_, run, ?_⟩
  apply (sweep_spares_touched RefusingStore.dependable run).2.1 _ [.quiet, .quiet] _ _ rfl
  simp [Act.Ends]

end CredentialRelay.Cache

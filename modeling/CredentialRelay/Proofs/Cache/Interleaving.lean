import Mathlib
import CredentialRelay.Proofs.Cache.Eviction

/-!
# Calls and sweeps that come between each other

A shared cache, its sweeper and any number of calls, cut where one of them waits. Whoever holds the
cache has it until its own work is done, and time goes by all along. A sweep may come to a key long
after it set out, but deletes it only if its last touch is out of date by the sweep's own cutoff.
-/

namespace CredentialRelay.Cache

inductive Request where
  | get (key : String)
  | set (key value : String)
  | remove (key : String)
deriving DecidableEq, Repr

abbrev Reply := Except RelayError (Option String)

namespace Request

def key : Request → String
  | get key | set key _ | remove key => key

def misses (now : Nat) (cache : SharedCache) : Request → Bool
  | get key => cache.isIdle now key
  | _ => false

def prepare (cache : SharedCache) : Request → SharedCache
  | remove key => cache.forget key
  | _ => cache

def ask {σ : Type} [FieldStore σ] (field : String) (store : σ) : Request → Reply × σ
  | get key => FieldStore.getField key field store
  | set key value =>
    let (result, store) := FieldStore.setField key field value store
    (result.map fun _ => none, store)
  | remove key =>
    let (result, store) := FieldStore.deleteField key field store
    (result.map fun _ => none, store)

def touches : Request → Reply → Bool
  | set _ _, _ => true
  | get _, .ok (some _) => true
  | _, _ => false

end Request

inductive CallState where
  | waiting (request : Request)
  | holding (request : Request)
  | answered (request : Request) (reply : Reply)
  | returned

inductive Sweeper where
  | resting
  | sweeping (cutoff : Nat) (keys : List String)
  | deleting (cutoff : Nat) (key : String) (keys : List String)
  | deleted (cutoff : Nat) (keys : List String) (result : Except RelayError Unit)

def CallState.holds : CallState → Bool
  | holding _ | answered _ _ => true
  | _ => false

def Sweeper.holds : Sweeper → Bool
  | deleting _ _ _ | deleted _ _ _ => true
  | _ => false

inductive Holder where
  | sweeper
  | call (id : Nat)
deriving DecidableEq, Repr

structure World (σ : Type) where
  now : Nat
  cache : SharedCache
  store : σ
  holder : Option Holder
  sweeper : Sweeper
  calls : Nat → Option CallState
  lastTouch : String → Option Nat

namespace World

variable {σ : Type}

def start (field : String) (ttl : Nat) (store : σ) : World σ where
  now := 0
  cache := .empty field ttl
  store := store
  holder := none
  sweeper := .resting
  calls _ := none
  lastTouch _ := none

def setCall (id : Nat) (call : CallState) (w : World σ) : World σ :=
  { w with calls := fun other => if other = id then some call else w.calls other }

def settleCall (request : Request) (reply : Reply) (w : World σ) : World σ :=
  { w with
    cache := if request.touches reply then w.cache.touch w.now request.key else w.cache
    lastTouch := fun key =>
      if request.touches reply ∧ key = request.key then some w.now else w.lastTouch key
    holder := none }

end World

inductive Act where
  | quiet
  | asked (request : Request)
  | returned (request : Request) (reply : Reply)
  | erased (key : String) (cutoff : Nat) (touched : Option Nat)

variable {σ : Type} [FieldStore σ]

inductive Step (w : World σ) : Act → World σ → Prop
  | tick {time : Nat} (order : w.now ≤ time) : Step w .quiet { w with now := time }
  | start {cutoff : Nat} (resting : w.sweeper = .resting) (sane : w.cache.fault = none)
      (order : cutoff ≤ w.now) :
      Step w .quiet { w with sweeper := .sweeping cutoff (w.cache.idleKeys cutoff) }
  | finish {cutoff : Nat} (done : w.sweeper = .sweeping cutoff []) :
      Step w .quiet { w with sweeper := .resting }
  | skip {cutoff : Nat} {key : String} {keys : List String}
      (next : w.sweeper = .sweeping cutoff (key :: keys)) (free : w.holder = none)
      (used : w.cache.release? cutoff key = none) :
      Step w .quiet { w with sweeper := .sweeping cutoff keys }
  | take {cutoff : Nat} {key : String} {keys : List String} {cache : SharedCache}
      (next : w.sweeper = .sweeping cutoff (key :: keys)) (free : w.holder = none)
      (idle : w.cache.release? cutoff key = some cache) :
      Step w .quiet
        { w with cache, holder := some .sweeper, sweeper := .deleting cutoff key keys }
  | erase {cutoff : Nat} {key : String} {keys : List String}
      (given : w.sweeper = .deleting cutoff key keys) :
      Step w (.erased key cutoff (w.lastTouch key))
        { w with
          store := (FieldStore.deleteField key w.cache.field w.store).2
          sweeper := .deleted cutoff keys (FieldStore.deleteField key w.cache.field w.store).1 }
  | drop {cutoff : Nat} {keys : List String} {result : Except RelayError Unit}
      (done : w.sweeper = .deleted cutoff keys result) :
      Step w .quiet
        { w with
          cache := w.cache.settle result
          holder := none
          sweeper :=
            if (w.cache.settle result).fault.isSome then .resting else .sweeping cutoff keys }
  | refuse {id : Nat} {request : Request} {error : RelayError} (new : w.calls id = none)
      (faulty : w.cache.refusal? = some error) :
      Step w (.returned request (.error error)) (w.setCall id .returned)
  | come {id : Nat} {request : Request} (new : w.calls id = none)
      (sane : w.cache.refusal? = none) : Step w .quiet (w.setCall id (.waiting request))
  | miss {id : Nat} {request : Request} (waits : w.calls id = some (.waiting request))
      (free : w.holder = none) (idle : request.misses w.now w.cache = true) :
      Step w (.returned request (.ok none)) (w.setCall id .returned)
  | enter {id : Nat} {request : Request} (waits : w.calls id = some (.waiting request))
      (free : w.holder = none) (goes : request.misses w.now w.cache = false) :
      Step w .quiet
        { w.setCall id (.holding request) with
          cache := request.prepare w.cache
          holder := some (.call id) }
  | ask {id : Nat} {request : Request} (holds : w.calls id = some (.holding request)) :
      Step w (.asked request)
        { w.setCall id (.answered request (request.ask w.cache.field w.store).1) with
          store := (request.ask w.cache.field w.store).2 }
  | leave {id : Nat} {request : Request} {reply : Reply}
      (answered : w.calls id = some (.answered request reply)) :
      Step w (.returned request reply) ((w.setCall id .returned).settleCall request reply)

inductive Run (w : World σ) : List Act → World σ → Prop
  | nil : Run w [] w
  | snoc {acts : List Act} {act : Act} {w' w'' : World σ} (run : Run w acts w')
      (step : Step w' act w'') : Run w (acts ++ [act]) w''

section Alone

variable {w w' w'' : World σ} {acts later : List Act} {act : Act}

theorem Run.of_step (step : Step w act w') : Run w [act] w' := .snoc .nil step

theorem Run.trans (run : Run w acts w') (next : Run w' later w'') : Run w (acts ++ later) w'' := by
  induction next with
  | nil => rwa [List.append_nil]
  | snoc next step ih =>
      rw [← List.append_assoc]
      exact ih.snoc step

def Request.perform (now : Nat) (cache : SharedCache) (store : σ) : Request → Reply × SharedCache × σ
  | get key => cache.get now key store
  | set key value =>
    let (result, state) := cache.set now key value store
    (result.map fun _ => none, state)
  | remove key =>
    let (result, state) := cache.remove key store
    (result.map fun _ => none, state)

theorem Request.perform_refused {request : Request} {now : Nat} {cache : SharedCache} {store : σ}
    {error : RelayError} (faulty : cache.refusal? = some error) :
    request.perform now cache store = (.error error, cache, store) := by
  cases request <;> simp [perform, SharedCache.get, SharedCache.set, SharedCache.remove, faulty,
    Except.map]

theorem Request.perform_missed {request : Request} {now : Nat} {cache : SharedCache} {store : σ}
    (sane : cache.refusal? = none) (idle : request.misses now cache = true) :
    request.perform now cache store = (.ok none, cache, store) := by
  cases request with
  | get key =>
      have idle : cache.isIdle now key = true := idle
      simp [perform, SharedCache.get, sane, SharedCache.read, idle]
  | set key value => cases idle
  | remove key => cases idle

theorem Request.perform_asked {request : Request} {now : Nat} {cache : SharedCache} {store : σ}
    (sane : cache.refusal? = none) (goes : request.misses now cache = false) :
    request.perform now cache store =
      let taken := request.prepare cache
      let (reply, store) := request.ask taken.field store
      (reply, if request.touches reply then taken.touch now request.key else taken, store) := by
  cases request with
  | get key =>
      have busy : cache.isIdle now key = false := goes
      simp only [perform, SharedCache.get, sane, SharedCache.read, busy, Bool.false_eq_true,
        if_false, prepare, ask]
      split
      · next found => simp [found, touches, Request.key]
      · next reply store' none found =>
        have misses : (get key).touches reply = false := by
          unfold touches
          split
          · next same => cases same
          · next same => cases same; exact (none _ rfl).elim
          · rfl
        simp [found, misses]
  | set key value => simp [perform, SharedCache.set, sane, SharedCache.write, prepare, ask, touches,
      Request.key]
  | remove key => simp [perform, SharedCache.remove, sane, prepare, ask, touches, SharedCache.forget]

theorem call_alone {id : Nat} (new : w.calls id = none) (free : w.holder = none)
    (request : Request) :
    ∃ acts w', Run w (acts ++ [.returned request (request.perform w.now w.cache w.store).1]) w' ∧
      (w'.cache, w'.store) = (request.perform w.now w.cache w.store).2 ∧ w'.holder = none := by
  cases faulty : w.cache.refusal? with
  | some error =>
      rw [Request.perform_refused faulty]
      exact ⟨[], _, .of_step (.refuse new faulty), rfl, free⟩
  | none =>
      have waits : (w.setCall id (.waiting request)).calls id = some (.waiting request) :=
        if_pos rfl
      have come : Run w [.quiet] (w.setCall id (.waiting request)) := .of_step (.come new faulty)
      cases goes : request.misses w.now w.cache with
      | true =>
          rw [Request.perform_missed faulty goes]
          exact ⟨_, _, come.snoc (.miss waits free goes), rfl, free⟩
      | false =>
          rw [Request.perform_asked faulty goes]
          have enter := come.snoc (.enter waits free goes)
          have ask := enter.snoc (@Step.ask _ _ _ id request (if_pos rfl))
          exact ⟨_, _, ask.snoc (@Step.leave _ _ _ id request _ (if_pos rfl)), rfl, rfl⟩

theorem evict_alone {cutoff : Nat} {keys : List String} (next : w.sweeper = .sweeping cutoff keys)
    (free : w.holder = none) (sane : w.cache.fault = none) :
    ∃ acts w', Run w acts w' ∧
      (w'.cache, w'.store) = SharedCache.evict cutoff keys w.cache w.store ∧
      w'.sweeper = .resting ∧ w'.holder = none := by
  induction keys generalizing w with
  | nil => exact ⟨_, _, .of_step (.finish next), rfl, rfl, free⟩
  | cons key keys ih =>
      unfold SharedCache.evict
      cases released : w.cache.release? cutoff key with
      | none =>
          obtain ⟨acts, w', run, same⟩ := ih
            (w := { w with sweeper := .sweeping cutoff keys }) rfl free sane
          exact ⟨_, w', (Run.of_step (.skip next free released)).trans run, same⟩
      | some cache =>
          have erase := (Run.of_step (.take next free released)).snoc (.erase rfl)
          have drop := erase.snoc (.drop rfl)
          dsimp only at drop ⊢
          split
          · next faulty =>
            rw [if_pos faulty] at drop
            exact ⟨_, _, drop, rfl, rfl, rfl⟩
          · next well =>
            rw [if_neg well] at drop
            obtain ⟨acts, w', run, same⟩ := ih
              (w := ⟨w.now, _, _, none, .sweeping cutoff keys, w.calls, w.lastTouch⟩) rfl rfl
              (Option.not_isSome_iff_eq_none.1 well)
            exact ⟨_, w', drop.trans run, same⟩

theorem sweep_alone (resting : w.sweeper = .resting) (free : w.holder = none) :
    ∃ acts w', Run w acts w' ∧ (w'.cache, w'.store) = w.cache.sweep w.now w.store ∧
      w'.sweeper = .resting ∧ w'.holder = none := by
  unfold SharedCache.sweep
  split
  · exact ⟨[], w, .nil, rfl, resting, free⟩
  · next well =>
    have sane := Option.not_isSome_iff_eq_none.1 well
    obtain ⟨acts, w', run, same⟩ := evict_alone
      (w := { w with sweeper := .sweeping w.now (w.cache.idleKeys w.now) }) rfl free sane
    exact ⟨_, w', (Run.of_step (.start resting sane (Nat.le_refl _))).trans run, same⟩

end Alone

end CredentialRelay.Cache

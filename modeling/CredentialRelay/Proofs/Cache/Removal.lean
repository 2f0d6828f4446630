import Mathlib
import CredentialRelay.Proofs.Cache.Answers
import CredentialRelay.Proofs.Cache.Sparing

namespace CredentialRelay

namespace Table

variable {κ α : Type} [DecidableEq κ]

theorem keys_erase (table : Table κ α) (key : κ) :
    (table.erase key).keys = table.keys.erase key := by
  have filtered := List.Nodup.erase_eq_filter table.distinct key
  rw [keys, keys, filtered, List.filter_map]
  exact congrArg (List.map Prod.fst) (List.filter_congr fun _ _ => decide_not)

theorem size_erase (table : Table κ α) (key : κ) :
    (table.erase key).size = if (table.get? key).isSome then table.size - 1 else table.size := by
  have counted (t : Table κ α) : t.size = t.keys.length := (List.length_map _).symm
  rw [counted, counted, keys_erase, List.length_erase]
  simp only [mem_keys_iff]

theorem erase_eq_self {table : Table κ α} {key : κ} (absent : table.get? key = none) :
    table.erase key = table := by
  have others : ∀ pair ∈ table.pairs, decide (pair.1 ≠ key) = true := by
    intro pair member
    rw [get?, List.lookup_eq_none_iff] at absent
    exact decide_eq_true (Ne.symm (bne_iff_ne.1 (absent pair member)))
  cases table with
  | mk pairs distinct =>
      simp only [erase, filter]
      congr
      exact List.filter_eq_self.2 others

end Table

namespace Cache

def Turn.Spares (key : String) : Turn → Prop
  | call request => request.key ≠ key
  | sweep => True

namespace SharedCache

variable {σ : Type}

/-- The cache has no time for the key, and the store has `held` for it. -/
structure Untimed (view : σ → String → String → Option String) (field key : String)
    (held : Option String) (state : SharedCache × σ) : Prop where
  own : state.1.field = field
  time : state.1.lastUse.get? key = none
  value : view state.2 key field = held

theorem forget_eq_self_iff {cache : SharedCache} {key : String} :
    cache.forget key = cache ↔ cache.lastUse.get? key = none := by
  constructor
  · intro same
    rw [← same, lastUse_forget, if_pos rfl]
  · intro absent
    rw [forget, Table.erase_eq_self absent]

theorem size_forget (cache : SharedCache) (key : String) :
    (cache.forget key).size =
      if (cache.lastUse.get? key).isSome then cache.size - 1 else cache.size :=
  Table.size_erase cache.lastUse key

section Untimed

variable {view : σ → String → String → Option String} {field key : String} {held : Option String}
variable {cache : SharedCache} {store : σ}

theorem Untimed.isIdle (untimed : Untimed view field key held (cache, store)) (now : Nat) :
    cache.isIdle now key = false := by
  have time : cache.lastUse.get? key = none := untimed.time
  rw [SharedCache.isIdle, time]
  rfl

theorem Untimed.touch (untimed : Untimed view field key held (cache, store)) {other : String}
    (ne : key ≠ other) (now : Nat) : Untimed view field key held (cache.touch now other, store) :=
  ⟨untimed.own, by rw [lastUse_touch, if_neg ne]; exact untimed.time, untimed.value⟩

theorem Untimed.forget (untimed : Untimed view field key held (cache, store)) (other : String) :
    Untimed view field key held (cache.forget other, store) := by
  refine ⟨untimed.own, ?_, untimed.value⟩
  rw [lastUse_forget]
  split
  · rfl
  · exact untimed.time

theorem Untimed.settle (untimed : Untimed view field key held (cache, store))
    (result : Except RelayError Unit) : Untimed view field key held (cache.settle result, store) := by
  obtain ⟨times, -, own⟩ := settle_kept result cache
  exact ⟨own.trans untimed.own, (congrArg (·.get? key) times).trans untimed.time, untimed.value⟩

theorem Untimed.withStore (untimed : Untimed view field key held (cache, store)) {store' : σ}
    (same : view store' key cache.field = view store key cache.field) :
    Untimed view field key held (cache, store') := by
  obtain rfl : cache.field = field := untimed.own
  exact ⟨rfl, untimed.time, same.trans untimed.value⟩

end Untimed

variable [FieldStore σ]

def obeyTurn (now : Nat) (turn : Turn) (state : SharedCache × σ) : SharedCache × σ :=
  match turn with
  | .call request => (request.perform now state.1 state.2).2
  | .sweep => state.1.sweep now state.2

def afterTurns (start : SharedCache × σ) : List (Nat × Turn) → SharedCache × σ
  | [] => start
  | (time, turn) :: past => obeyTurn time turn (afterTurns start past)

section Turns

variable {view : σ → String → String → Option String} (dependable : Dependable view)
variable {field key : String} {held : Option String} {cache : SharedCache} {store : σ}
include dependable

theorem view_ask {request : Request} (other : request.key ≠ key) (field : String) (store : σ) :
    view (request.ask field store).2 key field = view store key field := by
  cases request with
  | get asked => exact congrFun (congrFun (dependable.getField asked field store) key) field
  | set asked value => exact dependable.setField asked field value store key other.symm
  | remove asked => exact dependable.deleteField asked field store key other.symm

theorem Untimed.perform (untimed : Untimed view field key held (cache, store)) {request : Request}
    (other : request.key ≠ key) (now : Nat) :
    Untimed view field key held (request.perform now cache store).2 := by
  cases faulty : cache.refusal? with
  | some error =>
      rw [Request.perform_refused faulty]
      exact untimed
  | none =>
      cases goes : request.misses now cache with
      | true =>
          rw [Request.perform_missed faulty goes]
          exact untimed
      | false =>
          rw [Request.perform_asked faulty goes]
          have taken : Untimed view field key held (request.prepare cache, store) := by
            cases request with
            | remove asked => exact untimed.forget asked
            | _ => exact untimed
          have asked := taken.withStore (view_ask dependable other _ store)
          dsimp only
          split
          · exact asked.touch other.symm now
          · exact asked

theorem Untimed.evict (untimed : Untimed view field key held (cache, store)) (cutoff : Nat)
    (keys : List String) : Untimed view field key held (cache.evict cutoff keys store) := by
  induction keys generalizing cache store with
  | nil => exact untimed
  | cons next keys ih =>
      unfold SharedCache.evict
      cases released : cache.release? cutoff next with
      | none => exact ih untimed
      | some freed =>
          obtain ⟨rfl, idle⟩ := release?_eq_some released
          have ne : next ≠ key := by
            rintro rfl
            rw [untimed.isIdle] at idle
            cases idle
          have kept := dependable.deleteField next (cache.forget next).field store key ne.symm
          have settled := ((untimed.forget next).withStore kept).settle
            (FieldStore.deleteField next (cache.forget next).field store).1
          dsimp only
          split
          · exact settled
          · exact ih settled

theorem Untimed.obeyTurn {state : SharedCache × σ} (untimed : Untimed view field key held state)
    {turn : Turn} (spares : turn.Spares key) (now : Nat) :
    Untimed view field key held (obeyTurn now turn state) := by
  cases turn with
  | call request => exact untimed.perform dependable spares now
  | sweep =>
      unfold SharedCache.obeyTurn SharedCache.sweep
      dsimp only
      split
      · exact untimed
      · exact untimed.evict dependable now _

theorem Untimed.afterTurns {start : SharedCache × σ} (untimed : Untimed view field key held start)
    {turns : List (Nat × Turn)} (spared : ∀ turn ∈ turns, turn.2.Spares key) :
    Untimed view field key held (afterTurns start turns) := by
  induction turns with
  | nil => exact untimed
  | cons turn turns ih =>
      rw [List.forall_mem_cons] at spared
      exact (ih spared.2).obeyTurn dependable spared.1 turn.1

omit dependable in
theorem Untimed.get_fst (untimed : Untimed view field key held (cache, store))
    (sane : cache.fault = none) (now : Nat) :
    (cache.get now key store).1 = (FieldStore.getField key field store).1 := by
  obtain rfl : cache.field = field := untimed.own
  unfold SharedCache.get refusal? read
  simp only [sane, Option.map_none, untimed.isIdle, Bool.false_eq_true, if_false]
  rcases FieldStore.getField key cache.field store with ⟨reply, store'⟩
  rcases reply with error | _ | value <;> rfl

end Turns

theorem remove_of_sane {cache : SharedCache} (sane : cache.fault = none) (key : String)
    (store : σ) :
    cache.remove key store =
      let (result, store) := FieldStore.deleteField key cache.field store
      (result, cache.forget key, store) := by
  rw [remove, refusal?, sane]
  rfl

/-- A removal that the store refuses takes the time of the key all the same, so the cache is as before
only if it had none. From then on until the next call on the key, whatever is swept and however late,
the store keeps what it has for the key, and a read answers what the store answers. -/
theorem refused_removal_untimes {view : σ → String → String → Option String}
    (dependable : Dependable view) {cache : SharedCache} {store : σ} {key : String}
    {error : RelayError} (sane : cache.fault = none)
    (refused : (cache.remove key store).1 = .error error) :
    let after := (cache.remove key store).2
    (FieldStore.deleteField key cache.field store).1 = .error error ∧
      (after.1 = cache ↔ cache.lastUse.get? key = none) ∧
      (after.1.size =
        if (cache.lastUse.get? key).isSome then cache.size - 1 else cache.size) ∧
      (∀ other, other ≠ key → after.1.lastUse.get? other = cache.lastUse.get? other ∧
        view after.2 other cache.field = view store other cache.field) ∧
      ∀ turns : List (Nat × Turn), (∀ turn ∈ turns, turn.2.Spares key) →
        let later := afterTurns after turns
        view later.2 key cache.field = view after.2 key cache.field ∧
          (later.1.fault = none → ∀ now, (later.1.get now key later.2).1 =
            (FieldStore.getField key cache.field later.2).1) := by
  intro after
  have removed := remove_of_sane sane key store
  have left : after = (cache.forget key, (FieldStore.deleteField key cache.field store).2) :=
    congrArg Prod.snd removed
  have untimed : Untimed view cache.field key (view after.2 key cache.field) after := by
    refine ⟨congrArg (·.1.field) left, ?_, rfl⟩
    rw [left, lastUse_forget, if_pos rfl]
  refine ⟨(congrArg Prod.fst removed).symm.trans refused, ?_, ?_, fun other ne => ⟨?_, ?_⟩, ?_⟩
  · rw [left]
    exact forget_eq_self_iff
  · rw [left]
    exact size_forget cache key
  · rw [left, lastUse_forget, if_neg ne]
  · rw [left]
    exact dependable.deleteField key cache.field store other ne
  · intro turns spared later
    have kept := untimed.afterTurns dependable spared
    exact ⟨kept.value, fun well now => kept.get_fst well now⟩

theorem refused_removal_is_read :
    let store := RefusingStore.ofRefusals [false, true]
    let written := ((empty "cookie" 1000).set 0 "447455" "v" store).2
    let removed := (written.1.remove "447455" written.2).2
    let later := afterTurns removed [(4000, .sweep), (2000, .call (.set "447456" "w")), (2000, .sweep)]
    removed.1 ≠ written.1 ∧ (later.1.get 5000 "447455" later.2).1 = .ok (some "v") := by
  intro store written removed later
  have refused : (written.1.remove "447455" written.2).1 = .error FaultyStore.refusal := rfl
  obtain ⟨-, same, -, -, lasting⟩ :=
    refused_removal_untimes RefusingStore.dependable rfl refused
  obtain ⟨-, reads⟩ :=
    lasting [(4000, .sweep), (2000, .call (.set "447456" "w")), (2000, .sweep)]
      (by simp [Turn.Spares, Request.key])
  have answer : (later.1.get 5000 "447455" later.2).1 =
      (FieldStore.getField "447455" written.1.field later.2).1 := reads (by decide +kernel) 5000
  refine ⟨fun unchanged => ?_, ?_⟩
  · have absent := same.1 unchanged
    revert absent
    decide +kernel
  · rw [answer]
    decide +kernel

end SharedCache

end Cache

end CredentialRelay

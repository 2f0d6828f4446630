import Mathlib
import CredentialRelay.Proofs.Cache.Interleaving
import CredentialRelay.Proofs.Cache.Lifetime

namespace CredentialRelay.Cache

inductive Turn where
  | call (request : Request)
  | sweep
deriving DecidableEq, Repr

def Timed {α : Type} (now : Nat) (past : List (Nat × α)) : Prop :=
  (now :: past.map Prod.fst).IsChain (· ≥ ·)

theorem timed_cons {α : Type} {now time : Nat} {entry : α} {past : List (Nat × α)} :
    Timed now ((time, entry) :: past) ↔ time ≤ now ∧ Timed time past := by
  rw [Timed, List.map_cons, List.isChain_cons_cons]
  rfl

theorem Timed.mono {α : Type} {now later : Nat} {past : List (Nat × α)} (timed : Timed now past)
    (order : now ≤ later) : Timed later past := by
  cases past with
  | nil => exact List.isChain_singleton later
  | cons entry past =>
      obtain ⟨time, entry⟩ := entry
      have earlier := timed_cons.1 timed
      exact timed_cons.2 ⟨earlier.1.trans order, earlier.2⟩

def callsOf (past : List (Nat × Turn)) : List (Nat × Request) :=
  past.filterMap fun (time, turn) =>
    match turn with
    | .call request => some (time, request)
    | .sweep => none

theorem Timed.calls {now : Nat} {past : List (Nat × Turn)} (timed : Timed now past) :
    Timed now (callsOf past) := by
  induction past generalizing now with
  | nil => exact timed
  | cons entry past ih =>
      obtain ⟨time, turn⟩ := entry
      obtain ⟨order, before⟩ := timed_cons.1 timed
      cases turn with
      | call request => exact timed_cons.2 ⟨order, ih before⟩
      | sweep => exact (ih before).mono order

def Request.use : Request → Use
  | get _ => .read
  | set _ value => .write value
  | remove _ => .remove

def Request.rewrites (key : String) : Request → Bool
  | get _ => false
  | set other _ | remove other => other = key

def callsOn (key : String) (calls : List (Nat × Request)) : List (Nat × Request) :=
  calls.filter fun call => call.2.key = key

def usesOf (key : String) (calls : List (Nat × Request)) : List (Nat × Use) :=
  (callsOn key calls).map fun call => (call.1, call.2.use)

theorem usesOf_cons (key : String) (time : Nat) (request : Request) (calls : List (Nat × Request)) :
    usesOf key ((time, request) :: calls) =
      if request.key = key then (time, request.use) :: usesOf key calls else usesOf key calls := by
  rw [usesOf, callsOn, List.filter_cons]
  by_cases own : request.key = key
  · simp [own, usesOf, callsOn]
  · simp [own, usesOf, callsOn]

theorem usesOf_callsOn (key : String) (calls : List (Nat × Request)) :
    usesOf key (callsOn key calls) = usesOf key calls := by
  rw [usesOf, callsOn, callsOn, List.filter_filter]
  simp [usesOf, callsOn]

structure Answer where
  time : Nat
  request : Request
  value : Option String
deriving DecidableEq, Repr

def Answer.hits (key : String) (answer : Answer) : Bool :=
  answer.request = .get key && answer.value.isSome

/-- The key was last written with this value and not removed since, and the times of that write, of
the reads since that found something and `now` are no further apart, one after the other, than
`ttl`. -/
def Alive (ttl now : Nat) (key value : String) (answers : List Answer) : Prop :=
  ∃ later time earlier, answers = later ++ ⟨time, .set key value, none⟩ :: earlier ∧
    (∀ answer ∈ later, answer.request.rewrites key = false) ∧
    (now :: ((later.filter (Answer.hits key)).map Answer.time ++ [time])).IsChain
      fun next previous => next ≤ previous + ttl

section Alive

variable {ttl now time : Nat} {key value : String} {answer : Answer} {answers : List Answer}

theorem alive_cons_set (written : String) :
    Alive ttl now key value (⟨time, .set key written, none⟩ :: answers) ↔
      written = value ∧ now ≤ time + ttl := by
  constructor
  · rintro ⟨later, time', earlier, cut, spared, chain⟩
    cases later with
    | nil =>
        cases cut
        rw [List.filter_nil, List.map_nil, List.nil_append, List.isChain_cons_cons] at chain
        exact ⟨rfl, chain.1⟩
    | cons first later =>
        cases cut
        have kept := spared _ List.mem_cons_self
        simp [Request.rewrites] at kept
  · rintro ⟨rfl, fresh⟩
    exact ⟨[], time, answers, rfl, nofun, by simpa using fresh⟩

theorem not_alive_cons_remove (found : Option String) :
    ¬Alive ttl now key value (⟨time, .remove key, found⟩ :: answers) := by
  rintro ⟨later, time', earlier, cut, spared, -⟩
  cases later with
  | nil => cases cut
  | cons first later =>
      cases cut
      have kept := spared _ List.mem_cons_self
      simp [Request.rewrites] at kept

theorem alive_cons (spared : answer.request.rewrites key = false) :
    Alive ttl now key value (answer :: answers) ↔
      if answer.hits key then now ≤ answer.time + ttl ∧ Alive ttl answer.time key value answers
      else Alive ttl now key value answers := by
  constructor
  · rintro ⟨later, time, earlier, cut, others, chain⟩
    cases later with
    | nil =>
        cases cut
        simp [Request.rewrites] at spared
    | cons first later =>
        cases cut
        rw [List.forall_mem_cons] at others
        rw [List.filter_cons] at chain
        by_cases hit : answer.hits key
        · rw [if_pos hit] at chain ⊢
          rw [List.map_cons, List.cons_append, List.isChain_cons_cons] at chain
          exact ⟨chain.1, later, time, earlier, rfl, others.2, chain.2⟩
        · rw [if_neg hit] at chain ⊢
          exact ⟨later, time, earlier, rfl, others.2, chain⟩
  · by_cases hit : answer.hits key
    · rw [if_pos hit]
      rintro ⟨fresh, later, time, earlier, rfl, others, chain⟩
      refine ⟨answer :: later, time, earlier, rfl, List.forall_mem_cons.2 ⟨spared, others⟩, ?_⟩
      rw [List.filter_cons, if_pos hit, List.map_cons, List.cons_append, List.isChain_cons_cons]
      exact ⟨fresh, chain⟩
    · rw [if_neg hit]
      rintro ⟨later, time, earlier, rfl, others, chain⟩
      refine ⟨answer :: later, time, earlier, rfl, List.forall_mem_cons.2 ⟨spared, others⟩, ?_⟩
      rwa [List.filter_cons, if_neg hit]

end Alive

theorem held?_of_later {ttl now later : Nat} {uses : List (Nat × Use)} {value : String}
    (order : now ≤ later) (held : held? ttl later uses = some value) :
    held? ttl now uses = some value := by
  cases uses with
  | nil => cases held
  | cons use uses =>
      obtain ⟨time, use⟩ := use
      unfold held? at held ⊢
      split at held
      · cases held
      · next fresh =>
        rw [if_neg fun expired => fresh (isExpired_mono order expired)]
        exact held

def Request.answer? (ttl time : Nat) (calls : List (Nat × Request)) : Request → Option String
  | get key => held? ttl time (usesOf key calls)
  | set _ _ | remove _ => none

def replay (ttl : Nat) : List (Nat × Request) → List Answer
  | [] => []
  | (time, request) :: calls =>
    ⟨time, request, request.answer? ttl time calls⟩ :: replay ttl calls

theorem answer?_callsOn (ttl time : Nat) (calls : List (Nat × Request)) (request : Request) :
    request.answer? ttl time (callsOn request.key calls) = request.answer? ttl time calls := by
  cases request with
  | get key => exact congrArg (held? ttl time) (usesOf_callsOn key calls)
  | set key value => rfl
  | remove key => rfl

theorem replay_callsOn (ttl : Nat) (key : String) (calls : List (Nat × Request)) :
    replay ttl (callsOn key calls) =
      (replay ttl calls).filter fun answer => answer.request.key = key := by
  induction calls with
  | nil => rfl
  | cons call calls ih =>
      obtain ⟨time, request⟩ := call
      rw [replay, List.filter_cons, callsOn, List.filter_cons, ← callsOn]
      by_cases own : request.key = key
      · subst own
        simp only [decide_true, if_true, replay, ih, answer?_callsOn]
      · simp only [own, decide_false, Bool.false_eq_true, if_false, ih]

theorem alive_replay_iff {ttl now : Nat} {key value : String} {calls : List (Nat × Request)}
    (timed : Timed now calls) :
    Alive ttl now key value (replay ttl calls) ↔ held? ttl now (usesOf key calls) = some value := by
  induction calls generalizing now with
  | nil =>
      constructor
      · rintro ⟨later, time, earlier, cut, -⟩
        simp [replay] at cut
      · intro held
        cases held
  | cons call calls ih =>
      obtain ⟨time, request⟩ := call
      obtain ⟨order, before⟩ := timed_cons.1 timed
      have unread := ih (before.mono order)
      rw [replay, usesOf_cons]
      by_cases own : request.key = key
      · subst own
        rw [if_pos rfl]
        cases request with
        | set key written =>
            rw [Request.answer?, Request.key, alive_cons_set, ← isExpired_eq_false, Request.use, held?]
            cases isExpired ttl now time <;> simp
        | remove key =>
            rw [Request.use, held?, Request.key]
            simp only [Request.answer?, not_alive_cons_remove, false_iff]
            split <;> exact (Option.some_ne_none value).symm
        | get key =>
            rw [Request.key] at unread ⊢
            rw [alive_cons rfl, Answer.hits, Request.answer?, Request.use, held?]
            cases found : held? ttl time (usesOf key calls) with
            | some text =>
                have alive := ih before
                rw [Request.key, found] at alive
                simp only [decide_true, Option.isSome_some, Bool.and_self, if_true, alive,
                  ← isExpired_eq_false]
                cases isExpired ttl now time <;> simp
            | none =>
                have dead : ¬Alive ttl now key value (replay ttl calls) := by
                  intro alive
                  rw [held?_of_later order (unread.1 alive)] at found
                  cases found
                simp [dead]
      · have spared : request.rewrites key = false := by
          cases request <;> simp_all [Request.rewrites, Request.key]
        have misses : request ≠ .get key := fun same => own (congrArg Request.key same)
        rw [if_neg own, alive_cons spared, if_neg (by simp [Answer.hits, misses])]
        exact unread

namespace LocalCache

def perform (now : Nat) (request : Request) (cache : LocalCache) : Option String × LocalCache :=
  match request with
  | .get key => cache.get now key
  | .set key value => (none, cache.set now key value)
  | .remove key => (none, cache.remove key)

def afterTurns (ttl : Nat) : List (Nat × Turn) → LocalCache
  | [] => .empty ttl
  | (time, .call request) :: past => ((afterTurns ttl past).perform time request).2
  | (time, .sweep) :: past => (afterTurns ttl past).sweep time

def answersTo (ttl : Nat) : List (Nat × Turn) → List Answer
  | [] => []
  | (time, .call request) :: past =>
    ⟨time, request, ((afterTurns ttl past).perform time request).1⟩ :: answersTo ttl past
  | (_, .sweep) :: past => answersTo ttl past

variable {cache : LocalCache} {key : String} {now : Nat} {calls : List (Nat × Request)}

theorem ttl_perform (now : Nat) (request : Request) (cache : LocalCache) :
    (cache.perform now request).2.ttl = cache.ttl := by
  cases request with
  | get key => exact ttl_get now key cache
  | set key value => rfl
  | remove key => rfl

theorem Follows.perform (follows : cache.Follows key now (usesOf key calls)) (request : Request) :
    (cache.perform now request).2.Follows key now (usesOf key ((now, request) :: calls)) := by
  rw [usesOf_cons]
  by_cases own : request.key = key
  · subst own
    rw [if_pos rfl]
    cases request with
    | get key => exact follows.get
    | set key value => exact follows_set now key value cache _
    | remove key => exact follows_remove now key cache _
  · rw [if_neg own]
    cases request with
    | get other => exact follows.get_of_ne (Ne.symm own) now
    | set other value => exact follows.set_of_ne (Ne.symm own) now value
    | remove other => exact follows.remove_of_ne (Ne.symm own)

theorem perform_fst (follows : ∀ key, cache.Follows key now (usesOf key calls)) (request : Request) :
    (cache.perform now request).1 = request.answer? cache.ttl now calls := by
  cases request with
  | get key => exact (follows key).get_fst
  | set key value => rfl
  | remove key => rfl

theorem follows_afterTurns (ttl : Nat) {past : List (Nat × Turn)} {now : Nat}
    (timed : Timed now past) :
    (afterTurns ttl past).ttl = ttl ∧
      ∀ key, (afterTurns ttl past).Follows key now (usesOf key (callsOf past)) := by
  induction past generalizing now with
  | nil => exact ⟨rfl, fun key => follows_empty ttl key now⟩
  | cons entry past ih =>
      obtain ⟨time, turn⟩ := entry
      obtain ⟨order, before⟩ := timed_cons.1 timed
      obtain ⟨same, follows⟩ := ih before
      cases turn with
      | call request =>
          exact ⟨(ttl_perform time request _).trans same,
            fun key => ((follows key).perform request).mono order⟩
      | sweep => exact ⟨same, fun key => (follows key).sweep.mono order⟩

theorem answersTo_eq_replay (ttl : Nat) {past : List (Nat × Turn)} {now : Nat}
    (timed : Timed now past) : answersTo ttl past = replay ttl (callsOf past) := by
  induction past generalizing now with
  | nil => rfl
  | cons entry past ih =>
      obtain ⟨time, turn⟩ := entry
      obtain ⟨-, before⟩ := timed_cons.1 timed
      have earlier := ih before
      cases turn with
      | call request =>
          obtain ⟨same, follows⟩ := follows_afterTurns ttl before
          have answer := perform_fst follows request
          rw [same] at answer
          rw [answersTo, answer, earlier]
          rfl
      | sweep => exact earlier

/-- A read finds a value if and only if the key is alive with it by the calls and answers so far. Calls
on the key are answered alike in all runs that have the same ones, whatever other calls and sweeps
come between. -/
theorem get_eq_some_iff_alive (ttl : Nat) {past : List (Nat × Turn)} {now : Nat}
    (timed : Timed now past) (key : String) :
    (∀ value, ((afterTurns ttl past).get now key).1 = some value ↔
      Alive ttl now key value (answersTo ttl past)) ∧
    ∀ past', Timed now past' → callsOn key (callsOf past') = callsOn key (callsOf past) →
      ((answersTo ttl past').filter fun answer => answer.request.key = key) =
        ((answersTo ttl past).filter fun answer => answer.request.key = key) ∧
      ((afterTurns ttl past').get now key).1 = ((afterTurns ttl past).get now key).1 := by
  have answer (turns : List (Nat × Turn)) (timed : Timed now turns) :
      ((afterTurns ttl turns).get now key).1 = held? ttl now (usesOf key (callsOf turns)) := by
    obtain ⟨same, follows⟩ := follows_afterTurns ttl timed
    rw [(follows key).get_fst, same]
  refine ⟨fun value => ?_, fun past' timed' same => ⟨?_, ?_⟩⟩
  · rw [answer past timed, answersTo_eq_replay ttl timed]
    exact (alive_replay_iff timed.calls).symm
  · rw [answersTo_eq_replay ttl timed, answersTo_eq_replay ttl timed', ← replay_callsOn,
      ← replay_callsOn, same]
  · rw [answer past timed, answer past' timed', usesOf, usesOf, same]

theorem read_keeps_alive :
    let past := [(1500, Turn.sweep), (1000, .call (.get "447455")), (900, .call (.set "other" "w")),
      (0, .call (.set "447455" "v"))]
    let unswept := [(1000, Turn.call (.get "447455")), (0, .call (.set "447455" "v"))]
    Timed 2000 past ∧ ((afterTurns 1000 past).get 2000 "447455").1 = some "v" ∧
      ((afterTurns 1000 unswept).get 2000 "447455").1 = some "v" := by
  intro past unswept
  have timed : Timed 2000 past := by simp [Timed, past]
  have timed' : Timed 2000 unswept := by simp [Timed, unswept]
  obtain ⟨found, alike⟩ := get_eq_some_iff_alive 1000 timed "447455"
  have kept : ((afterTurns 1000 past).get 2000 "447455").1 = some "v" :=
    (found "v").2 ⟨[⟨1000, .get "447455", some "v"⟩, ⟨900, .set "other" "w", none⟩], 0, [],
      by decide +kernel, by decide, by decide⟩
  exact ⟨timed, kept, ((alike unswept timed' (by decide)).2).trans kept⟩

end LocalCache

end CredentialRelay.Cache

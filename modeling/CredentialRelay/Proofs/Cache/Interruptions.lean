import Mathlib
import CredentialRelay.Proofs.Cache.Stores
import CredentialRelay.Proofs.Cache.Sweepers

namespace CredentialRelay.Cache

structure Sincere {σ : Type} [FieldStore σ] (view : σ → String → String → Option String) :
    Prop where
  getField : ∀ key field (store : σ) other field' value,
    view (FieldStore.getField key field store).2 other field' = some value →
      view store other field' = some value
  setField : ∀ key field value (store : σ) other field' value',
    view (FieldStore.setField key field value store).2 other field' = some value' →
      view store other field' = some value' ∨ other = key ∧ field' = field ∧ value' = value
  deleteField : ∀ key field (store : σ) other field' value,
    view (FieldStore.deleteField key field store).2 other field' = some value →
      view store other field' = some value

inductive Outcome where
  | done
  | failed (error : RelayError) (obeyed : Bool)
deriving DecidableEq, Repr

structure FailingStore where
  inner : MemoryStore
  outcomes : List Outcome

namespace FailingStore

def ofOutcomes (outcomes : List Outcome) : FailingStore := ⟨.empty, outcomes⟩

def view (store : FailingStore) (key field : String) : Option String := store.inner.find? key field

def answer {α : Type} (run : MemoryStore → α × MemoryStore) (store : FailingStore) :
    Except RelayError α × FailingStore :=
  match store.outcomes.headD .done with
  | .done => (.ok (run store.inner).1, ⟨(run store.inner).2, store.outcomes.tail⟩)
  | .failed error obeyed =>
    (.error error, ⟨if obeyed then (run store.inner).2 else store.inner, store.outcomes.tail⟩)

instance : FieldStore FailingStore where
  getField key field := answer fun inner => (inner.find? key field, inner)
  setField key field value := answer fun inner => ((), inner.put key field value)
  deleteField key field := answer fun inner => ((), inner.delete key field)

theorem inner_answer {α : Type} (run : MemoryStore → α × MemoryStore) (store : FailingStore) :
    (answer run store).2.inner = store.inner ∨ (answer run store).2.inner = (run store.inner).2 := by
  unfold answer
  split
  · exact .inr rfl
  · next error obeyed _ => cases obeyed <;> simp

theorem sincere : Sincere view := by
  refine ⟨?_, ?_, ?_⟩
  · intro key field store other field' value held
    have held : (answer (fun inner => (inner.find? key field, inner)) store).2.inner.find?
        other field' = some value := held
    rcases inner_answer (fun inner => (inner.find? key field, inner)) store with same | same
    all_goals
      rw [same] at held
      exact held
  · intro key field value store other field' value' held
    have held : (answer (fun inner => ((), inner.put key field value)) store).2.inner.find?
        other field' = some value' := held
    rcases inner_answer (fun inner => ((), inner.put key field value)) store with same | same
    · rw [same] at held
      exact .inl held
    · rw [same, MemoryStore.find?_put] at held
      split at held
      · next own =>
        cases held
        exact .inr ⟨own.1, own.2, rfl⟩
      · exact .inl held
  · intro key field store other field' value held
    have held : (answer (fun inner => ((), inner.delete key field)) store).2.inner.find?
        other field' = some value := held
    rcases inner_answer (fun inner => ((), inner.delete key field)) store with same | same
    · rw [same] at held
      exact held
    · rw [same, MemoryStore.find?_delete] at held
      split at held
      · cases held
      · exact held

end FailingStore

inductive Interruption where
  | clock (time : Nat)
  | sweep (credential : Credential)
deriving DecidableEq, Repr

def Interruption.apply {σ : Type} [TurnTaking σ] : Interruption → σ → σ
  | clock time => TurnTaking.setClock time
  | sweep credential => TurnTaking.sweep credential

structure Watched (σ : Type) where
  caches : σ
  plan : List (List Interruption)
  seen : List σ

namespace Watched

variable {σ : Type}

def start (caches : σ) (plan : List (List Interruption)) : Watched σ := ⟨caches, plan, [caches]⟩

def become (caches : σ) (w : Watched σ) : Watched σ := { w with caches, seen := caches :: w.seen }

def Always (holds : σ → Prop) (w : Watched σ) : Prop :=
  holds w.caches ∧ ∀ caches ∈ w.seen, holds caches

variable {holds : σ → Prop} {w : Watched σ}

theorem always_start {caches : σ} (fresh : holds caches) (plan : List (List Interruption)) :
    (start caches plan).Always holds :=
  ⟨fresh, List.forall_mem_singleton.2 fresh⟩

theorem Always.become (always : w.Always holds) {caches : σ} (next : holds caches) :
    (w.become caches).Always holds :=
  ⟨next, List.forall_mem_cons.2 ⟨next, always.2⟩⟩

variable [TurnTaking σ]

def pause (w : Watched σ) : Watched σ :=
  (w.plan.headD []).foldl (fun w interruption => w.become (interruption.apply w.caches))
    { w with plan := w.plan.tail }

def call (credential : Credential) (request : Request) (w : Watched σ) : Reply × Watched σ :=
  let w := w.pause
  match TurnTaking.refusal? credential w.caches with
  | some error => (.error error, w)
  | none =>
    let w := w.pause
    let (reply, caches) := TurnTaking.perform credential request w.caches
    (reply, w.become caches)

theorem call_undisturbed (credential : Credential) (request : Request) (caches : σ)
    (seen : List σ) :
    let called := call credential request ⟨caches, [], seen⟩
    (called.1, called.2.caches) = TurnTaking.call credential request caches := by
  unfold call TurnTaking.call
  have quiet : Watched.pause ⟨caches, [], seen⟩ = ⟨caches, [], seen⟩ := rfl
  dsimp only
  rw [quiet]
  cases TurnTaking.refusal? credential caches with
  | some error => rfl
  | none => rfl

instance : CredentialCaches (Watched σ) where
  lookup credential identity := call credential (.get identity)
  record credential identity value w :=
    let (reply, w) := w.call credential (.set identity value)
    (reply.map fun _ => (), w)

section Interrupted

variable (interrupted : ∀ (interruption : Interruption) caches, holds caches →
  holds (interruption.apply caches))
include interrupted

theorem Always.pause (always : w.Always holds) : w.pause.Always holds := by
  unfold Watched.pause
  have started : Watched.Always holds { w with plan := w.plan.tail } := always
  generalize { w with plan := w.plan.tail } = w' at started
  -- By what happens at this pause, one interruption after the other.
  induction w.plan.headD [] generalizing w' with
  | nil => exact started
  | cons interruption rest ih =>
      exact ih _ (started.become (interrupted interruption w'.caches started.1))

theorem Always.call (always : w.Always holds) {credential : Credential} {request : Request}
    (performed : ∀ caches : σ, holds caches →
      holds (TurnTaking.perform credential request caches).2) :
    (w.call credential request).2.Always holds := by
  have paused := always.pause interrupted
  unfold Watched.call
  dsimp only
  split
  · exact paused
  · have again := paused.pause interrupted
    exact again.become (performed _ again.1)

end Interrupted

end Watched

end CredentialRelay.Cache

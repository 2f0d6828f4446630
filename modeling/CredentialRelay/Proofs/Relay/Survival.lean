import Mathlib
import CredentialRelay.Proofs.Cache.Interruptions
import CredentialRelay.Proofs.Frame.Wire
import CredentialRelay.Proofs.Relay.Emission
import CredentialRelay.Proofs.Relay.Inquiries

namespace CredentialRelay.Relay
open Bytes Cache Http Http.Message

variable {σ : Type} [FieldStore σ]

namespace Inquiry

variable (inquiry : Inquiry (SharedCaches σ))

def cache : SharedCache := inquiry.caches.cache inquiry.credential

def stored : Except RelayError (Option String) :=
  (FieldStore.getField inquiry.user inquiry.cache.field inquiry.caches.store).1

def Plain : Prop :=
  ∀ error, inquiry.stored = .error error →
    (∃ reason, error = .storeUnavailable reason) ∨ ∃ reason, error = .storeRefused reason

def Unavailable (reason : String) : Prop :=
  inquiry.cache.fault = some reason ∨
    inquiry.cache.fault = none ∧ inquiry.cache.isIdle inquiry.caches.now inquiry.user = false ∧
      inquiry.stored = .error (.storeUnavailable reason)

variable {inquiry}

theorem answer_eq_error {error : RelayError} :
    inquiry.answer = .error error ↔
      (∃ reason, inquiry.cache.fault = some reason ∧ error = .storeUnavailable reason) ∨
        inquiry.cache.fault = none ∧ inquiry.cache.isIdle inquiry.caches.now inquiry.user = false ∧
          inquiry.stored = .error error := by
  have asked : inquiry.answer =
      (inquiry.cache.get inquiry.caches.now inquiry.user inquiry.caches.store).1 := rfl
  rw [asked, SharedCache.get, SharedCache.refusal?]
  cases fault : inquiry.cache.fault with
  | some reason =>
      constructor
      · rintro ⟨⟩
        exact .inl ⟨reason, rfl, rfl⟩
      · rintro (⟨_, ⟨⟩, rfl⟩ | ⟨⟨⟩, -⟩)
        rfl
  | none =>
      rw [Option.map_none, SharedCache.read, stored]
      cases idle : inquiry.cache.isIdle inquiry.caches.now inquiry.user with
      | true => simp
      | false =>
          rcases FieldStore.getField inquiry.user inquiry.cache.field inquiry.caches.store with
            ⟨_ | _ | _, _⟩ <;> simp

theorem fatal_iff_unavailable (plain : inquiry.Plain) {error : RelayError} :
    inquiry.answer = .error error ∧ error.isFatal = true ↔
      ∃ reason, error = .storeUnavailable reason ∧ inquiry.Unavailable reason := by
  rw [answer_eq_error]
  constructor
  · rintro ⟨⟨reason, poisoned, rfl⟩ | ⟨sound, fresh, failed⟩, fatal⟩
    · exact ⟨reason, rfl, .inl poisoned⟩
    · rcases plain error failed with ⟨reason, rfl⟩ | ⟨reason, rfl⟩
      · exact ⟨reason, rfl, .inr ⟨sound, fresh, failed⟩⟩
      · cases fatal
  · rintro ⟨reason, rfl, poisoned | failed⟩
    · exact ⟨.inl ⟨reason, poisoned, rfl⟩, rfl⟩
    · exact ⟨.inr failed, rfl⟩

end Inquiry

def Untouched (view : σ → String → String → Option String) : Prop :=
  ∀ key field (store : σ), view (FieldStore.getField key field store).2 = view store

theorem FailingStore.untouched : Untouched FailingStore.view := by
  intro key field store
  rcases FailingStore.inner_answer (fun inner => (inner.find? key field, inner)) store with
    same | same
  all_goals exact congrArg (fun inner other field => MemoryStore.find? other field inner) same

theorem view_lookup {view : σ → String → String → Option String} (untouched : Untouched view)
    (credential : Credential) (user : String) (caches : SharedCaches σ) :
    view (CredentialCaches.lookup credential user caches).2.store = view caches.store := by
  show view ((caches.cache credential).get caches.now user caches.store).2.2 = view caches.store
  rw [SharedCache.get]
  split
  · rfl
  · rw [SharedCache.read]
    split
    · rfl
    · have same := untouched user (caches.cache credential).field caches.store
      split
      all_goals
        next answered =>
          rw [answered] at same
          exact same

theorem renewRequest_untouched {view : σ → String → String → Option String}
    (untouched : Untouched view) (rules : Rules) (order : CookieMap.Order) (message : Message)
    (logged : Logged (SharedCaches σ)) :
    view (renewRequest rules order message logged).2.2.caches.store = view logged.caches.store := by
  let holds (after : Logged (SharedCaches σ)) : Prop :=
    view after.caches.store = view logged.caches.store
  have before : holds logged := rfl
  refine renewRequest_keeps rules order message logged (fun credential user caches same => ?_) before
  exact (view_lookup untouched credential user caches.caches).trans same

theorem isLine_line (frame : Frame) : IsLine frame.line := by
  refine ⟨Hex.encode frame.bytes, fun member => ?_, rfl⟩
  cases Hex.isAsciiBlank_of_mem_encode member

theorem lost_iff_unavailable {rules : Rules} {order : CookieMap.Order} {caches : SharedCaches σ}
    {line : Bytes} {frame : Frame} (read : Frame.ofLine line = .ok frame)
    (request : frame.kind = .request)
    (plain : ∀ inquiry ∈ (processLine rules order line (Logged.start caches)).2.inquiries,
      inquiry.Plain) (error : RelayError) :
    let run := processLine rules order line (Logged.start caches)
    run.1 = .error error ↔ ∃ reason, error = .storeUnavailable reason ∧
      ∃ inquiry ∈ run.2.inquiries, inquiry.Unavailable reason := by
  intro run
  calc run.1 = .error error
      ↔ ∃ inquiry ∈ run.2.inquiries, inquiry.answer = .error error ∧ error.isFatal = true :=
        lost_iff_failed read request
    _ ↔ ∃ inquiry ∈ run.2.inquiries, ∃ reason,
          error = .storeUnavailable reason ∧ inquiry.Unavailable reason :=
        exists_congr fun inquiry => and_congr_right fun member =>
          inquiry.fatal_iff_unavailable (plain inquiry member)
    _ ↔ _ :=
        ⟨fun ⟨inquiry, member, reason, same, unavailable⟩ =>
            ⟨reason, same, inquiry, member, unavailable⟩,
          fun ⟨reason, same, inquiry, member, unavailable⟩ =>
            ⟨inquiry, member, reason, same, unavailable⟩⟩

/-- On any store, and whatever its calls are answered, a request fails if and only if a call finds the
store out of reach. Else it goes out as one line with its header line, made of the request and of what
the calls were answered. Nothing that is stored changes. -/
theorem request_survives_store (rules : Rules) (order : CookieMap.Order) (apart : NamesApart rules)
    (caches : SharedCaches σ) {line : Bytes} {frame : Frame} (read : Frame.ofLine line = .ok frame)
    (request : frame.kind = .request) (closed : frame.message.layout.blank ≠ [])
    (plain : ∀ inquiry ∈ (processLine rules order line (Logged.start caches)).2.inquiries,
      inquiry.Plain) :
    let run := processLine rules order line (Logged.start caches)
    processLine rules order line caches = (run.1, run.2.caches) ∧
      (∀ error, run.1 = .error error ↔ ∃ reason, error = .storeUnavailable reason ∧
        ∃ inquiry ∈ run.2.inquiries, inquiry.Unavailable reason) ∧
      ((∀ inquiry ∈ run.2.inquiries, ∀ reason, ¬inquiry.Unavailable reason) →
        ∃ emitted message, run.1 = .ok (some emitted) ∧ IsLine emitted ∧
          Frame.ofLine emitted = .ok { frame with message } ∧
          ((∀ inquiry ∈ run.2.inquiries, ∀ text,
              inquiry.answer = .ok (some text) → '\n' ∉ text.toList) →
            Emitted rules order run.2.answers frame.message message)) ∧
      ∀ view : σ → String → String → Option String, Untouched view →
        view run.2.caches.store = view caches.store := by
  intro run
  have after : run.2 = (renewRequest rules order frame.message (Logged.start caches)).2.2 := by
    unfold run
    rw [processLine_of_request read request]
  have lost := lost_iff_unavailable read request plain
  refine ⟨processLine_logged read request, lost, fun available => ?_, fun view untouched => ?_⟩
  · cases sent : run.1 with
    | error error =>
        obtain ⟨reason, -, inquiry, member, unavailable⟩ := (lost error).1 sent
        exact absurd unavailable (available inquiry member reason)
    | ok out =>
        rw [processLine_eq_ok read request sent]
        have headed : frame.Headed := (Frame.ofLine_eq_ok.1 read).1
        refine ⟨_, _, rfl, isLine_line _, Frame.ofLine_line (headed.withMessage _),
          fun feedless => ?_⟩
        rw [after] at feedless ⊢
        obtain ⟨fits, same⟩ := renewed_of_logged apart.cookie feedless
        rw [same]
        exact emitted_renewed apart closed fits
  · rw [after]
    exact renewRequest_untouched untouched rules order frame.message (Logged.start caches)

def problemWithToken : Frame :=
  ⟨.request, ofText "1 next 0", ⟨ofText ("POST /api/v2/problem/main HTTP/1.1\r\n" ++
    "x-access-token: h.eyJ1c2VySUQiOjF9.old\r\n" ++
    "Cookie: connect.sid=h.eyJ1c2VySUQiOjEsImxlc3NvbkluZm8iOnt9fQ.s\r\n\r\nold")⟩⟩

def refusingCaches : SharedCaches FailingStore :=
  .empty 1000 ⟨(MemoryStore.empty.put "1" "xaccessToken" "h.eyJ1c2VySUQiOjF9.new").put "1"
    "problems" "7", [.done, .failed (.storeRefused "timed out") false]⟩

def refusedRun : Except RelayError (Option Bytes) × Logged (SharedCaches FailingStore) :=
  processLine {} .arrival problemWithToken.line (Logged.start refusingCaches)

theorem token_renewed_without_cookies :
    ∃ emitted message, refusedRun.1 = .ok (some emitted) ∧
      Frame.ofLine emitted = .ok { problemWithToken with message } ∧
      Emitted {} .arrival refusedRun.2.answers problemWithToken.message message ∧
      refusedRun.2.answers .accessToken = some "h.eyJ1c2VySUQiOjF9.new" ∧
      refusedRun.2.answers .sessionCookie = none ∧ refusedRun.2.answers .problem = none ∧
      .storeRefused "timed out" ∈ refusedRun.2.failures ∧
      FailingStore.view refusedRun.2.caches.store = FailingStore.view refusingCaches.store := by
  have read : Frame.ofLine problemWithToken.line = .ok problemWithToken :=
    Frame.ofLine_line ⟨by decide +kernel, by decide +kernel, by decide +kernel⟩
  obtain ⟨sent, told, clean, token, cookies, problem, refused⟩ :
      refusedRun.1.isOk = true ∧
      (refusedRun.2.inquiries.all fun inquiry => match inquiry.stored with
        | .error (.storeUnavailable _) | .error (.storeRefused _) | .ok _ => true
        | .error _ => false) = true ∧
      (refusedRun.2.inquiries.all fun inquiry =>
        inquiry.value?.all fun text => !text.toList.contains '\n') = true ∧
      refusedRun.2.answers .accessToken = some "h.eyJ1c2VySUQiOjF9.new" ∧
      refusedRun.2.answers .sessionCookie = none ∧ refusedRun.2.answers .problem = none ∧
      .storeRefused "timed out" ∈ refusedRun.2.failures := by
    decide +kernel
  have plain : ∀ inquiry ∈ refusedRun.2.inquiries, inquiry.Plain := by
    intro inquiry member error failed
    have told := List.all_eq_true.1 told inquiry member
    rw [failed] at told
    cases error with
    | storeUnavailable reason => exact .inl ⟨reason, rfl⟩
    | storeRefused reason => exact .inr ⟨reason, rfl⟩
    | _ => cases told
  have feedless : ∀ inquiry ∈ refusedRun.2.inquiries, ∀ text,
      inquiry.answer = .ok (some text) → '\n' ∉ text.toList := by
    intro inquiry member text answer
    have clean := List.all_eq_true.1 clean inquiry member
    simpa [Inquiry.value?, answer] using clean
  have survives := request_survives_store {} .arrival ⟨by decide, by decide⟩ refusingCaches read rfl
    (by decide +kernel)
  rw [← refusedRun] at survives
  obtain ⟨-, failed, survived, kept⟩ := survives plain
  obtain ⟨emitted, message, out, -, back, made⟩ := survived
    fun inquiry member reason unavailable => by
      rw [(failed _).2 ⟨reason, rfl, inquiry, member, unavailable⟩] at sent
      cases sent
  exact ⟨emitted, message, out, back, made feedless, token, cookies, problem, refused,
    kept _ FailingStore.untouched⟩

end CredentialRelay.Relay

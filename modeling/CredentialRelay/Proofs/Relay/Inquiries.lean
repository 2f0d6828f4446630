import Mathlib
import CredentialRelay.Proofs.Relay.Renewal
import CredentialRelay.Relay.Stream

namespace CredentialRelay.Relay
open Bytes Cache Http Http.Message

section
variable {σ : Type} [CredentialCaches σ]

structure Inquiry (σ : Type) where
  credential : Credential
  user : String
  caches : σ

namespace Inquiry

def answer (inquiry : Inquiry σ) : Except RelayError (Option String) :=
  (CredentialCaches.lookup inquiry.credential inquiry.user inquiry.caches).1

def value? (inquiry : Inquiry σ) : Option String :=
  match inquiry.answer with
  | .ok value => value
  | .error _ => none

def failure? (inquiry : Inquiry σ) : Option RelayError :=
  match inquiry.answer with
  | .ok _ => none
  | .error error => some error

end Inquiry

def answered (inquiries : List (Inquiry σ)) (credential : Credential) : Option String :=
  inquiries.findSome? fun inquiry =>
    if inquiry.credential = credential then inquiry.value? else none

structure Logged (σ : Type) where
  caches : σ
  inquiries : List (Inquiry σ)

namespace Logged

def start (caches : σ) : Logged σ := ⟨caches, []⟩

instance : CredentialCaches (Logged σ) where
  lookup credential identity logged :=
    let (answer, caches) := CredentialCaches.lookup credential identity logged.caches
    (answer, ⟨caches, logged.inquiries ++ [⟨credential, identity, logged.caches⟩]⟩)
  record credential identity value logged :=
    let (result, caches) := CredentialCaches.record credential identity value logged.caches
    (result, { logged with caches })

def failures (logged : Logged σ) : List RelayError := logged.inquiries.filterMap Inquiry.failure?

def answers (logged : Logged σ) : Credential → Option String := answered logged.inquiries

variable {logged logged' : Logged σ} {credential : Credential} {user value : Option String}
  {text : String} {error : RelayError}

theorem ask_ok (asked : ask credential user logged = (.ok value, logged')) :
    logged'.failures = logged.failures ∧ (value ≠ none → ∃ asker, user = some asker) ∧
      ∀ other, logged'.answers other =
        (logged.answers other).or (if credential = other then value else none) := by
  cases user with
  | none =>
      cases asked
      simp
  | some asker =>
      let inquiry : Inquiry σ := ⟨credential, asker, logged.caches⟩
      obtain ⟨answer, rfl⟩ := Prod.mk.inj asked
      have answer : inquiry.answer = .ok value := answer
      refine ⟨?_, fun _ => ⟨asker, rfl⟩, fun other => ?_⟩
      · show (logged.inquiries ++ [inquiry]).filterMap _ = _
        simp [failures, Inquiry.failure?, answer]
      · show answered (logged.inquiries ++ [inquiry]) other = _
        rw [answered, List.findSome?_append, ← answered]
        simp [Inquiry.value?, answer, inquiry, answers]

theorem ask_error (asked : ask credential user logged = (.error error, logged')) :
    logged'.failures = logged.failures ++ [error] ∧ logged'.answers = logged.answers := by
  cases user with
  | none => cases asked
  | some asker =>
      let inquiry : Inquiry σ := ⟨credential, asker, logged.caches⟩
      obtain ⟨answer, rfl⟩ := Prod.mk.inj asked
      have answer : inquiry.answer = .error error := answer
      constructor
      · show (logged.inquiries ++ [inquiry]).filterMap _ = _
        simp [failures, Inquiry.failure?, answer]
      · funext other
        show answered (logged.inquiries ++ [inquiry]) other = _
        rw [answered, List.findSome?_append, ← answered]
        simp [Inquiry.value?, answer, answers]

theorem mem_failures :
    error ∈ logged.failures ↔ ∃ inquiry ∈ logged.inquiries, inquiry.answer = .error error := by
  have failing (inquiry : Inquiry σ) :
      inquiry.failure? = some error ↔ inquiry.answer = .error error := by
    unfold Inquiry.failure?
    cases inquiry.answer <;> simp
  simp only [failures, List.mem_filterMap, failing]

theorem answers_eq_some (answer : logged.answers credential = some text) :
    ∃ inquiry ∈ logged.inquiries, inquiry.answer = .ok (some text) := by
  obtain ⟨inquiry, member, found⟩ := List.exists_of_findSome?_eq_some answer
  split at found
  · refine ⟨inquiry, member, ?_⟩
    unfold Inquiry.value? at found
    split at found
    · next told => rw [told, found]
    · cases found
  · cases found

end Logged

variable (rules : Rules) (order : CookieMap.Order) (message : Message) (caches : σ)

theorem renewRequest_logged :
    let run := renewRequest rules order message (Logged.start caches)
    let answers := run.2.2.answers
    let tokened := withToken rules (answers .accessToken) message
    (∀ error, run.2.1 = .error error ↔ error ∈ run.2.2.failures) ∧
      (answers .accessToken ≠ none → ∃ user, bearer? rules message = some user) ∧
      (answers .sessionCookie ≠ none → ∃ user, cookieUser? rules tokened = some user) ∧
      run.1 = withForm? (form? rules
          (session? (answers .sessionCookie) (ownSession? rules tokened) rules) (answers .problem))
        (withCookies order (answers .sessionCookie) tokened) := by
  have renews := renewRequest_renews rules order message (Logged.start caches)
  have quiet : (Logged.start caches).failures = [] := rfl
  have unasked (credential) : (Logged.start caches).answers credential = none := rfl
  generalize renewRequest rules order message (Logged.start caches) = run at renews
  -- A question that was not reached has no answer, and no answer changes nothing. So the edits of a
  -- run that ends early are those of a whole run with the answers it had.
  have alone (failure error : RelayError) :
      (Except.error failure : Except RelayError Unit) = .error error ↔ error ∈ [failure] := by
    rw [Except.error.injEq, List.mem_singleton, eq_comm]
  cases renews with
  | token asked =>
      obtain ⟨failed, same⟩ := Logged.ask_error asked
      simp only [failed, quiet, same, unasked, List.nil_append, form?_none]
      exact ⟨alone _, fun absent => absurd rfl absent, fun absent => absurd rfl absent, rfl⟩
  | cookies asked asked' =>
      obtain ⟨sound, named, token⟩ := Logged.ask_ok asked
      obtain ⟨failed, same⟩ := Logged.ask_error asked'
      simp only [unasked, Option.none_or] at token
      simp only [failed, sound, quiet, same, token, reduceCtorEq, if_true, if_false, List.nil_append,
        form?_none]
      exact ⟨alone _, named, fun absent => absurd rfl absent, rfl⟩
  | problem asked asked' asked'' =>
      obtain ⟨sound, named, token⟩ := Logged.ask_ok asked
      obtain ⟨sound', named', newest⟩ := Logged.ask_ok asked'
      obtain ⟨failed, same⟩ := Logged.ask_error asked''
      simp only [unasked, Option.none_or] at token
      simp only [failed, sound', sound, quiet, same, newest, token, reduceCtorEq, if_true, if_false,
        Option.none_or, Option.or_none, List.nil_append, form?_none]
      exact ⟨alone _, named, named', rfl⟩
  | done asked asked' asked'' =>
      obtain ⟨sound, named, token⟩ := Logged.ask_ok asked
      obtain ⟨sound', named', newest⟩ := Logged.ask_ok asked'
      obtain ⟨sound'', -, problem⟩ := Logged.ask_ok asked''
      simp only [unasked, Option.none_or] at token
      simp only [sound'', sound', sound, quiet, problem, newest, token, reduceCtorEq, if_true, if_false,
        Option.none_or, Option.or_none, List.not_mem_nil]
      exact ⟨fun _ => trivial, named, named', trivial⟩

end

variable {σ : Type} [CredentialCaches σ] {rules : Rules} {order : CookieMap.Order}
variable {message : Message} {caches : σ}

theorem processLine_logged {line : Bytes} {frame : Frame} (read : Frame.ofLine line = .ok frame)
    (request : frame.kind = .request) :
    processLine rules order line caches =
      let run := processLine rules order line (Logged.start caches)
      (run.1, run.2.caches) := by
  have same := renewRequest_map rules order frame.message Logged.caches (fun _ _ _ => rfl)
    (Logged.start caches)
  rw [processLine_of_request read request, processLine_of_request read request]
  dsimp only
  rw [show caches = (Logged.start caches).caches from rfl, same]
  rfl

theorem lost_iff_failed {line : Bytes} {frame : Frame} (read : Frame.ofLine line = .ok frame)
    (request : frame.kind = .request) {error : RelayError} :
    let run := processLine rules order line (Logged.start caches)
    run.1 = .error error ↔
      ∃ inquiry ∈ run.2.inquiries, inquiry.answer = .error error ∧ error.isFatal = true := by
  have after : (processLine rules order line (Logged.start caches)).2 =
      (renewRequest rules order frame.message (Logged.start caches)).2.2 := by
    rw [processLine_of_request read request]
  dsimp only
  rw [processLine_eq_error read request, (renewRequest_logged rules order frame.message caches).1,
    Logged.mem_failures, after]
  simp only [← and_assoc, exists_and_right]

theorem renewed_of_logged (apart : Apart rules.accessTokenHeader cookieHeader)
    (feedless : ∀ inquiry ∈ (renewRequest rules order message (Logged.start caches)).2.2.inquiries,
      ∀ text, inquiry.answer = .ok (some text) → '\n' ∉ text.toList) :
    let run := renewRequest rules order message (Logged.start caches)
    Fits rules message run.2.2.answers ∧ run.1 = renewed rules order run.2.2.answers message := by
  intro run
  let tokened := withToken rules (run.2.2.answers .accessToken) message
  obtain ⟨-, token, cookies, whole⟩ := renewRequest_logged rules order message caches
  have clean {credential : Credential} {text : String}
      (answer : run.2.2.answers credential = some text) : '\n' ∉ text.toList := by
    obtain ⟨inquiry, member, told⟩ := Logged.answers_eq_some answer
    exact feedless inquiry member text told
  have bearer {text : String} (answer : run.2.2.answers .accessToken = some text) :
      message.header? rules.accessTokenHeader ≠ none := by
    obtain ⟨user, named⟩ := token (by rw [answer]; exact Option.some_ne_none text)
    exact header?_of_bearer? named
  have kept : tokened.header? cookieHeader = message.header? cookieHeader := by
    unfold tokened withToken
    cases answer : run.2.2.answers .accessToken with
    | none => rfl
    | some text =>
        exact header?_setHeader_of_present apart (lf_mem_ofText.not.2 (clean answer)) (bearer answer)
  have fits : Fits rules message run.2.2.answers := by
    refine ⟨fun text answer => ⟨clean answer, bearer answer⟩,
      fun text answer => ⟨clean answer, ?_⟩⟩
    obtain ⟨user, named⟩ := cookies (by rw [answer]; exact Option.some_ne_none text)
    exact kept ▸ header?_of_cookieUser? named
  refine ⟨fits, whole.trans ?_⟩
  rw [renewed, ← ownSession?_congr kept]

end CredentialRelay.Relay

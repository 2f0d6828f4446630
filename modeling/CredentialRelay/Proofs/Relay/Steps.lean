import Mathlib
import CredentialRelay.Proofs.Http.Edits
import CredentialRelay.Relay.Stream

namespace CredentialRelay.Relay
open Cache Http Http.Message

def bearer? (rules : Rules) (message : Message) : Option String :=
  (message.headerText? rules.accessTokenHeader).bind Token.identity?

def ownSession? (rules : Rules) (message : Message) : Option String :=
  (message.headerText? cookieHeader).bind (sessionToken? rules)

def cookieUser? (rules : Rules) (message : Message) : Option String :=
  (ownSession? rules message).bind Token.identity?

def problemUser? (rules : Rules) (message : Message) : Option String :=
  if targetsProblem rules message then (cookieUser? rules message).or (bearer? rules message)
  else none

def asked? (rules : Rules) (message : Message) : Credential → Option String
  | .sessionCookie => cookieUser? rules message
  | .accessToken => bearer? rules message
  | .problem => problemUser? rules message

theorem header?_of_bearer? {rules : Rules} {message : Message} {user : String}
    (h : bearer? rules message = some user) : message.header? rules.accessTokenHeader ≠ none := by
  obtain ⟨text, found, -⟩ := Option.bind_eq_some_iff.1 h
  exact header?_ne_none found

theorem header?_of_cookieUser? {rules : Rules} {message : Message} {user : String}
    (h : cookieUser? rules message = some user) : message.header? cookieHeader ≠ none := by
  obtain ⟨token, own, -⟩ := Option.bind_eq_some_iff.1 h
  obtain ⟨text, found, -⟩ := Option.bind_eq_some_iff.1 own
  exact header?_ne_none found

def withValue? (name : String) (value : Option Bytes) (message : Message) : Message :=
  value.elim message (message.setHeader name)

def withToken (rules : Rules) (token : Option String) (message : Message) : Message :=
  withValue? rules.accessTokenHeader (token.map Bytes.ofText) message

def withCookies (order : CookieMap.Order) (newest : Option String) (message : Message) : Message :=
  withValue? cookieHeader (newest.map fun newest => Bytes.ofText (cookieText order newest)) message

def session? (newest own : Option String) (rules : Rules) : Option String :=
  own.map fun own => (newest.bind (sessionToken? rules)).getD own

def form? (rules : Rules) (session problem : Option String) : Option String :=
  session.bind fun token => problem.bind fun problem =>
    (LessonForm.body token rules.lessonClaim problem).toOption

def withForm? (form : Option String) (message : Message) : Message :=
  form.elim message (withForm message)

theorem form?_eq_some {rules : Rules} {session problem : Option String} {form : String}
    (h : form? rules session problem = some form) :
    ∃ token id, session = some token ∧ problem = some id ∧
      LessonForm.body token rules.lessonClaim id = .ok form := by
  obtain ⟨token, own, rest⟩ := Option.bind_eq_some_iff.1 h
  obtain ⟨id, answer, made⟩ := Option.bind_eq_some_iff.1 rest
  refine ⟨token, id, own, answer, ?_⟩
  cases result : LessonForm.body token rules.lessonClaim id with
  | error _ => simp [result, Except.toOption] at made
  | ok text => simpa [result, Except.toOption] using made

theorem form?_none (rules : Rules) (session : Option String) : form? rules session none = none := by
  cases session <;> rfl

section Steps

variable {σ : Type} [CredentialCaches σ]

def ask (credential : Credential) (user : Option String) (caches : σ) :
    Except RelayError (Option String) × σ :=
  match user with
  | none => (.ok none, caches)
  | some user => CredentialCaches.lookup credential user caches

variable (rules : Rules) (order : CookieMap.Order) (message : Message) (caches : σ)

theorem refreshAccessToken_eq :
    refreshAccessToken rules message caches =
      let reply := ask .accessToken (bearer? rules message) caches
      (reply.1.map fun token => (withToken rules token message, bearer? rules message), reply.2) := by
  unfold refreshAccessToken
  rw [← bearer?]
  cases bearer? rules message with
  | none => rfl
  | some user =>
      dsimp only [ask]
      rcases CredentialCaches.lookup .accessToken user caches with ⟨_ | _ | _, _⟩ <;> rfl

theorem refreshCookies_eq :
    refreshCookies rules order message caches =
      let reply := ask .sessionCookie (cookieUser? rules message) caches
      (reply.1.map fun newest => (withCookies order newest message,
        ⟨cookieUser? rules message, session? newest (ownSession? rules message) rules⟩),
        reply.2) := by
  unfold refreshCookies
  rw [← ownSession?, cookieUser?]
  cases ownSession? rules message with
  | none => rfl
  | some token =>
      cases identity : Token.identity? token with
      | none => simp [identity, ask, withCookies, withValue?, session?, Except.map]
      | some user =>
          simp only [identity, ask, Option.bind_some]
          rcases CredentialCaches.lookup .sessionCookie user caches with ⟨_ | _ | _, _⟩ <;> rfl

theorem spliceProblem_eq (identity session : Option String) :
    spliceProblem rules identity session message caches =
      let reply := ask .problem (if targetsProblem rules message then identity else none) caches
      (reply.1.map fun problem => withForm? (form? rules session problem) message, reply.2) := by
  unfold spliceProblem
  cases identity with
  | none => simp [ask, form?_none, withForm?, Except.map]
  | some user =>
      by_cases target : targetsProblem rules message
      · simp only [target, if_true, ask]
        rcases CredentialCaches.lookup .problem user caches with ⟨_ | _ | problem, _⟩
        · rfl
        · simp [form?_none, withForm?, Except.map]
        · cases session with
          | none => rfl
          | some token =>
              simp only [Option.map_some, form?, Option.bind_some, Except.map]
              cases LessonForm.body token rules.lessonClaim problem <;> rfl
      · simp [target, ask, form?_none, withForm?, Except.map]

theorem renewRequest_eq :
    renewRequest rules order message caches =
      let bearer := bearer? rules message
      match ask .accessToken bearer caches with
      | (.error error, caches) => (message, .error error, caches)
      | (.ok token, caches) =>
        let tokened := withToken rules token message
        let user := cookieUser? rules tokened
        match ask .sessionCookie user caches with
        | (.error error, caches) => (tokened, .error error, caches)
        | (.ok newest, caches) =>
          let cookied := withCookies order newest tokened
          let session := session? newest (ownSession? rules tokened) rules
          match ask .problem (if targetsProblem rules cookied then user.or bearer else none) caches with
          | (.error error, caches) => (cookied, .error error, caches)
          | (.ok problem, caches) =>
            (withForm? (form? rules session problem) cookied, .ok (), caches) := by
  unfold renewRequest
  rw [refreshAccessToken_eq]
  dsimp only
  rcases ask .accessToken (bearer? rules message) caches with ⟨_ | token, caches⟩
  · rfl
  · dsimp only [Except.map]
    rw [refreshCookies_eq]
    dsimp only
    rcases ask .sessionCookie _ caches with ⟨_ | newest, caches⟩
    · rfl
    · dsimp only [Except.map]
      rw [spliceProblem_eq]
      dsimp only
      rcases ask .problem _ caches with ⟨_ | problem, caches⟩ <;> rfl

inductive Renews : Message × Except RelayError Unit × σ → Prop where
  | token {error : RelayError} {after : σ}
      (asked : ask .accessToken (bearer? rules message) caches = (.error error, after)) :
      Renews (message, .error error, after)
  | cookies {error : RelayError} {token : Option String} {after after' : σ}
      (asked : ask .accessToken (bearer? rules message) caches = (.ok token, after))
      (asked' : ask .sessionCookie (cookieUser? rules (withToken rules token message)) after =
        (.error error, after')) :
      Renews (withToken rules token message, .error error, after')
  | problem {error : RelayError} {token newest user : Option String} {after after' after'' : σ}
      (asked : ask .accessToken (bearer? rules message) caches = (.ok token, after))
      (asked' : ask .sessionCookie (cookieUser? rules (withToken rules token message)) after =
        (.ok newest, after'))
      (asked'' : ask .problem user after' = (.error error, after'')) :
      Renews (withCookies order newest (withToken rules token message), .error error, after'')
  | done {token newest problem user : Option String} {after after' after'' : σ}
      (asked : ask .accessToken (bearer? rules message) caches = (.ok token, after))
      (asked' : ask .sessionCookie (cookieUser? rules (withToken rules token message)) after =
        (.ok newest, after'))
      (asked'' : ask .problem user after' = (.ok problem, after'')) :
      Renews (withForm? (form? rules
          (session? newest (ownSession? rules (withToken rules token message)) rules) problem)
        (withCookies order newest (withToken rules token message)), .ok (), after'')

theorem renewRequest_renews :
    Renews rules order message caches (renewRequest rules order message caches) := by
  rw [renewRequest_eq]
  dsimp only
  split
  · next asked => exact .token asked
  · next asked =>
    split
    · next asked' => exact .cookies asked asked'
    · next asked' =>
      split
      · next asked'' => exact .problem asked asked' asked''
      · next asked'' => exact .done asked asked' asked''

theorem renewRequest_keeps {holds : σ → Prop}
    (lookup : ∀ credential user caches, holds caches →
      holds (CredentialCaches.lookup credential user caches).2) (before : holds caches) :
    holds (renewRequest rules order message caches).2.2 := by
  have keeps {credential user} {reply} {caches after : σ} (before : holds caches)
      (asked : ask credential user caches = (reply, after)) : holds after := by
    cases user with
    | none =>
        cases asked
        exact before
    | some user =>
        have kept := lookup credential user caches before
        rwa [show CredentialCaches.lookup credential user caches = _ from asked] at kept
  have renews := renewRequest_renews rules order message caches
  generalize renewRequest rules order message caches = run at renews
  cases renews with
  | token asked => exact keeps before asked
  | cookies asked asked' => exact keeps (keeps before asked) asked'
  | problem asked asked' asked'' => exact keeps (keeps (keeps before asked) asked') asked''
  | done asked asked' asked'' => exact keeps (keeps (keeps before asked) asked') asked''

theorem renewRequest_map {τ : Type} [CredentialCaches τ] (view : τ → σ)
    (lookup : ∀ credential user caches,
      CredentialCaches.lookup credential user (view caches) =
        (CredentialCaches.lookup credential user caches).map id view) (caches : τ) :
    renewRequest rules order message (view caches) =
      (renewRequest rules order message caches).map id (Prod.map id view) := by
  have asks (credential user) (caches : τ) :
      ask credential user (view caches) = (ask credential user caches).map id view := by
    cases user with
    | none => rfl
    | some user => exact lookup credential user caches
  rw [renewRequest_eq, renewRequest_eq]
  dsimp only
  rw [asks]
  rcases ask .accessToken _ caches with ⟨_ | token, caches⟩
  · rfl
  · dsimp only [Prod.map, id_eq]
    rw [asks]
    rcases ask .sessionCookie _ caches with ⟨_ | newest, caches⟩
    · rfl
    · dsimp only [Prod.map, id_eq]
      rw [asks]
      rcases ask .problem _ caches with ⟨_ | problem, caches⟩ <;> rfl

end Steps

theorem recover_eq_error {outcome : Except RelayError Unit} {error : RelayError} :
    recover outcome = .error error ↔ outcome = .error error ∧ error.isFatal = true := by
  cases outcome with
  | ok _ => simp [recover]
  | error failure =>
      simp only [recover]
      split
      · next fatal =>
        rw [Except.error.injEq]
        exact ⟨fun same => ⟨same, same ▸ fatal⟩, And.left⟩
      · next fatal =>
        rw [Except.error.injEq]
        exact ⟨nofun, fun ⟨same, fatal'⟩ => absurd (same ▸ fatal') fatal⟩

variable {σ : Type} [CredentialCaches σ] {rules : Rules} {order : CookieMap.Order} {line : Bytes}
variable {frame : Frame}

theorem process_of_request (request : frame.kind = .request) (caches : σ) :
    process rules order frame caches =
      let run := renewRequest rules order frame.message caches
      ((recover run.2.1).map fun _ => some { frame with message := run.1 }, run.2.2) := by
  rw [process, request]

theorem processLine_of_request (read : Frame.ofLine line = .ok frame)
    (request : frame.kind = .request) (caches : σ) :
    processLine rules order line caches =
      let run := renewRequest rules order frame.message caches
      ((recover run.2.1).map fun _ => some (Frame.line { frame with message := run.1 }),
        run.2.2) := by
  rw [processLine, read]
  dsimp only
  rw [process_of_request request]
  dsimp only
  cases recover _ <;> rfl

theorem processLine_eq_error (read : Frame.ofLine line = .ok frame)
    (request : frame.kind = .request) (caches : σ) {error : RelayError} :
    (processLine rules order line caches).1 = .error error ↔
      (renewRequest rules order frame.message caches).2.1 = .error error ∧ error.isFatal = true := by
  rw [processLine_of_request read request, ← recover_eq_error]
  dsimp only
  cases recover _ <;> simp [Except.map]

theorem processLine_eq_ok (read : Frame.ofLine line = .ok frame) (request : frame.kind = .request)
    {caches : σ} {out : Option Bytes} (processed : (processLine rules order line caches).1 = .ok out) :
    out = some (Frame.line
      { frame with message := (renewRequest rules order frame.message caches).1 }) := by
  rw [processLine_of_request read request] at processed
  dsimp only at processed
  cases recovered : recover (renewRequest rules order frame.message caches).2.1 with
  | error _ =>
      rw [recovered] at processed
      cases processed
  | ok _ =>
      rw [recovered] at processed
      exact (Except.ok.inj processed).symm

end CredentialRelay.Relay

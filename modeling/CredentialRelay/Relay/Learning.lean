import CredentialRelay.Relay.Renewal
import CredentialRelay.ResponseBody

namespace CredentialRelay.Relay
open Cache Http

variable {σ : Type} [CredentialCaches σ]

def setCookieHeader : String := "Set-Cookie"

def newSession? (rules : Rules) (message : Message) : Option (String × String) := do
  let text ← message.headerText? setCookieHeader
  let identity ← (sessionToken? rules text).bind Token.identity?
  pure (text, identity)

def learnSession (rules : Rules) (message : Message) (caches : σ) :
    Except RelayError (Option String) × σ :=
  match newSession? rules message with
  | none => (.ok none, caches)
  | some (text, identity) =>
    match CredentialCaches.record .sessionCookie identity text caches with
    | (.error error, caches) => (.error error, caches)
    | (.ok (), caches) => (.ok (some identity), caches)

def learnAccessToken (rules : Rules) (session : Option String) (message : Message) (caches : σ) :
    Except RelayError (Option String) × σ :=
  match ResponseBody.accessToken message.body rules.accessTokenPath with
  | .error _ => (.ok session, caches)
  | .ok found =>
    match found.identity.or session with
    | none => (.ok session, caches)
    | some identity =>
      match CredentialCaches.record .accessToken identity found.token caches with
      | (.error error, caches) => (.error error, caches)
      | (.ok (), caches) => (.ok (session.or (some identity)), caches)

def learnProblem (rules : Rules) (identity : Option String) (message : Message) (caches : σ) :
    Except RelayError Unit × σ :=
  match identity, ResponseBody.integers message.body rules.problemsPath with
  | some identity, .ok (first :: _) =>
    CredentialCaches.record .problem identity (Decimal.text first) caches
  | _, _ => (.ok (), caches)

def learn (rules : Rules) (message : Message) (caches : σ) : Except RelayError Unit × σ :=
  match learnSession rules message caches with
  | (.error error, caches) => (.error error, caches)
  | (.ok session, caches) =>
    match learnAccessToken rules session message caches with
    | (.error error, caches) => (.error error, caches)
    | (.ok identity, caches) => learnProblem rules identity message caches

end CredentialRelay.Relay

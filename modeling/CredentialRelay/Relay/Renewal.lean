import CredentialRelay.Cache.Credentials
import CredentialRelay.Http.CookieMap
import CredentialRelay.Http.Message
import CredentialRelay.LessonForm
import CredentialRelay.Relay.Rules

/-!
A request gets the newest credentials of its user: first the access token, then the cookies, and
last, at the problem endpoint, the id of the last problem seen. A step that finds nothing to do
leaves the message as it is; a step whose cache fails ends the work, and what the steps before it
did stays.
-/

namespace CredentialRelay.Relay
open Cache Http

variable {σ : Type} [CredentialCaches σ]

def cookieHeader : String := "Cookie"
def contentLengthHeader : String := "Content-Length"

def sessionToken? (rules : Rules) (cookies : String) : Option String :=
  (CookieMap.parse cookies).get? rules.sessionCookie

def refreshAccessToken (rules : Rules) (message : Message) (caches : σ) :
    Except RelayError (Message × Option String) × σ :=
  match (message.headerText? rules.accessTokenHeader).bind Token.identity? with
  | none => (.ok (message, none), caches)
  | some identity =>
    match CredentialCaches.lookup .accessToken identity caches with
    | (.error error, caches) => (.error error, caches)
    | (.ok none, caches) => (.ok (message, some identity), caches)
    | (.ok (some token), caches) =>
      (.ok (message.setHeader rules.accessTokenHeader (Bytes.ofText token), some identity), caches)

structure Session where
  identity : Option String
  token : Option String
deriving DecidableEq, Repr

def cookieText (order : CookieMap.Order) (newest : String) : String :=
  let cookies := CookieMap.parse newest
  if cookies.isEmpty then newest else (order.arrange cookies).render

def refreshCookies (rules : Rules) (order : CookieMap.Order) (message : Message) (caches : σ) :
    Except RelayError (Message × Session) × σ :=
  match (message.headerText? cookieHeader).bind (sessionToken? rules) with
  | none => (.ok (message, ⟨none, none⟩), caches)
  | some token =>
    match Token.identity? token with
    | none => (.ok (message, ⟨none, some token⟩), caches)
    | some identity =>
      match CredentialCaches.lookup .sessionCookie identity caches with
      | (.error error, caches) => (.error error, caches)
      | (.ok none, caches) => (.ok (message, ⟨some identity, some token⟩), caches)
      | (.ok (some newest), caches) =>
        let message := message.setHeader cookieHeader (Bytes.ofText (cookieText order newest))
        let token := (sessionToken? rules newest).getD token
        (.ok (message, ⟨some identity, some token⟩), caches)

def targetsProblem (rules : Rules) (message : Message) : Bool :=
  message.path?.any fun path => (Bytes.ofText rules.problemEndpoint).isPrefixOf path

def withForm (message : Message) (form : String) : Message :=
  let body := Bytes.ofText form
  (message.setBody body).setHeader contentLengthHeader
    (Bytes.ofText (Decimal.text body.length))

def spliceProblem (rules : Rules) (identity : Option String) (session : Option String)
    (message : Message) (caches : σ) : Except RelayError Message × σ :=
  match identity with
  | none => (.ok message, caches)
  | some identity =>
    if targetsProblem rules message then
      match CredentialCaches.lookup .problem identity caches with
      | (.error error, caches) => (.error error, caches)
      | (.ok none, caches) => (.ok message, caches)
      | (.ok (some problem), caches) =>
        match session.map fun token => LessonForm.body token rules.lessonClaim problem with
        | some (.ok form) => (.ok (withForm message form), caches)
        | _ => (.ok message, caches)
    else (.ok message, caches)

def renewRequest (rules : Rules) (order : CookieMap.Order) (message : Message) (caches : σ) :
    Message × Except RelayError Unit × σ :=
  match refreshAccessToken rules message caches with
  | (.error error, caches) => (message, .error error, caches)
  | (.ok (message, bearer), caches) =>
    match refreshCookies rules order message caches with
    | (.error error, caches) => (message, .error error, caches)
    | (.ok (message, session), caches) =>
      match spliceProblem rules (session.identity.or bearer) session.token message caches with
      | (.error error, caches) => (message, .error error, caches)
      | (.ok message, caches) => (message, .ok (), caches)

end CredentialRelay.Relay

import Mathlib
import CredentialRelay.Proofs.Relay.Past

namespace CredentialRelay.Cache.LocalCache

structure OnlySets (now : Nat) (key value : Option String) (cache cache' : LocalCache) : Prop where
  ttl : cache'.ttl = cache.ttl
  set : ∀ user text, key = some user → value = some text →
    cache'.entries.get? user = some ⟨text, now⟩
  kept : ∀ user, key ≠ some user ∨ value = none →
    cache'.entries.get? user = cache.entries.get? user

def lesson? (key value : Option String) : Option (String × String) :=
  key.bind fun key => value.map fun value => (key, value)

theorem onlySets_note (credential : Credential) (key value : Option String) (caches : LocalCaches) :
    OnlySets caches.now key value (caches.cache credential)
      ((caches.note credential (lesson? key value)).cache credential) := by
  have ttl := caches.ttl_note credential (lesson? key value)
  rw [LocalCaches.note_eq, LocalCaches.cache_edit, if_pos rfl] at ttl ⊢
  cases key with
  | none => exact ⟨ttl, by simp, fun _ _ => rfl⟩
  | some user =>
      cases value with
      | none => exact ⟨ttl, by simp, fun _ _ => rfl⟩
      | some text =>
          refine ⟨ttl, fun other text' same same' => ?_, fun other apart => ?_⟩
          · cases same
            cases same'
            exact (Table.get?_insert ..).trans (if_pos rfl)
          · refine (Table.get?_insert ..).trans (if_neg ?_)
            rintro rfl
            simp at apart

end CredentialRelay.Cache.LocalCache

namespace CredentialRelay.Http
open Bytes

def Restarted (message message' : Message) : Prop :=
  ∃ line line' rest, lf ∉ line ∧ lf ∉ line' ∧ (rest = [] ∨ rest.head? = some lf) ∧
    message.bytes = line ++ rest ∧ message'.bytes = line' ++ rest

theorem Layout.ofLines_start (start start' : Bytes) (rest : List Bytes) :
    ofLines (start' :: rest) = { ofLines (start :: rest) with start := start' } := by
  unfold ofLines
  dsimp only
  split <;> rfl

theorem Restarted.layout {message message' : Message} (restarted : Restarted message message') :
    message'.layout = { message.layout with start := message'.layout.start } := by
  obtain ⟨line, line', rest, feedless, feedless', ended, bytes, bytes'⟩ := restarted
  rw [Message.layout, Message.layout, bytes, bytes']
  cases rest with
  | nil =>
      rw [List.append_nil, List.append_nil, Layout.ofBytes_of_lf_notMem feedless,
        Layout.ofBytes_of_lf_notMem feedless']
  | cons b rest =>
      have same : b = lf := by simpa using ended
      have cut {line : Bytes} (feedless : lf ∉ line) :
          Layout.ofBytes (line ++ b :: rest) = Layout.ofLines ((line ++ [lf]) :: lines rest) := by
        rw [same, List.append_cons, Layout.ofBytes, lines_line_append ⟨line, feedless, rfl⟩]
      rw [cut feedless, cut feedless', Layout.start_ofLines]
      exact Layout.ofLines_start ..

end CredentialRelay.Http

namespace CredentialRelay.Relay
open Bytes Cache Http Http.Message

variable (rules : Rules) (message : Message)

/-- Under whom a response files its credentials. -/
def filer? : Credential → Option String
  | .sessionCookie => sessionUser? rules message
  | .accessToken => (tokenUser? rules message).or (sessionUser? rules message)
  | .problem => (sessionUser? rules message).or (tokenUser? rules message)

def newValue? : Credential → Option String
  | .sessionCookie => message.headerText? setCookieHeader
  | .accessToken => newToken? rules message
  | .problem => newProblem? rules message

theorem sessionUser?_eq :
    sessionUser? rules message =
      ((message.headerText? setCookieHeader).bind (sessionToken? rules)).bind Token.identity? := by
  unfold sessionUser? newSession?
  cases message.headerText? setCookieHeader with
  | none => rfl
  | some text => cases named : (sessionToken? rules text).bind Token.identity? <;> simp [named]

theorem taught?_eq (credential : Credential) :
    taught? rules message credential =
      LocalCache.lesson? (filer? rules message credential) (newValue? rules message credential) := by
  cases credential with
  | sessionCookie =>
      rw [taught?, filer?, newValue?, sessionUser?, newSession?]
      cases message.headerText? setCookieHeader with
      | none => rfl
      | some text =>
          cases named : (sessionToken? rules text).bind Token.identity? <;>
            simp [named, LocalCache.lesson?]
  | accessToken =>
      rw [taught?, filer?, newValue?, LocalCache.lesson?]
      cases newToken? rules message <;> cases (tokenUser? rules message).or _ <;> rfl
  | problem => rfl

theorem newProblem?_eq :
    newProblem? rules message =
      ((ResponseBody.integers message.body rules.problemsPath).toOption.bind List.head?).map
        Decimal.text := by
  unfold newProblem?
  cases ResponseBody.integers message.body rules.problemsPath with
  | error _ => rfl
  | ok integers => cases integers <;> rfl

variable {rules message}

theorem taught?_restarted {message' : Message} (restarted : Restarted message message') :
    taught? rules message' = taught? rules message := by
  have layout := restarted.layout
  have text : message'.headerText? setCookieHeader = message.headerText? setCookieHeader := by
    rw [headerText?, headerText?, header?_eq, header?_eq, layout]
  have body : message'.body = message.body := by
    rw [Message.body, Message.body, layout]
  have token : newToken? rules message' = newToken? rules message := by
    rw [newToken?, newToken?, body]
  have problem : newProblem? rules message' = newProblem? rules message := by
    rw [newProblem?, newProblem?, body]
  have bearer : tokenUser? rules message' = tokenUser? rules message := by
    rw [tokenUser?, tokenUser?, token]
  have owner : sessionUser? rules message' = sessionUser? rules message := by
    rw [sessionUser?_eq, sessionUser?_eq, text]
  funext credential
  rw [taught?_eq, taught?_eq]
  cases credential <;> simp only [filer?, newValue?, text, token, problem, bearer, owner]

/-- A replayed response emits nothing and changes the caches in at most three entries, each set to what
the response says about its user. All that does not depend on its first line. -/
theorem response_sets_only (rules : Rules) (order : CookieMap.Order) (caches : LocalCaches)
    {frame : Frame}
    (response : frame.kind = .replayedResponse) :
    let message := frame.message
    let cookies := message.headerText? setCookieHeader
    let owner := (cookies.bind (sessionToken? rules)).bind Token.identity?
    let token := (ResponseBody.text message.body rules.accessTokenPath).toOption
    let bearer := token.bind Token.identity?
    let problem := ((ResponseBody.integers message.body rules.problemsPath).toOption.bind
      List.head?).map Decimal.text
    (∃ after, process rules order frame caches = (.ok none, after) ∧ after.now = caches.now ∧
      (caches.cache .sessionCookie).OnlySets caches.now owner cookies (after.cache .sessionCookie) ∧
      (caches.cache .accessToken).OnlySets caches.now (bearer.or owner) token
        (after.cache .accessToken) ∧
      (caches.cache .problem).OnlySets caches.now (owner.or bearer) problem
        (after.cache .problem)) ∧
    ∀ other, Restarted message other →
      process rules order { frame with message := other } caches =
        process rules order frame caches := by
  intro message cookies owner token bearer problem
  have owned : sessionUser? rules message = owner := sessionUser?_eq rules message
  have numbered : newProblem? rules message = problem := newProblem?_eq rules message
  have sets (credential : Credential) :
      (caches.cache credential).OnlySets caches.now (filer? rules message credential)
        (newValue? rules message credential)
        ((caches.noteAll (taught? rules message)).cache credential) := by
    rw [LocalCaches.noteAll]
    dsimp only
    rw [taught?_eq]
    exact LocalCache.onlySets_note credential _ _ caches
  have session := sets .sessionCookie
  have access := sets .accessToken
  have problems := sets .problem
  dsimp only [filer?, newValue?] at session access problems
  rw [owned] at session access problems
  rw [numbered] at problems
  refine ⟨⟨_, process_response response, rfl, session, access, problems⟩, fun other restarted => ?_⟩
  have same : process rules order { frame with message := other } caches =
      (.ok none, caches.noteAll (taught? rules other)) := process_response response
  rw [same, process_response response, taught?_restarted restarted]

def loginReply (start : String) : Message :=
  ⟨ofText start ++ ofText
    ("\nSet-Cookie: connect.sid=a.eyJ1c2VySUQiOjF9.b\r\n\r\n" ++
      "\x7b\"data\":\x7b\"accessToken\":\"h.eyJ1c2VySUQiOjJ9.s\"," ++
      "\"problems\":\x7b\"prob\":[7,8]\x7d\x7d\x7d")⟩

def failedLogin : Frame :=
  ⟨.replayedResponse, ofText "3 login 0", loginReply "HTTP/1.1 500 Internal Server Error\r"⟩

theorem failed_login_teaches :
    let caches := LocalCaches.empty 1000
    failedLogin.kind = .replayedResponse ∧
      (∃ after, process {} .arrival failedLogin caches = (.ok none, after) ∧
        (after.cache .sessionCookie).entries.get? "1" =
          some ⟨"connect.sid=a.eyJ1c2VySUQiOjF9.b", 0⟩ ∧
        (after.cache .accessToken).entries.get? "2" = some ⟨"h.eyJ1c2VySUQiOjJ9.s", 0⟩ ∧
        (after.cache .accessToken).entries.get? "1" = none ∧
        (after.cache .problem).entries.get? "1" = some ⟨"7", 0⟩) ∧
      process {} .arrival { failedLogin with message := loginReply "HTTP/1.1 200 OK\r" } caches =
        process {} .arrival failedLogin caches := by
  intro caches
  have response : failedLogin.kind = .replayedResponse := rfl
  obtain ⟨⟨after, emitted, -, session, access, problem⟩, same⟩ :=
    response_sets_only {} .arrival caches response
  refine ⟨response, ⟨after, emitted, ?_, ?_, ?_, ?_⟩, same _ ⟨_, _, _, ?_, ?_, ?_, rfl, rfl⟩⟩
  · exact session.set _ _ (by decide +kernel) (by decide +kernel)
  · exact access.set _ _ (by decide +kernel) (by decide +kernel)
  · exact access.kept _ (.inl (by decide +kernel))
  · exact problem.set _ _ (by decide +kernel) (by decide +kernel)
  · decide +kernel
  · decide +kernel
  · exact .inr (by decide +kernel)

end CredentialRelay.Relay

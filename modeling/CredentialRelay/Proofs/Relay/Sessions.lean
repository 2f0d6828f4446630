import Mathlib
import CredentialRelay.Proofs.Http.Edits
import CredentialRelay.Proofs.Relay.Past

namespace CredentialRelay.Relay
open Bytes Cache Http Http.Message

def setCookies (message : Message) : List Field :=
  fieldsNamed setCookieHeader message.layout.headers

def carried? (rules : Rules) (field : Field) : Option String :=
  (text? field.value).bind (sessionToken? rules)

/-- Of the headers that set cookies, one alone carries the session cookie, after those in `before`. It
reads `text`, and the session is that of `user`. -/
structure SoleSession (rules : Rules) (message : Message) (before : List Field)
    (text user : String) : Prop where
  header : ∃ field after, setCookies message = before ++ field :: after ∧
    text? field.value = some text ∧ (carried? rules field).bind Token.identity? = some user ∧
    ∀ other ∈ before ++ after, carried? rules other = none

variable {rules : Rules} {message : Message} {before : List Field} {text user : String}

theorem headerText?_setCookie (message : Message) :
    message.headerText? setCookieHeader =
      (setCookies message).head?.bind fun field => text? field.value := by
  rw [headerText?, header?_eq, valueIn?_eq_head?, Option.bind_map]
  rfl

theorem newSession?_eq_none (unread : ((setCookies message).head?.bind (carried? rules)) = none) :
    newSession? rules message = none := by
  unfold newSession?
  rw [headerText?_setCookie]
  cases first : (setCookies message).head? with
  | none => rfl
  | some field =>
      rw [first, Option.bind_some, carried?] at unread
      rw [Option.bind_some]
      cases read : text? field.value with
      | none => rfl
      | some text =>
          rw [read, Option.bind_some] at unread
          simp [unread]

theorem SoleSession.newSession?_eq (sole : SoleSession rules message before text user) :
    newSession? rules message = if before = [] then some (text, user) else none := by
  obtain ⟨field, after, all, read, named, others⟩ := sole.header
  cases before with
  | nil =>
      rw [carried?, read, Option.bind_some] at named
      rw [newSession?, headerText?_setCookie, all]
      simp [read, named]
  | cons first before =>
      rw [if_neg (List.cons_ne_nil first before)]
      apply newSession?_eq_none
      rw [all]
      exact others first (by simp)

/-- The session is filed, with the header's text, if its header is the first that sets cookies; and
else no session is filed at all. -/
theorem session_filed_iff_first (rules : Rules) (order : CookieMap.Order) (caches : LocalCaches)
    {frame : Frame}
    (response : frame.kind = .replayedResponse)
    (sole : SoleSession rules frame.message before text user) :
    ∃ after, process rules order frame caches = (.ok none, after) ∧
      ∀ other, (after.cache .sessionCookie).entries.get? other =
        if before = [] ∧ other = user then some ⟨text, caches.now⟩
        else (caches.cache .sessionCookie).entries.get? other := by
  refine ⟨_, process_response response, fun other => ?_⟩
  have taught : taught? rules frame.message .sessionCookie =
      if before = [] then some (user, text) else none := by
    rw [taught?, sole.newSession?_eq]
    split <;> rfl
  rw [LocalCaches.noteAll]
  dsimp only
  rw [LocalCaches.note_eq, LocalCaches.cache_edit, if_pos rfl, taught]
  by_cases first : before = []
  · simp only [first, if_true, Option.elim_some, true_and]
    exact Table.get?_insert _ user other _
  · simp [first]

def firstOfTwo : Frame :=
  ⟨.replayedResponse, ofText "3 login", ⟨ofText ("HTTP/1.1 200 OK\r\n" ++
    "Set-Cookie: connect.sid=a.eyJ1c2VySUQiOjF9.b; Path=/\r\nset-cookie: theme=dark\r\n\r\n")⟩⟩

theorem first_of_two_filed :
    ∃ after, process {} .arrival firstOfTwo (LocalCaches.empty 1000) = (.ok none, after) ∧
      (after.cache .sessionCookie).entries.get? "1" =
        some ⟨"connect.sid=a.eyJ1c2VySUQiOjF9.b; Path=/", 0⟩ := by
  have sole : SoleSession {} firstOfTwo.message [] "connect.sid=a.eyJ1c2VySUQiOjF9.b; Path=/" "1" :=
    ⟨(setCookies firstOfTwo.message)[0], (setCookies firstOfTwo.message).tail, by decide +kernel⟩
  obtain ⟨after, processed, filed⟩ :=
    session_filed_iff_first {} .arrival (LocalCaches.empty 1000) rfl sole
  exact ⟨after, processed, filed "1"⟩

def secondOfTwo : Frame :=
  ⟨.replayedResponse, ofText "3 login", ⟨ofText ("HTTP/1.1 200 OK\r\n" ++
    "Set-Cookie: theme=dark\r\nSet-Cookie: connect.sid=a.eyJ1c2VySUQiOjF9.b; Path=/\r\n\r\n")⟩⟩

theorem second_of_two_unseen :
    ¬∀ (rules : Rules) (order : CookieMap.Order) (caches : LocalCaches) (frame : Frame)
        (before : List Field) (text user : String), frame.kind = .replayedResponse →
      SoleSession rules frame.message before text user →
        ((process rules order frame caches).2.get .sessionCookie user).1 = some text := by
  intro all
  have sole : SoleSession {} secondOfTwo.message [(setCookies secondOfTwo.message)[0]]
      "connect.sid=a.eyJ1c2VySUQiOjF9.b; Path=/" "1" :=
    ⟨(setCookies secondOfTwo.message)[1], [], by decide +kernel⟩
  have missed :
      ((process {} .arrival secondOfTwo (LocalCaches.empty 1000)).2.get .sessionCookie "1").1 =
        none := by
    decide +kernel
  rw [all {} .arrival (LocalCaches.empty 1000) secondOfTwo _ _ _ rfl sole] at missed
  exact absurd missed (Option.some_ne_none _)

end CredentialRelay.Relay

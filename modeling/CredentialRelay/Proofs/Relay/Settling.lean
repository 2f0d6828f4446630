import Mathlib
import CredentialRelay.Proofs.Http.CookieRoundTrip
import CredentialRelay.Proofs.Http.Headers
import CredentialRelay.Proofs.Relay.Filing
import CredentialRelay.Proofs.Relay.Forms

/-!
# Renewed requests settle

A value is filed under the user whom it names. So a renewed request names the users of the request that
came in, or no one where the new token names no one, and the caches have nothing for it that it does not
carry already. Renewed again at the same time, with its cookies in any order, it does not change.
-/

namespace CredentialRelay.Cache

/-- What is asked, or answered, the second time: the same for the session cookie, and the same or nothing
for the others. -/
structure Fewer (less more : Credential → Option String) : Prop where
  session : less .sessionCookie = more .sessionCookie
  others : ∀ credential value, less credential = some value → more credential = some value

theorem LocalCaches.answers_askAll {users users' : Credential → Option String}
    {credential : Credential} (same : users' credential = users credential) (caches : LocalCaches) :
    (caches.askAll users).answers users' credential = caches.answers users credential := by
  rw [answers, answers, ask_fst, ask_fst, same, askAll]
  dsimp only
  rw [ask_snd, cache_edit, if_pos rfl]
  cases users credential with
  | none => rfl
  | some user =>
      simp only [Option.bind_some, Option.elim_some, LocalCache.get_fst, LocalCache.peek?_get]

theorem Fewer.answers {users users' : Credential → Option String} (fewer : Fewer users' users)
    (caches : LocalCaches) :
    Fewer ((caches.askAll users).answers users') (caches.answers users) := by
  refine ⟨LocalCaches.answers_askAll fewer.session caches, fun credential value answer => ?_⟩
  obtain ⟨user, asked, -⟩ := LocalCaches.answers_eq_some answer
  rw [← answer, LocalCaches.answers_askAll (asked.trans (fewer.others _ _ asked).symm)]

end CredentialRelay.Cache

namespace CredentialRelay

theorem Token.identity?_trim (token : String) : identity? (Text.trim token) = identity? token := by
  rw [identity?, identity?, claims?, claims?, Http.CookieMap.trim_trim]

namespace Relay
open Bytes Cache Http Http.Message

variable {rules : Rules} {order : CookieMap.Order} {message : Message}

/-! ## Whom answers name -/

theorem localFiled_after (rules : Rules) (ttl : Nat) (past : Past) :
    LocalFiled rules (after rules ttl past) := by
  have keeps := keeps_localFiled rules
  induction past with
  | nil => intro _ _ _ stored; cases stored
  | cons entry past ih =>
      obtain ⟨time, event⟩ := entry
      have moved : LocalFiled rules { after rules ttl past with now := time } := ih
      cases event with
      | sweep credential => exact keeps.interrupted (.sweep credential) _ moved
      | frame frame order =>
          have preserves : Preserves rules (LocalFiled rules) := ⟨keeps.get, keeps.set⟩
          exact preserves.process moved frame

structure HeaderText (text : String) : Prop where
  returnless : '\r' ∉ text.toList
  feedless : '\n' ∉ text.toList
  front : ∀ c ∈ text.toList.head?, c ≠ ' ' ∧ c ≠ '\t'
  back : ∀ c ∈ text.toList.getLast?, c ≠ ' ' ∧ c ≠ '\t'

/-- What the caches answered can be put into the headers, and names the users who were asked for. -/
structure Faithful (rules : Rules) (message : Message) (answers : Credential → Option String) :
    Prop extends Fits rules message answers where
  filed : ∀ credential value, answers credential = some value →
    ∃ user, asked? rules message credential = some user ∧ Filed rules user value credential
  readable : ∀ token ∈ answers .accessToken, HeaderText token

theorem LocalFiled.faithful {caches : LocalCaches} (filed : LocalFiled rules caches)
    (fits : Fits rules message (caches.answers (asked? rules message)))
    (readable : ∀ user token, (caches.cache .accessToken).stored? user = some token →
      HeaderText token) :
    Faithful rules message (caches.answers (asked? rules message)) := by
  refine ⟨fits, fun credential value answer => ?_, fun token answer => ?_⟩
  · obtain ⟨user, asked, found⟩ := LocalCaches.answers_eq_some answer
    exact ⟨user, asked, filed _ _ _ (LocalCache.stored?_of_get_fst found)⟩
  · obtain ⟨user, -, found⟩ := LocalCaches.answers_eq_some answer
    exact readable user token (LocalCache.stored?_of_get_fst found)

theorem Faithful.carried {answers : Credential → Option String}
    (faithful : Faithful rules message answers) {newest : String}
    (answer : answers .sessionCookie = some newest) : sessionToken? rules newest ≠ none := by
  obtain ⟨user, -, token, session, -⟩ := faithful.filed .sessionCookie newest answer
  simp [session]

theorem HeaderText.as_value {text : String} (readable : HeaderText text) :
    trimBy isPad (ofText text) = ofText text ∧ (ofText text).getLast? ≠ some cr := by
  refine ⟨trimBy_isPad_ofText readable.front readable.back, fun last => ?_⟩
  exact readable.returnless (cr_mem_ofText.1 (List.mem_of_getLast? last))

/-! ## The request that goes out -/

section Renewed

variable {answers : Credential → Option String} (order)
variable (apart : NamesApart rules) (ended : message.layout.Ended)
variable (faithful : Faithful rules message answers)
include apart ended faithful

theorem header?_renewed_new_token {token : String} (answer : answers .accessToken = some token) :
    (renewed rules order answers message).header? rules.accessTokenHeader = some (ofText token) := by
  obtain ⟨feedless, present⟩ := faithful.token token answer
  obtain ⟨trimmed, last⟩ := (faithful.readable token answer).as_value
  rw [header?_renewed_token order apart ended faithful.toFits, answer]
  exact (header?_setHeader_self (lf_mem_ofText.not.2 feedless) last present).trans
    (congrArg some trimmed)

theorem header?_renewed_new_cookies {newest : String} (answer : answers .sessionCookie = some newest) :
    (renewed rules order answers message).header? cookieHeader =
      some (ofText (cookieText order newest)) := by
  obtain ⟨last, trimmed, -⟩ := cookieText_read (faithful.carried answer)
  have read := (header?_renewed_cookie order apart ended faithful.toFits).2 newest answer last
  rw [read, trimmed]

theorem bearer?_renewed :
    bearer? rules (renewed rules order answers message) = bearer? rules message ∨
      bearer? rules (renewed rules order answers message) = none := by
  cases answer : answers .accessToken with
  | none =>
      have same := header?_renewed_token order apart ended faithful.toFits
      rw [answer] at same
      exact .inl (congrArg (Option.bind · Token.identity?) (headerText?_congr same))
  | some token =>
      obtain ⟨user, asked, named⟩ := faithful.filed .accessToken token answer
      have read : bearer? rules (renewed rules order answers message) = Token.identity? token := by
        rw [bearer?, headerText?_eq_some.2 (header?_renewed_new_token order apart ended faithful answer),
          Option.bind_some]
      rw [read]
      exact named.symm.imp (fun own => own.trans asked.symm) id

theorem ownSession?_renewed :
    ownSession? rules (renewed rules order answers message) =
      (answers .sessionCookie).elim (ownSession? rules message) fun newest =>
        (sessionToken? rules newest).map Text.trim := by
  cases answer : answers .sessionCookie with
  | none =>
      exact ownSession?_congr ((header?_renewed_cookie order apart ended faithful.toFits).1 answer)
  | some newest =>
      have read := headerText?_eq_some.2 (header?_renewed_new_cookies order apart ended faithful answer)
      obtain ⟨-, -, same⟩ := cookieText_read (faithful.carried answer)
      rw [ownSession?, read, Option.bind_some, sessionToken?, same]
      rfl

theorem cookieUser?_renewed :
    cookieUser? rules (renewed rules order answers message) = cookieUser? rules message := by
  rw [cookieUser?, ownSession?_renewed order apart ended faithful]
  cases answer : answers .sessionCookie with
  | none => rfl
  | some newest =>
      obtain ⟨user, asked, token, session, named⟩ := faithful.filed .sessionCookie newest answer
      rw [Option.elim_some, session, Option.map_some, Option.bind_some, Token.identity?_trim, named]
      exact asked.symm

theorem session?_renewed :
    session? (answers .sessionCookie) (ownSession? rules (renewed rules order answers message)) rules =
      session? (answers .sessionCookie) (ownSession? rules message) rules := by
  rw [ownSession?_renewed order apart ended faithful]
  cases answer : answers .sessionCookie with
  | none => rfl
  | some newest =>
      obtain ⟨user, asked, token, session, -⟩ := faithful.filed .sessionCookie newest answer
      obtain ⟨own, carried, -⟩ := Option.bind_eq_some_iff.1 asked
      rw [carried, Option.elim_some, session]
      simp [session?, session]

theorem start_renewed :
    (renewed rules order answers message).layout.start = message.layout.start := by
  have start := (faithful.withCookies_apart order apart.cookie).1
  obtain ⟨ended', -⟩ := withCookies_kept order apart ended faithful.toFits
  rw [← start, renewed]
  cases form? rules _ _ with
  | none => rfl
  | some form =>
      have feed := lf_mem_of_ended (ended_setBody ended' (ofText form))
      show (withForm _ form).layout.start = _
      rw [withForm, start_setHeader_eq, if_pos feed, layout_setBody ended']

end Renewed

/-! ## Cookies in another order -/

inductive Reordered (message : Message) : Message → Prop where
  | same : Reordered message message
  | cookies {cookies : CookieMap} {text : String}
      (clean : ∀ field ∈ cookies.fields.pairs, CookieMap.Clean field)
      (read : message.headerText? cookieHeader = some cookies.render)
      (written : cookies.WrittenAs text) :
      Reordered message (message.setHeader cookieHeader (ofText text))

theorem proper_cookie : Proper cookieHeader := ⟨by decide, by decide, by decide⟩

theorem reordered_renewed {answers : Credential → Option String} (apart : NamesApart rules)
    (ended : message.layout.Ended) (faithful : Faithful rules message answers) {newest : String}
    (answer : answers .sessionCookie = some newest) (order' : CookieMap.Order) :
    Reordered (renewed rules order answers message)
      ((renewed rules order answers message).setHeader cookieHeader
        (ofText (cookieText order' newest))) := by
  have filled : (CookieMap.parse newest).isEmpty = false := by
    rw [CookieMap.isEmpty, decide_eq_false_iff_not]
    intro none
    have absent : sessionToken? rules newest = Option.none := by
      rw [sessionToken?, CookieMap.get?, Table.get?, List.length_eq_zero_iff.1 none]
      rfl
    exact faithful.carried answer absent
  have text (order : CookieMap.Order) :
      cookieText order newest = (order.arrange (CookieMap.parse newest)).render := by
    simp [cookieText, filled]
  have read := headerText?_eq_some.2 (header?_renewed_new_cookies order apart ended faithful answer)
  rw [text order] at read
  rw [text order']
  exact .cookies
    (fun field member => CookieMap.parse_clean newest field ((order.perm _).subset member)) read
    ⟨_, (order'.perm _).trans (order.perm _).symm, rfl⟩

section Reordered

variable {shown : Message} (reordered : Reordered message shown)
include reordered

theorem Reordered.shuffled (moved : shown ≠ message) :
    ∃ cookies : CookieMap, ∃ text, (∀ field ∈ cookies.fields.pairs, CookieMap.Clean field) ∧
      message.headerText? cookieHeader = some cookies.render ∧ cookies.WrittenAs text ∧
      shown = message.setHeader cookieHeader (ofText text) ∧ ofText text ≠ [] ∧
      trimBy isPad (ofText text) = ofText text ∧ (ofText text).getLast? ≠ some cr := by
  cases reordered with
  | same => exact absurd rfl moved
  | @cookies cookies text clean read written =>
      by_cases any : cookies.fields.pairs = []
      · -- Without fields there is one order only, and the text that is there is set again.
        obtain ⟨shown, perm, rfl⟩ := written
        rw [any] at perm
        have same : shown.render = cookies.render := by
          rw [CookieMap.render_eq, CookieMap.render_eq, any, perm.eq_nil]
        have kept := setHeader_of_header? (headerText?_eq_some.1 read)
        rw [← same] at kept
        exact absurd kept moved
      · exact ⟨cookies, text, clean, read, written, rfl, written.as_value clean any⟩

theorem Reordered.kept (rules : Rules) :
    shown.layout.start = message.layout.start ∧ shown.body = message.body ∧
      (∀ other, Apart cookieHeader other → shown.header? other = message.header? other) ∧
      ownSession? rules shown = ownSession? rules message ∧
      ∀ value, shown.setHeader cookieHeader value = message.setHeader cookieHeader value := by
  by_cases moved : shown = message
  · subst moved
    exact ⟨rfl, rfl, fun _ _ => rfl, rfl, fun _ => rfl⟩
  · obtain ⟨cookies, text, clean, read, written, rfl, filled, trimmed, last⟩ :=
      reordered.shuffled moved
    have feedless : lf ∉ ofText text := by
      rw [lf_mem_ofText, written.mem_iff]
      exact lf_notMem_of_headerText? read
    have present := header?_ne_none read
    have back : (message.setHeader cookieHeader (ofText text)).headerText? cookieHeader =
        some text := by
      rw [headerText?_eq_some, header?_setHeader_self feedless last present, trimmed]
    refine ⟨start_setHeader _ present, body_setHeader proper_cookie feedless,
      fun other apart => header?_setHeader_of_present apart feedless present, ?_,
      setHeader_setHeader present filled trimmed feedless last⟩
    rw [ownSession?, ownSession?, back, read, Option.bind_some, Option.bind_some, sessionToken?,
      sessionToken?, CookieMap.parse_of_writtenAs clean written,
      CookieMap.parse_of_writtenAs clean ⟨cookies, .refl _, rfl⟩]

end Reordered

/-! ## The second time -/

theorem withForm_eq_self {form : String} (body : message.body = ofText form)
    (length : message.header? contentLengthHeader =
      some (ofText (Decimal.text (ofText form).length))) : withForm message form = message := by
  have bodied : message.setBody (ofText form) = message := by
    rw [← body]
    exact congrArg Message.mk (Layout.bytes_ofBytes message.bytes)
  rw [withForm, bodied, setHeader_of_header? length]

section Again

variable {answers answers' : Credential → Option String} {shown : Message}
variable (apart : NamesApart rules) (ended : message.layout.Ended)
variable (faithful : Faithful rules message answers)
variable (reordered : Reordered (renewed rules order answers message) shown)
include apart ended faithful reordered

theorem asked?_again : Fewer (asked? rules shown) (asked? rules message) := by
  obtain ⟨start, -, others, own, -⟩ := reordered.kept rules
  -- The new token may name no one, and then less is asked for the second time.
  have bearer : bearer? rules shown = bearer? rules message ∨ bearer? rules shown = none := by
    rw [bearer?, headerText?_congr (others _ apart.cookie.symm), ← bearer?]
    exact bearer?_renewed order apart ended faithful
  have user : cookieUser? rules shown = cookieUser? rules message := by
    rw [cookieUser?, own, ← cookieUser?]
    exact cookieUser?_renewed order apart ended faithful
  have target : targetsProblem rules shown = targetsProblem rules message :=
    targetsProblem_congr (start.trans (start_renewed order apart ended faithful))
  refine ⟨user, fun credential asker asked => ?_⟩
  cases credential with
  | sessionCookie => exact user.symm.trans asked
  | accessToken =>
      rcases bearer with same | none
      · exact same.symm.trans asked
      · exact absurd (none.symm.trans asked) (by simp)
  | problem =>
      rw [asked?, problemUser?, target, user] at asked
      rw [asked?, problemUser?]
      rcases bearer with same | none
      · rwa [same] at asked
      · rw [none, Option.or_none] at asked
        split at asked
        · next targeted => rw [if_pos targeted, asked, Option.some_or]
        · cases asked

theorem renewed_again (order' : CookieMap.Order) (fewer : Fewer answers' answers) :
    let again := renewed rules order' answers' shown
    Reordered (renewed rules order answers message) again ∧
      (order' = order → again = renewed rules order answers message ∨ again = shown) := by
  obtain ⟨-, -, others, own, again⟩ := reordered.kept rules
  -- The token is set to the value it has. The cookies are the same ones, but written anew.
  have tokened : withToken rules (answers' .accessToken) shown = shown := by
    cases answer : answers' .accessToken with
    | none => rfl
    | some token =>
        refine setHeader_of_header? ?_
        rw [others _ apart.cookie.symm]
        exact header?_renewed_new_token order apart ended faithful (fewer.others _ _ answer)
  have cookied : Reordered (renewed rules order answers message)
        (withCookies order' (answers' .sessionCookie) shown) ∧
      (order' = order →
        withCookies order' (answers' .sessionCookie) shown = renewed rules order answers message ∨
          withCookies order' (answers' .sessionCookie) shown = shown) := by
    rw [fewer.session]
    cases answer : answers .sessionCookie with
    | none => exact ⟨reordered, fun _ => .inr rfl⟩
    | some newest =>
        have written : withCookies order' (some newest) shown =
            (renewed rules order answers message).setHeader cookieHeader
              (ofText (cookieText order' newest)) := again _
        rw [written]
        refine ⟨reordered_renewed apart ended faithful answer order', ?_⟩
        intro same
        rw [same]
        have read := header?_renewed_new_cookies order apart ended faithful answer
        exact .inl (setHeader_of_header? read)
  have session : session? (answers' .sessionCookie) (ownSession? rules shown) rules =
      session? (answers .sessionCookie) (ownSession? rules message) rules := by
    rw [fewer.session, own, session?_renewed order apart ended faithful]
  have formed {settled : Message}
      (settles : Reordered (renewed rules order answers message) settled) :
      withForm? (form? rules (session? (answers' .sessionCookie) (ownSession? rules shown) rules)
        (answers' .problem)) settled = settled := by
    obtain ⟨-, body, others, -⟩ := settles.kept rules
    cases answer : answers' .problem with
    | none => rw [form?_none]; rfl
    | some problem =>
        rw [session, ← fewer.others _ _ answer, ← newestForm?]
        cases made : newestForm? rules answers message with
        | none => rfl
        | some form =>
            obtain ⟨spliced, length⟩ := renewed_with_form apart ended faithful.toFits made
            exact withForm_eq_self (body.trans spliced)
              ((others _ cookie_apart_length).trans length)
  intro again
  have same : again = withCookies order' (answers' .sessionCookie) shown := by
    show renewed rules order' answers' shown = _
    rw [renewed, tokened]
    exact formed cookied.1
  rw [same]
  exact cookied

end Again

/-- The line that goes out for a request comes out again when it is processed at the same time, as long
as the cached access tokens can be read off a header, but that its cookies may be in another order. They
may be shown in another order too, and in the order of the first time what comes out is that line or the
first one. -/
theorem renewal_settles (rules : Rules) (order : CookieMap.Order) (apart : NamesApart rules) (ttl : Nat)
    (past : Past) (now : Nat)
    (readable : ∀ user token, ((after rules ttl past).cache .accessToken).stored? user = some token →
      HeaderText token)
    {line : Bytes} {frame : Frame} (read : Frame.ofLine line = .ok frame)
    (request : frame.kind = .request) (ended : lf ∈ frame.message.layout.blank) :
    ∃ message caches, processLine rules order line { after rules ttl past with now } =
        (.ok (some (Frame.line { frame with message })), caches) ∧
      ∀ shown order', Reordered message shown →
        ∃ again, (processLine rules order' (Frame.line { frame with message := shown })
            { caches with now }).1 = .ok (some (Frame.line { frame with message := again })) ∧
          Reordered message again ∧ (order' = order → again = message ∨ again = shown) := by
  let caches : LocalCaches := { after rules ttl past with now }
  let users := asked? rules frame.message
  let answers := caches.answers users
  have ended' := Layout.ended_of_lf_mem ended
  have sourced : Sourced rules past caches := sourced_after rules ttl past
  have fits : Fits rules frame.message answers := by
    apply sourced.fits
    intro token answer
    obtain ⟨user, -, found⟩ := LocalCaches.answers_eq_some answer
    exact (readable user token (LocalCache.stored?_of_get_fst found)).feedless
  have filed : LocalFiled rules caches := localFiled_after rules ttl past
  have faithful : Faithful rules frame.message answers := filed.faithful fits readable
  refine ⟨renewed rules order answers frame.message, caches.askAll users, ?_,
    fun shown order' reordered => ?_⟩
  · rw [processLine_request read request, renewRequest_renewed apart.cookie fits]
  · let answers' := (caches.askAll users).answers (asked? rules shown)
    have fewer : Fewer answers' answers :=
      (asked?_again apart ended' faithful reordered).answers caches
    have fits' : Fits rules shown answers' :=
      fits_answers (fun token answer => (fits.token token (fewer.others _ _ answer)).1)
        fun newest answer => (fits.cookies newest (fewer.others _ _ answer)).1
    have headed := (Frame.ofLine_eq_ok.1 read).1
    refine ⟨renewed rules order' answers' shown, ?_,
      renewed_again apart ended' faithful reordered order' fewer⟩
    rw [processLine_request (Frame.ofLine_line (headed.withMessage shown)) request]
    exact congrArg (fun run => Except.ok (some (Frame.line { frame with message := run.1 })))
      (renewRequest_renewed apart.cookie fits')

def opaqueLogin : Frame :=
  ⟨.replayedResponse, ofText "3 login 0", ⟨ofText ("HTTP/1.1 200 OK\r\n" ++
    "Set-Cookie: connect.sid=x.eyJ1c2VySUQiOjF9.y; Path=/\r\n\r\n" ++
    "\x7b\"data\":\x7b\"accessToken\":\"opaque\"\x7d\x7d")⟩⟩

def staleRequest : Frame :=
  ⟨.request, ofText "1 next 0", ⟨ofText ("GET / HTTP/1.1\r\n" ++
    "x-access-token: h.eyJ1c2VySUQiOjF9.s\r\nCookie: connect.sid=h.eyJ1c2VySUQiOjF9.s\r\n\r\n")⟩⟩

def renewedRequest : Message :=
  ⟨ofText ("GET / HTTP/1.1\r\n" ++
    "x-access-token: opaque\r\nCookie: connect.sid=x.eyJ1c2VySUQiOjF9.y;Path=/;\r\n\r\n")⟩

def newCookies : CookieMap :=
  (CookieMap.empty.insert "connect.sid" "x.eyJ1c2VySUQiOjF9.y").insert "Path" "/"

theorem opaque_request_settles :
    let past : Past := [(0, .frame opaqueLogin)]
    let shown := renewedRequest.setHeader cookieHeader
      (ofText "Path=/;connect.sid=x.eyJ1c2VySUQiOjF9.y;")
    ∃ caches, processLine {} .arrival staleRequest.line { after {} 1000 past with now := 5 } =
        (.ok (some (Frame.line { staleRequest with message := renewedRequest })), caches) ∧
      bearer? {} renewedRequest = none ∧
      ∃ again, (processLine {} .arrival (Frame.line { staleRequest with message := shown })
          { caches with now := 5 }).1 = .ok (some (Frame.line { staleRequest with message := again })) ∧
        (again = renewedRequest ∨ again = shown) := by
  intro past shown
  have readable : ∀ user token,
      ((after {} 1000 past).cache .accessToken).stored? user = some token → HeaderText token := by
    intro user token stored
    have only : ((after {} 1000 past).cache .accessToken).entries.pairs = [("1", ⟨"opaque", 0⟩)] := by
      decide +kernel
    rw [LocalCache.stored?, Table.get?, only, List.lookup_cons] at stored
    split at stored
    · cases stored
      exact ⟨by decide, by decide, by simp, by simp⟩
    · cases stored
  have headed : staleRequest.Headed := ⟨by decide +kernel, by decide +kernel, by decide +kernel⟩
  have read := Frame.ofLine_line headed
  obtain ⟨message, caches, processed, settles⟩ :=
    renewal_settles {} .arrival ⟨by decide, by decide⟩ 1000 past 5 readable read rfl
      (by decide +kernel)
  obtain rfl : message = renewedRequest := by
    rw [processLine_request read rfl, Prod.mk.injEq, Except.ok.injEq, Option.some.injEq] at processed
    rw [← headed.message_inj processed.1]
    decide +kernel
  have fields : newCookies.fields.pairs =
      [("connect.sid", "x.eyJ1c2VySUQiOjF9.y"), ("Path", "/")] := by decide
  have clean : ∀ field ∈ newCookies.fields.pairs, CookieMap.Clean field := by
    rw [fields, List.forall_mem_cons, List.forall_mem_singleton]
    constructor <;> constructor <;> decide +kernel
  have reordered : Reordered renewedRequest shown := .cookies clean (by decide +kernel)
    ⟨(CookieMap.empty.insert "Path" "/").insert "connect.sid"
      "x.eyJ1c2VySUQiOjF9.y", by decide +kernel, by decide +kernel⟩
  obtain ⟨again, same, -, settled⟩ := settles shown .arrival reordered
  exact ⟨caches, processed, by decide +kernel, again, same, settled rfl⟩

end Relay

end CredentialRelay

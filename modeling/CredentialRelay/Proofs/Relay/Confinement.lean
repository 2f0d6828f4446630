import Mathlib
import CredentialRelay.Proofs.Relay.Emission
import CredentialRelay.Proofs.Relay.Past

namespace CredentialRelay.Relay
open Bytes Cache Http Http.Message

/-- The request has a form body and its length, which was added if there was none, and differs in
header values else. -/
structure Spliced (rules : Rules) (message message' : Message) : Prop where
  target : targetsProblem rules message = true
  form : ∃ session problem form, LessonForm.body session rules.lessonClaim problem = .ok form ∧
    (OnlyValues [rules.accessTokenHeader, cookieHeader, contentLengthHeader]
        { message.layout with body := ofText form } message'.layout ∨
      message.header? contentLengthHeader = none ∧
        ∃ line layout, (fieldNamed? contentLengthHeader line).isSome ∧
          OnlyValues [rules.accessTokenHeader, cookieHeader]
            { message.layout with body := ofText form } layout ∧
          message'.layout = { layout with headers := line :: layout.headers })

def Confined (rules : Rules) (message message' : Message) : Prop :=
  OnlyValues [rules.accessTokenHeader, cookieHeader] message.layout message'.layout ∨
    Spliced rules message message'

variable {rules : Rules} {order : CookieMap.Order} {message : Message}

section Feedless

variable {answers : Credential → Option String}

theorem onlyValues_withCookies (apart : NamesApart rules)
    (whole : ∀ line ∈ message.layout.headers, IsLine line) (fits : Fits rules message answers) :
    OnlyValues [rules.accessTokenHeader, cookieHeader] message.layout
      (withCookies order (answers .sessionCookie)
        (withToken rules (answers .accessToken) message)).layout := by
  rw [layout_withCookies order apart.cookie whole fits]
  exact onlyValues_exchange (feedless_of_mem_newestValues fits)
    (newestValues_subset rules order answers) _

variable (apart : NamesApart rules) (ended : message.layout.Ended) (fits : Fits rules message answers)
include apart ended fits

theorem spliced_withForm (target : targetsProblem rules message = true)
    {session problem form : String}
    (made : LessonForm.body session rules.lessonClaim problem = .ok form) :
    Spliced rules message (withForm (withCookies order (answers .sessionCookie)
      (withToken rules (answers .accessToken) message)) form) := by
  let tokened := withToken rules (answers .accessToken) message
  let cookied := withCookies order (answers .sessionCookie) tokened
  let bodied := cookied.setBody (ofText form)
  let old : Layout := { message.layout with body := ofText form }
  have whole : ∀ line ∈ message.layout.headers, IsLine line := fun line member =>
    (ended.headers line member).1
  obtain ⟨ended', -⟩ := withCookies_kept order apart ended fits
  have layout : bodied.layout =
      { old with headers := exchange (newestValues rules order answers) message.layout.headers } := by
    rw [layout_setBody ended', layout_withCookies order apart.cookie whole fits]
  have bodied' : bodied.layout.Ended := ended_setBody ended' (ofText form)
  have feedless := lf_notMem_text (ofText form).length
  refine ⟨target, session, problem, form, made, ?_⟩
  by_cases absent : bodied.header? contentLengthHeader = none
  · obtain ⟨-, -, field, found, -⟩ := newField_read proper_length feedless bodied.layout.start
    have edited := layout_setHeader_absent proper_length feedless absent
    rw [insertHeader_eq, if_pos bodied'.start.getLast?] at edited
    have values : OnlyValues [rules.accessTokenHeader, cookieHeader] old bodied.layout :=
      layout ▸ onlyValues_exchange (feedless_of_mem_newestValues fits)
        (newestValues_subset rules order answers) old
    refine .inr ⟨?_, _, bodied.layout, by simp [found], values, edited⟩
    rw [← (fits.withCookies_apart order apart.cookie).2 _ apart.length cookie_apart_length,
      ← header?_setBody ended' (ofText form)]
    exact absent
  · have edited := layout_setHeader_of_present feedless absent
    rw [layout, exchange_newestValues apart fits whole] at edited
    exact .inl (edited ▸ onlyValues_exchange (feedless_of_mem_splicedValues fits (ofText form))
      (splicedValues_subset rules order answers (ofText form)) old)

theorem confined_renewed (asked : answers .problem ≠ none → targetsProblem rules message = true) :
    Confined rules message (renewed rules order answers message) := by
  unfold renewed
  dsimp only
  cases made : form? rules _ _ with
  | none =>
      exact .inl (onlyValues_withCookies apart (fun line member => (ended.headers line member).1) fits)
  | some form =>
      obtain ⟨session, problem, -, answer, body⟩ := form?_eq_some made
      have target := asked (by simp [answer])
      exact .inr (spliced_withForm apart ended fits target body)

end Feedless

def feeds (value : Option Bytes) : Nat := value.elim 0 (List.count lf)

theorem withValue?_feeds {name : String} {value : Option Bytes}
    (present : value ≠ none → message.header? name ≠ none) :
    (withValue? name value message).bytes.count lf = message.bytes.count lf + feeds value ∧
      (withValue? name value message).layout.start = message.layout.start := by
  cases value with
  | none => exact ⟨rfl, rfl⟩
  | some value =>
      have there := present (Option.some_ne_none value)
      exact ⟨count_lf_setHeader value there, start_setHeader value there⟩

theorem renewRequest_feeds (order : CookieMap.Order) {past : Past} {caches : LocalCaches}
    (sourced : Sourced rules past caches) (elsewhere : targetsProblem rules message = false) :
    (renewRequest rules order message caches).1.bytes.count lf =
      message.bytes.count lf +
        feeds ((caches.ask .accessToken (bearer? rules message)).1.map ofText) := by
  let token := caches.ask .accessToken (bearer? rules message)
  let tokened := withToken rules token.1 message
  let newest := token.2.ask .sessionCookie (cookieUser? rules tokened)
  let cookied := withCookies order newest.1 tokened
  have first : tokened.bytes.count lf = message.bytes.count lf + feeds (token.1.map ofText) ∧
      tokened.layout.start = message.layout.start := by
    refine withValue?_feeds fun answered => ?_
    rw [ne_eq, Option.map_eq_none_iff] at answered
    obtain ⟨user, bearer⟩ := LocalCaches.exists_user_of_ask answered
    exact header?_of_bearer? bearer
  have second : cookied.bytes.count lf = tokened.bytes.count lf +
      feeds (newest.1.map fun newest => ofText (cookieText order newest)) ∧
      cookied.layout.start = tokened.layout.start := by
    refine withValue?_feeds fun answered => ?_
    rw [ne_eq, Option.map_eq_none_iff] at answered
    obtain ⟨user, named⟩ := LocalCaches.exists_user_of_ask answered
    exact header?_of_cookieUser? named
  have clean : feeds (newest.1.map fun newest => ofText (cookieText order newest)) = 0 := by
    cases answer : newest.1 with
    | none => rfl
    | some text =>
        have plain := (sourced.ask .accessToken (bearer? rules message)).lf_notMem_of_ask answer
        exact List.count_eq_zero.2 (lf_notMem_cookieText plain)
  have away : targetsProblem rules cookied = false :=
    (targetsProblem_congr (second.2.trans first.2)).trans elsewhere
  have out : (renewRequest rules order message caches).1 = cookied := by
    rw [renewRequest_local]
    show withForm? (form? rules _ (newest.2.ask .problem
      (if targetsProblem rules cookied then _ else none)).1) cookied = cookied
    rw [away, if_neg Bool.false_ne_true, LocalCaches.ask, form?_none]
    rfl
  rw [out, second.1, clean, first.1, Nat.add_zero]

def Emits (rules : Rules) (order : CookieMap.Order) (caches : LocalCaches) (frame : Frame)
    (message : Message) : Prop :=
  ∃ caches', process rules order frame caches = (.ok (some { frame with message }), caches')

theorem emits_request (rules : Rules) (order : CookieMap.Order) (caches : LocalCaches) {frame : Frame}
    (request : frame.kind = .request) {message : Message} :
    Emits rules order caches frame message ↔
      message = (renewRequest rules order frame.message caches).1 := by
  constructor
  · rintro ⟨caches', same⟩
    rw [process_request request] at same
    cases same
    rfl
  · rintro rfl
    exact ⟨_, process_request request⟩

theorem confined_of_feedless {past : Past} {caches : LocalCaches} (apart : NamesApart rules)
    (sourced : Sourced rules past caches) (ended : message.layout.Ended)
    (feedless : ∀ text ∈ (caches.ask .accessToken (bearer? rules message)).1, '\n' ∉ text.toList) :
    Confined rules message (renewRequest rules order message caches).1 := by
  have fits : Fits rules message (caches.answers (asked? rules message)) := sourced.fits feedless
  rw [renewRequest_renewed apart.cookie fits]
  refine confined_renewed apart ended fits fun answered => ?_
  obtain ⟨user, asked⟩ := LocalCaches.exists_user_of_ask answered
  by_contra elsewhere
  rw [asked?, problemUser?, if_neg elsewhere] at asked
  cases asked

theorem feedless_of_confined {past : Past} {caches : LocalCaches}
    (sourced : Sourced rules past caches) (ended : message.layout.Ended)
    (elsewhere : targetsProblem rules message = false)
    (confined : Confined rules message (renewRequest rules order message caches).1) :
    ∀ text ∈ (caches.ask .accessToken (bearer? rules message)).1, '\n' ∉ text.toList := by
  have kept : OnlyValues [rules.accessTokenHeader, cookieHeader] message.layout
      (renewRequest rules order message caches).1.layout := by
    rcases confined with values | spliced
    · exact values
    · rw [spliced.target] at elsewhere
      cases elsewhere
  have same := kept.count_lf ended
  have count := renewRequest_feeds order sourced elsewhere
  rw [Message.layout, Message.layout, Layout.bytes_ofBytes, Layout.bytes_ofBytes, count] at same
  intro text member
  have none := Nat.add_eq_left.1 same
  rw [member] at none
  rw [← lf_mem_ofText]
  exact List.count_eq_zero.1 none

def pathless (message : Message) : Message :=
  ofLayout { message.layout with start := ofText "GET\n" }

theorem layout_pathless (ended : message.layout.Ended) :
    (pathless message).layout = { message.layout with start := ofText "GET\n" } := by
  have start : IsLine (ofText "GET\n") := ⟨ofText "GET", by decide, by decide⟩
  exact layout_ofLayout ⟨start, ended.headers, ended.blank, ended.empty⟩

theorem bearer?_pathless (ended : message.layout.Ended) :
    bearer? rules (pathless message) = bearer? rules message := by
  have same : (pathless message).header? rules.accessTokenHeader =
      message.header? rules.accessTokenHeader := by
    rw [header?_eq, header?_eq, layout_pathless ended]
  rw [bearer?, bearer?, headerText?, headerText?, same]

theorem targetsProblem_pathless (ended : message.layout.Ended) :
    targetsProblem rules (pathless message) = false := by
  have line : (pathless message).startLine = ofText "GET" := by
    rw [startLine, layout_pathless ended]
    show content (ofText "GET\n") = ofText "GET"
    decide
  have words : (pathless message).words = [ofText "GET"] := by
    rw [words, line]
    decide
  have none : (pathless message).path? = none := by
    rw [path?, words]
    split <;> rfl
  rw [targetsProblem, none, Option.any_none]

/-- A request goes out confined to its own lines if the token put into it has no line feed, and, away
from the problem endpoint, only then. So all requests of a user do, if and only if the token that the
user has got has none. -/
theorem request_confined_iff (rules : Rules) (order : CookieMap.Order) (apart : NamesApart rules)
    (ttl : Nat) (past : Past) (now : Nat) {frame : Frame} (request : frame.kind = .request)
    (ended : lf ∈ frame.message.layout.blank) :
    let caches := { after rules ttl past with now }
    let user := bearer? rules frame.message
    let feedless := ∀ text ∈ (caches.ask .accessToken user).1, '\n' ∉ text.toList
    (∃ message, Emits rules order caches frame message ∧
      (feedless → Confined rules frame.message message) ∧
      (targetsProblem rules frame.message = false →
        Confined rules frame.message message → feedless)) ∧
    ((∀ other message, other.kind = .request → lf ∈ other.message.layout.blank →
      bearer? rules other.message = user → Emits rules order caches other message →
        Confined rules other.message message) ↔ feedless) := by
  intro caches user feedless
  have ended' := Layout.ended_of_lf_mem ended
  have sourced : Sourced rules past caches := sourced_after rules ttl past
  refine ⟨⟨_, (emits_request rules order caches request).2 rfl, confined_of_feedless apart sourced ended',
    feedless_of_confined sourced ended'⟩, fun all => ?_, ?_⟩
  · -- Without a path the request has the same token and gets no form, so the token alone tells.
    have layout := layout_pathless ended'
    have same : bearer? rules (pathless frame.message) = user := bearer?_pathless ended'
    let other : Frame := { frame with message := pathless frame.message }
    have requests : other.kind = .request := request
    have emits : Emits rules order caches other _ := (emits_request rules order caches requests).2 rfl
    have confined := all other _ requests (by rw [layout]; exact ended) same emits
    have pathlessEnded : (pathless frame.message).layout.Ended :=
      Layout.ended_of_lf_mem (by rw [← Message.layout, layout]; exact ended)
    have clean := feedless_of_confined sourced pathlessEnded
      (targetsProblem_pathless ended') confined
    rwa [same] at clean
  · intro clean other message request' otherEnded same emits
    obtain rfl := (emits_request rules order caches request').1 emits
    exact confined_of_feedless apart sourced (Layout.ended_of_lf_mem otherEnded) (same ▸ clean)

def injectingResponse : Frame :=
  ⟨.replayedResponse, ofText "3 login 0", ⟨ofText ("HTTP/1.1 200 OK\r\n\r\n" ++
    "\x7b\"data\":\x7b\"accessToken\":\"h.eyJ1c2VySUQiOjF9.s\\r\\nX-Injected: 1\"\x7d\x7d")⟩⟩

def tokenRequest : Frame :=
  ⟨.request, ofText "1 next 0", ⟨ofText
    "GET / HTTP/1.1\r\nx-access-token: h.eyJ1c2VySUQiOjF9.s\r\nAccept: b\r\n\r\n"⟩⟩

theorem token_adds_header :
    ∃ message, Emits {} .arrival { after {} 1000 [(0, .frame injectingResponse)] with now := 0 }
        tokenRequest message ∧ ¬Confined {} tokenRequest.message message := by
  have ended : lf ∈ tokenRequest.message.layout.blank := by decide +kernel
  have elsewhere : targetsProblem {} tokenRequest.message = false := by decide +kernel
  have token : (LocalCaches.ask .accessToken (bearer? {} tokenRequest.message)
      { after {} 1000 [(0, .frame injectingResponse)] with now := 0 }).1 =
        some "h.eyJ1c2VySUQiOjF9.s\r\nX-Injected: 1" := by decide +kernel
  obtain ⟨⟨message, emits, -, only⟩, -⟩ :=
    request_confined_iff {} .arrival ⟨by decide, by decide⟩ 1000 [(0, .frame injectingResponse)] 0
      rfl ended
  refine ⟨message, emits, fun confined => ?_⟩
  exact absurd (only elsewhere confined _ token) (by decide)

end CredentialRelay.Relay

import Mathlib
import CredentialRelay.Proofs.Relay.Past

/-!
# What a request becomes, by what came before

The caches are determined by the frames before: each holds for a user what the newest response
about that user taught, unless the user was absent for too long. A request goes out with that, so it
depends on the events before it through the uses of two entries only.
-/

namespace CredentialRelay.Relay
open Bytes Cache Http

/-- Requests have their headers ended by an empty line; a token in a response has no line ends. -/
def Sound (rules : Rules) : Event → Prop
  | .frame frame _ =>
    match frame.kind with
    | .request => lf ∈ frame.message.layout.blank
    | .recordedResponse => True
    | .replayedResponse =>
      ∀ token ∈ newToken? rules frame.message, '\r' ∉ token.toList ∧ '\n' ∉ token.toList
  | .sweep _ => True

def Feedless (rules : Rules) (past : Past) : Prop :=
  ∀ user token, Taught rules past .accessToken user token → '\n' ∉ token.toList

def useOf? (rules : Rules) (credential : Credential) (user : String) : Event → Option Use
  | .frame frame _ =>
    match frame.kind with
    | .request => if asked? rules frame.message credential = some user then some .read else none
    | .recordedResponse => none
    | .replayedResponse =>
      (taught? rules frame.message credential).bind fun (owner, value) =>
        if owner = user then some (.write value) else none
  | .sweep _ => none

def uses (rules : Rules) (credential : Credential) (user : String) (past : Past) :
    List (Nat × Use) :=
  past.filterMap fun (time, event) => (useOf? rules credential user event).map (time, ·)

theorem taught_of_use {rules : Rules} {credential : Credential} {user value : String}
    {event : Event} (h : useOf? rules credential user event = some (.write value)) :
    ∃ frame order, event = .frame frame order ∧ frame.kind = .replayedResponse ∧
      taught? rules frame.message credential = some (user, value) := by
  cases event with
  | sweep _ => cases h
  | frame frame order =>
      unfold useOf? at h
      dsimp only at h
      cases kind : frame.kind with
      | request =>
          rw [kind] at h
          dsimp only at h
          split at h <;> cases h
      | recordedResponse =>
          rw [kind] at h
          cases h
      | replayedResponse =>
          rw [kind] at h
          obtain ⟨⟨owner, text⟩, taught, use⟩ := Option.bind_eq_some_iff.1 h
          dsimp only at use
          split at use
          · next same =>
            cases use
            exact ⟨frame, order, rfl, kind, by rw [taught, same]⟩
          · cases use

theorem taught_of_kept {rules : Rules} {credential : Credential} {user value : String}
    {past : Past} {ttl now : Nat}
    (kept : Kept ttl now (uses rules credential user past) value) :
    Taught rules past credential user value := by
  obtain ⟨time, member⟩ := kept.mem
  obtain ⟨⟨time, event⟩, inside, use⟩ := List.mem_filterMap.1 member
  obtain ⟨use, found, same⟩ := Option.map_eq_some_iff.1 use
  cases same
  obtain ⟨frame, order, rfl, kind, taught⟩ := taught_of_use found
  exact ⟨time, frame, order, inside, kind, taught⟩

structure Tells (rules : Rules) (ttl : Nat) (past : Past) (caches : LocalCaches) : Prop where
  ttl : ∀ credential, (caches.cache credential).ttl = ttl
  follows : ∀ credential user,
    (caches.cache credential).Follows user caches.now (uses rules credential user past)

theorem uses_cons (rules : Rules) (credential : Credential) (user : String) (time : Nat)
    (event : Event) (past : Past) :
    uses rules credential user ((time, event) :: past) =
      match useOf? rules credential user event with
      | some use => (time, use) :: uses rules credential user past
      | none => uses rules credential user past := by
  rw [uses, List.filterMap_cons]
  dsimp only
  cases useOf? rules credential user event <;> rfl

section Steps

variable {rules : Rules} {order : CookieMap.Order} {ttl : Nat} {past : Past} {caches : LocalCaches}

theorem tells_empty (rules : Rules) (ttl : Nat) : Tells rules ttl [] (.empty ttl) :=
  ⟨fun _ => rfl, fun _ user => LocalCache.follows_empty ttl user 0⟩

theorem Tells.later (tells : Tells rules ttl past caches) {now : Nat} (order : caches.now ≤ now) :
    Tells rules ttl past { caches with now } :=
  ⟨tells.ttl, fun credential user => (tells.follows credential user).mono order⟩

theorem Tells.answers (tells : Tells rules ttl past caches)
    (users : Credential → Option String) (credential : Credential) :
    caches.answers users credential = (users credential).bind fun user =>
      held? ttl caches.now (uses rules credential user past) := by
  unfold LocalCaches.answers LocalCaches.ask
  cases users credential with
  | none => rfl
  | some user =>
      have held := (tells.follows credential user).get_fst
      rw [tells.ttl credential] at held
      exact held

theorem Feedless.fits (feedless : Feedless rules past) (sourced : Sourced rules past caches)
    (message : Message) : Fits rules message (caches.answers (asked? rules message)) := by
  apply sourced.fits
  intro token answer
  obtain ⟨user, taught⟩ := sourced.taught_of_ask answer
  exact feedless user token taught

theorem feedless_of_sound (sound : ∀ entry ∈ past, Sound rules entry.2) : Feedless rules past := by
  rintro user token ⟨time, frame, order, member, kind, taught⟩
  have clean := sound _ member
  simp only [Sound, kind] at clean
  exact (clean token (newToken_of_taught taught)).2

theorem fits_of_sound (sourced : Sourced rules past caches)
    (sound : ∀ entry ∈ past, Sound rules entry.2) (message : Message) :
    Fits rules message (caches.answers (asked? rules message)) :=
  (feedless_of_sound sound).fits sourced message

theorem Tells.request (tells : Tells rules ttl past caches) {frame : Frame}
    (kind : frame.kind = .request) :
    Tells rules ttl ((caches.now, .frame frame order) :: past)
      (caches.askAll (asked? rules frame.message)) := by
  refine ⟨fun credential => ?_, fun credential user => ?_⟩
  · rw [← tells.ttl credential]
    exact LocalCaches.ttl_ask credential _ caches
  have before := tells.follows credential user
  rw [uses_cons]
  simp only [useOf?, kind]
  show ((caches.ask credential (asked? rules frame.message credential)).2.cache credential).Follows
    user caches.now _
  rw [LocalCaches.ask_snd, LocalCaches.cache_edit, if_pos rfl]
  cases asked : asked? rules frame.message credential with
  | none => exact before
  | some asker =>
      by_cases same : asker = user
      · subst same
        rw [if_pos rfl]
        exact before.get
      · rw [if_neg fun h => same (Option.some.inj h)]
        exact before.get_of_ne (Ne.symm same) caches.now

theorem Tells.response (tells : Tells rules ttl past caches) {frame : Frame}
    (kind : frame.kind = .replayedResponse) :
    Tells rules ttl ((caches.now, .frame frame order) :: past)
      (caches.noteAll (taught? rules frame.message)) := by
  refine ⟨fun credential => ?_, fun credential user => ?_⟩
  · rw [← tells.ttl credential]
    exact LocalCaches.ttl_note credential _ caches
  have before := tells.follows credential user
  rw [uses_cons]
  simp only [useOf?, kind]
  show ((caches.note credential (taught? rules frame.message credential)).cache credential).Follows
    user caches.now _
  rw [LocalCaches.note_eq, LocalCaches.cache_edit, if_pos rfl]
  cases taught : taught? rules frame.message credential with
  | none => exact before
  | some lesson =>
      obtain ⟨owner, value⟩ := lesson
      rw [Option.elim_some, Option.bind_some]
      by_cases same : owner = user
      · subst same
        rw [if_pos rfl]
        exact LocalCache.follows_set caches.now owner value (caches.cache credential) _
      · rw [if_neg same]
        exact before.set_of_ne (Ne.symm same) caches.now value

theorem Tells.recorded (tells : Tells rules ttl past caches) {frame : Frame}
    (kind : frame.kind = .recordedResponse) :
    Tells rules ttl ((caches.now, .frame frame order) :: past) caches := by
  refine ⟨tells.ttl, fun credential user => ?_⟩
  rw [uses_cons]
  simp only [useOf?, kind]
  exact tells.follows credential user

theorem Tells.sweep (tells : Tells rules ttl past caches) (swept : Credential) :
    Tells rules ttl ((caches.now, .sweep swept) :: past) (caches.sweep swept) := by
  refine ⟨fun credential => ?_, fun credential user => ?_⟩
  · rw [LocalCaches.sweep_eq, LocalCaches.cache_edit, ← tells.ttl credential]
    split <;> rfl
  · rw [uses_cons, LocalCaches.sweep_eq, LocalCaches.cache_edit]
    split
    · exact (tells.follows credential user).sweep
    · exact tells.follows credential user

theorem process_fitting (apart : Apart rules.accessTokenHeader cookieHeader) {frame : Frame}
    (kind : frame.kind = .request)
    (fits : Fits rules frame.message (caches.answers (asked? rules frame.message))) :
    process rules order frame caches =
      (.ok (some { frame with
        message := renewed rules order (caches.answers (asked? rules frame.message)) frame.message }),
        caches.askAll (asked? rules frame.message)) := by
  rw [process_request kind, renewRequest_renewed apart fits]

theorem Tells.perform (tells : Tells rules ttl past caches) (sourced : Sourced rules past caches)
    (apart : Apart rules.accessTokenHeader cookieHeader) (feedless : Feedless rules past)
    (event : Event) :
    Tells rules ttl ((caches.now, event) :: past) (perform rules event caches) ∧
      (perform rules event caches).now = caches.now := by
  cases event with
  | sweep swept => exact ⟨tells.sweep swept, rfl⟩
  | frame frame order =>
      unfold Relay.perform
      dsimp only
      cases kind : frame.kind with
      | request =>
          rw [process_fitting apart kind (feedless.fits sourced frame.message)]
          exact ⟨tells.request kind, rfl⟩
      | recordedResponse =>
          rw [process_recorded kind]
          exact ⟨tells.recorded kind, rfl⟩
      | replayedResponse =>
          rw [process_response kind]
          exact ⟨tells.response kind, rfl⟩

end Steps

theorem tells_of_feedless {rules : Rules} (apart : Apart rules.accessTokenHeader cookieHeader)
    (ttl : Nat) {past : Past} (feedless : Feedless rules past) {now : Nat}
    (ordered : Ordered now past) :
    Tells rules ttl past (after rules ttl past) ∧ (after rules ttl past).now ≤ now := by
  induction past generalizing now with
  | nil => exact ⟨tells_empty rules ttl, Nat.zero_le now⟩
  | cons entry past ih =>
      obtain ⟨time, event⟩ := entry
      rw [Ordered, List.map_cons, List.isChain_cons_cons] at ordered
      have clean : Feedless rules past := fun user token taught =>
        feedless user token (taught.cons (time, event))
      obtain ⟨before, order⟩ := ih clean ordered.2
      have sourced : Sourced rules past { after rules ttl past with now := time } :=
        sourced_after rules ttl past
      obtain ⟨tells, same⟩ := (before.later order).perform sourced apart clean event
      exact ⟨tells, same ▸ ordered.1⟩

theorem tells_after {rules : Rules} (apart : NamesApart rules) (ttl : Nat) {past : Past}
    (sound : ∀ entry ∈ past, Sound rules entry.2) {now : Nat} (ordered : Ordered now past) :
    Tells rules ttl past (after rules ttl past) ∧ (after rules ttl past).now ≤ now :=
  tells_of_feedless apart.cookie ttl (feedless_of_sound sound) ordered

/-- A request is renewed with the newest credentials of its users. The cookies that go out are those
of the newest response about the cookies' user, and the access token is the newest of the token's
user, as long as the entry was kept; otherwise they go out as they came in. -/
theorem request_renewed_by_history (rules : Rules) (order : CookieMap.Order)
    (apart : NamesApart rules) (ttl : Nat) {past : Past}
    (sound : ∀ entry ∈ past, Sound rules entry.2) {now : Nat} (ordered : Ordered now past)
    {frame : Frame} (request : frame.kind = .request) (ended : lf ∈ frame.message.layout.blank) :
    ∃ message caches,
      process rules order frame { after rules ttl past with now } =
        (.ok (some { frame with message }), caches) ∧
      (∀ user, cookieUser? rules frame.message = some user →
        (∀ text, Kept ttl now (uses rules .sessionCookie user past) text →
          ∃ cookies, message.headerText? cookieHeader = some cookies ∧
            ∀ name, (CookieMap.parse cookies).get? name =
              ((CookieMap.parse text).get? name).map Text.trim) ∧
        ((∀ text, ¬Kept ttl now (uses rules .sessionCookie user past) text) →
          message.header? cookieHeader = frame.message.header? cookieHeader)) ∧
      (∀ user, bearer? rules frame.message = some user →
        (∀ token, Kept ttl now (uses rules .accessToken user past) token →
          message.header? rules.accessTokenHeader = some (trimBy isPad (ofText token))) ∧
        ((∀ token, ¬Kept ttl now (uses rules .accessToken user past) token) →
          message.header? rules.accessTokenHeader =
            frame.message.header? rules.accessTokenHeader)) := by
  obtain ⟨before, earlier⟩ := tells_after apart ttl sound ordered
  have tells := before.later earlier
  have sourced : Sourced rules past { after rules ttl past with now } :=
    sourced_after rules ttl past
  have fits := fits_of_sound sourced sound frame.message
  have ended' := Layout.ended_of_lf_mem ended
  refine ⟨_, _, process_fitting apart.cookie request fits, ?_, ?_⟩
  · intro user named
    have answer := tells.answers (asked? rules frame.message) .sessionCookie
    have cookie := header?_renewed_cookie order apart ended' fits
    rw [show asked? rules frame.message .sessionCookie = some user from named,
      Option.bind_some] at answer
    constructor
    · intro text kept
      rw [held?_eq_some_iff.2 kept] at answer
      obtain ⟨_, _, _, -, -, taught⟩ := taught_of_kept kept
      obtain ⟨token, carried, -⟩ := Option.bind_eq_some_iff.1 (newSession_of_taught taught).2
      obtain ⟨last, trimmed, read⟩ := cookieText_read (carried.trans_ne (Option.some_ne_none token))
      refine ⟨cookieText order text, ?_, read⟩
      rw [Message.headerText?, cookie.2 text answer last, trimmed, Option.bind_some, text?_ofText]
    · intro lapsed
      rw [held?_eq_none_iff.2 lapsed] at answer
      exact cookie.1 answer
  · intro user named
    have answer := tells.answers (asked? rules frame.message) .accessToken
    have header := header?_renewed_token order apart ended' fits
    rw [show asked? rules frame.message .accessToken = some user from named,
      Option.bind_some] at answer
    constructor
    · intro token kept
      rw [held?_eq_some_iff.2 kept] at answer
      obtain ⟨time, response, _, member, kind, taught⟩ := taught_of_kept kept
      have clean := sound _ member
      simp only [Sound, kind] at clean
      obtain ⟨returnless, feedless⟩ := clean token (newToken_of_taught taught)
      rw [← lf_mem_ofText] at feedless
      rw [← cr_mem_ofText] at returnless
      rw [header, answer]
      exact Message.header?_setHeader_self feedless
        (fun last => returnless (List.mem_of_getLast? last)) (header?_of_bearer? named)
    · intro lapsed
      rw [held?_eq_none_iff.2 lapsed] at answer
      rw [header, answer]
      rfl

def loginResponse : Frame :=
  ⟨.replayedResponse, ofText "3 login", ⟨ofText
    "HTTP/1.1 200 OK\r\nSet-Cookie: connect.sid=a.eyJ1c2VySUQiOjF9.b; Path=/\r\n\r\n"⟩⟩

def nextRequest : Frame :=
  ⟨.request, ofText "1 next", ⟨ofText
    "GET / HTTP/1.1\r\nCookie: connect.sid=c.eyJ1c2VySUQiOjF9.d\r\n\r\n"⟩⟩

theorem login_reaches_next_request :
    ∃ message caches,
      process {} .arrival nextRequest { after {} 1000 [(0, .frame loginResponse)] with now := 1000 } =
        (.ok (some { nextRequest with message }), caches) ∧
      ∃ cookies, message.headerText? cookieHeader = some cookies ∧
        (CookieMap.parse cookies).get? "connect.sid" = some "a.eyJ1c2VySUQiOjF9.b" := by
  have sound : ∀ entry ∈ [(0, Event.frame loginResponse)], Sound {} entry.2 := by
    intro entry member
    rw [List.mem_singleton.1 member]
    have bodiless : newToken? {} loginResponse.message = none := by decide +kernel
    intro token answer
    rw [bodiless] at answer
    cases answer
  have ordered : Ordered 1000 [(0, Event.frame loginResponse)] := by simp [Ordered]
  have ended : lf ∈ nextRequest.message.layout.blank := by decide +kernel
  have user : cookieUser? {} nextRequest.message = some "1" := by decide +kernel
  have written : uses {} .sessionCookie "1" [(0, .frame loginResponse)] =
      [(0, .write "connect.sid=a.eyJ1c2VySUQiOjF9.b; Path=/")] := by decide +kernel
  obtain ⟨message, caches, result, cookies, -⟩ :=
    request_renewed_by_history {} .arrival ⟨by decide, by decide⟩ 1000 sound ordered rfl ended
  have kept := (cookies "1" user).1 "connect.sid=a.eyJ1c2VySUQiOjF9.b; Path=/"
    (written ▸ ⟨[], 0, [], rfl, nofun, by simp⟩)
  obtain ⟨text, read, same⟩ := kept
  refine ⟨message, caches, result, text, read, ?_⟩
  rw [same]
  decide +kernel

end CredentialRelay.Relay

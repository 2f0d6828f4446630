import Mathlib
import CredentialRelay.Proofs.Relay.History

namespace CredentialRelay.Relay
open Cache Http

/-- Whom the credentials in a frame are of. -/
def users (rules : Rules) (frame : Frame) : List String :=
  match frame.kind with
  | .request => (bearer? rules frame.message).toList ++ (cookieUser? rules frame.message).toList
  | .recordedResponse => []
  | .replayedResponse =>
    (sessionUser? rules frame.message).toList ++ (tokenUser? rules frame.message).toList

def framesOf (past : Past) : List (Nat × Frame) :=
  past.filterMap fun (time, event) =>
    match event with
    | .frame frame _ => some (time, frame)
    | .sweep _ => none

def framesAbout (rules : Rules) (group : Set String) [DecidablePred (· ∈ group)] (past : Past) :
    List (Nat × Frame) :=
  (framesOf past).filter fun entry => (users rules entry.2).any (· ∈ group)

variable {rules : Rules} {past past' : Past} {user : String}

theorem mem_framesOf {time : Nat} {frame : Frame} :
    (time, frame) ∈ framesOf past ↔ ∃ order, (time, Event.frame frame order) ∈ past := by
  rw [framesOf, List.mem_filterMap]
  constructor
  · rintro ⟨⟨time', event⟩, member, same⟩
    cases event with
    | frame frame' order =>
        cases same
        exact ⟨order, member⟩
    | sweep credential => cases same
  · rintro ⟨order, member⟩
    exact ⟨_, member, rfl⟩

theorem mem_users_of_asked? {frame : Frame} (request : frame.kind = .request)
    {credential : Credential} (asked : asked? rules frame.message credential = some user) :
    user ∈ users rules frame := by
  unfold users
  rw [request, List.mem_append, Option.mem_toList, Option.mem_toList]
  cases credential with
  | sessionCookie => exact .inr asked
  | accessToken => exact .inl asked
  | problem =>
      rw [asked?, problemUser?] at asked
      split at asked
      · exact (Option.or_eq_some_iff.1 asked).symm.imp And.right id
      · cases asked

theorem mem_users_of_taught? {frame : Frame} (response : frame.kind = .replayedResponse)
    {credential : Credential} {value : String}
    (taught : taught? rules frame.message credential = some (user, value)) :
    user ∈ users rules frame := by
  unfold users
  rw [response, List.mem_append, Option.mem_toList, Option.mem_toList]
  cases credential with
  | sessionCookie =>
      obtain ⟨⟨text, owner⟩, session, same⟩ := Option.map_eq_some_iff.1 taught
      cases same
      exact .inl (Option.map_eq_some_iff.2 ⟨_, session, rfl⟩)
  | accessToken =>
      obtain ⟨token, -, rest⟩ := Option.bind_eq_some_iff.1 taught
      obtain ⟨owner, named, same⟩ := Option.map_eq_some_iff.1 rest
      cases same
      exact (Option.or_eq_some_iff.1 named).symm.imp And.right id
  | problem =>
      obtain ⟨owner, named, rest⟩ := Option.bind_eq_some_iff.1 taught
      obtain ⟨problem, -, same⟩ := Option.map_eq_some_iff.1 rest
      cases same
      exact (Option.or_eq_some_iff.1 named).imp id And.right

theorem mem_users_of_use {frame : Frame} {order : CookieMap.Order} {credential : Credential}
    {use : Use} (used : useOf? rules credential user (.frame frame order) = some use) :
    user ∈ users rules frame := by
  unfold useOf? at used
  dsimp only at used
  cases kind : frame.kind with
  | request =>
      rw [kind] at used
      dsimp only at used
      split at used
      · next asked => exact mem_users_of_asked? kind asked
      · cases used
  | recordedResponse =>
      rw [kind] at used
      cases used
  | replayedResponse =>
      rw [kind] at used
      obtain ⟨⟨owner, value⟩, taught, rest⟩ := Option.bind_eq_some_iff.1 used
      dsimp only at rest
      split at rest
      · next same => exact same ▸ mem_users_of_taught? kind taught
      · cases rest

theorem uses_eq_framesOf (rules : Rules) (credential : Credential) (user : String) (past : Past) :
    uses rules credential user past = (framesOf past).filterMap fun entry =>
      (useOf? rules credential user (.frame entry.2)).map (entry.1, ·) := by
  rw [uses, framesOf, List.filterMap_filterMap]
  congr
  funext entry
  obtain ⟨time, event⟩ := entry
  cases event <;> rfl

theorem uses_framesAbout {group : Set String} [DecidablePred (· ∈ group)] (own : user ∈ group)
    (left : framesOf past' = framesAbout rules group past) (credential : Credential) :
    uses rules credential user past' = uses rules credential user past := by
  rw [uses_eq_framesOf, uses_eq_framesOf, left, framesAbout, List.filterMap_filter]
  congr
  funext entry
  split
  · rfl
  · next unnamed =>
    have unused : useOf? rules credential user (.frame entry.2) = none := by
      rw [Option.eq_none_iff_forall_ne_some]
      intro use used
      exact unnamed (List.any_eq_true.2 ⟨user, mem_users_of_use used, by simpa using own⟩)
    rw [unused]
    rfl

theorem Feedless.framesAbout {group : Set String} [DecidablePred (· ∈ group)]
    (feedless : Feedless rules past) (left : framesOf past' = framesAbout rules group past) :
    Feedless rules past' := by
  rintro user token ⟨time, frame, order, member, kind, taught⟩
  have inside : (time, frame) ∈ framesOf past' := mem_framesOf.2 ⟨order, member⟩
  rw [left] at inside
  obtain ⟨order, member⟩ := mem_framesOf.1 (List.mem_filter.1 inside).1
  exact feedless user token ⟨time, frame, order, member, kind, taught⟩

theorem answers_eq {ttl : Nat} {caches caches' : LocalCaches} {group : Set String}
    [DecidablePred (· ∈ group)] (tells : Tells rules ttl past caches)
    (tells' : Tells rules ttl past' caches') (clock : caches'.now = caches.now)
    (left : framesOf past' = framesAbout rules group past) {frame : Frame}
    (request : frame.kind = .request) (own : ∀ user ∈ users rules frame, user ∈ group) :
    caches'.answers (asked? rules frame.message) = caches.answers (asked? rules frame.message) := by
  funext credential
  rw [tells.answers, tells'.answers, clock]
  cases asked : asked? rules frame.message credential with
  | none => rfl
  | some user =>
      have inside : user ∈ group := own user (mem_users_of_asked? request asked)
      rw [Option.bind_some, Option.bind_some, uses_framesAbout inside left]

/-- What a request becomes does not depend on the frames about other users: without them, and with
sweeps at any other times, it goes out with the same answers put in, and the same but for the order of
its cookies. -/
theorem request_independent_of_others (rules : Rules)
    (apart : Apart rules.accessTokenHeader cookieHeader) (ttl : Nat) (group : Set String)
    [DecidablePred (· ∈ group)] {past past' : Past} {now : Nat} (ordered : Ordered now past)
    (ordered' : Ordered now past') (left : framesOf past' = framesAbout rules group past)
    (feedless : Feedless rules past) {frame : Frame} (request : frame.kind = .request)
    (own : ∀ user ∈ users rules frame, user ∈ group) :
    ∃ answers, ∀ order,
      let out : Frame := { frame with message := renewed rules order answers frame.message }
      (process rules order frame { after rules ttl past with now }).1 = .ok (some out) ∧
        (process rules order frame { after rules ttl past' with now }).1 = .ok (some out) := by
  obtain ⟨before, earlier⟩ := tells_of_feedless apart ttl feedless ordered
  obtain ⟨before', earlier'⟩ := tells_of_feedless apart ttl (feedless.framesAbout left) ordered'
  have sourced : Sourced rules past { after rules ttl past with now } :=
    sourced_after rules ttl past
  have sourced' : Sourced rules past' { after rules ttl past' with now } :=
    sourced_after rules ttl past'
  have same := answers_eq (before.later earlier) (before'.later earlier') rfl left request own
  refine ⟨_, fun order =>
    ⟨congrArg Prod.fst (process_fitting apart request (feedless.fits sourced _)), ?_⟩⟩
  rw [process_fitting apart request ((feedless.framesAbout left).fits sourced' _), same]

def otherLogin : Frame :=
  ⟨.replayedResponse, Bytes.ofText "3 other", ⟨Bytes.ofText
    ("HTTP/1.1 200 OK\r\nSet-Cookie: connect.sid=x.eyJ1c2VySUQiOjJ9.y\r\n\r\n" ++
      "\x7b\"data\":\x7b\"accessToken\":\"h.eyJ1c2VySUQiOjJ9.s\"\x7d\x7d")⟩⟩

theorem login_of_other_has_no_part :
    let past := [(900, Event.frame otherLogin), (500, .sweep .sessionCookie),
      (0, .frame loginResponse)]
    let past' := [(800, Event.sweep .accessToken), (0, .frame loginResponse)]
    framesOf past' = framesAbout {} {"1"} past ∧
      ∃ out, (process {} .arrival nextRequest { after {} 1000 past with now := 1000 }).1 = .ok (some out) ∧
        (process {} .arrival nextRequest { after {} 1000 past' with now := 1000 }).1 = .ok (some out) ∧
        out.message.headerText? cookieHeader = some "connect.sid=a.eyJ1c2VySUQiOjF9.b;Path=/;" := by
  intro past past'
  have left : framesOf past' = framesAbout {} {"1"} past := by decide +kernel
  have ordered : Ordered 1000 past := by simp [Ordered, past]
  have ordered' : Ordered 1000 past' := by simp [Ordered, past']
  have feedless : Feedless {} past := by
    rintro user token ⟨time, frame, order, member, -, taught⟩
    have answer := newToken_of_taught taught
    have which : (time, frame) ∈ [(900, otherLogin), (0, loginResponse)] :=
      mem_framesOf.2 ⟨order, member⟩
    simp only [List.mem_cons, Prod.mk.injEq, List.not_mem_nil, or_false] at which
    rcases which with ⟨-, rfl⟩ | ⟨-, rfl⟩
    · have said : newToken? {} otherLogin.message = some "h.eyJ1c2VySUQiOjJ9.s" := by decide +kernel
      cases said.symm.trans answer
      decide
    · have bodiless : newToken? {} loginResponse.message = none := by decide +kernel
      cases bodiless.symm.trans answer
  have own : ∀ user ∈ users {} nextRequest, user ∈ ({"1"} : Set String) := by
    have one : users {} nextRequest = ["1"] := by decide +kernel
    rw [one]
    simp
  obtain ⟨answers, same⟩ := request_independent_of_others {} (by decide) 1000 {"1"} ordered ordered'
    left feedless rfl own
  obtain ⟨first, second⟩ := same .arrival
  refine ⟨left, _, first, second, ?_⟩
  have cookies : (process {} .arrival nextRequest { after {} 1000 past with now := 1000 }).1.toOption.map
      (fun out => out.bind (·.message.headerText? cookieHeader)) =
        some (some "connect.sid=a.eyJ1c2VySUQiOjF9.b;Path=/;") := by
    decide +kernel
  rw [first] at cookies
  exact Option.some.inj cookies

end CredentialRelay.Relay

import Mathlib
import CredentialRelay.Proofs.Relay.Learning
import CredentialRelay.Proofs.Relay.Renewal
import CredentialRelay.Relay.Stream

namespace CredentialRelay.Relay
open Cache Http

inductive Event where
  | frame (frame : Frame) (order : CookieMap.Order := .arrival)
  | sweep (credential : Credential)

abbrev Past := List (Nat × Event)

def perform (rules : Rules) (event : Event) (caches : LocalCaches) : LocalCaches :=
  match event with
  | .frame frame order => (process rules order frame caches).2
  | .sweep credential => caches.sweep credential

def after (rules : Rules) (ttl : Nat) : Past → LocalCaches
  | [] => .empty ttl
  | (time, event) :: past => perform rules event { after rules ttl past with now := time }

def Ordered (now : Nat) (past : Past) : Prop :=
  (now :: past.map Prod.fst).IsChain fun later earlier => earlier ≤ later

def Taught (rules : Rules) (past : Past) (credential : Credential) (user value : String) : Prop :=
  ∃ time frame order, (time, Event.frame frame order) ∈ past ∧ frame.kind = .replayedResponse ∧
    taught? rules frame.message credential = some (user, value)

theorem Taught.cons {rules : Rules} {past : Past} {credential : Credential} {user value : String}
    (h : Taught rules past credential user value) (entry : Nat × Event) :
    Taught rules (entry :: past) credential user value := by
  obtain ⟨time, frame, order, member, kind, taught⟩ := h
  exact ⟨time, frame, order, List.mem_cons_of_mem entry member, kind, taught⟩

theorem newSession_of_taught {rules : Rules} {message : Message} {user text : String}
    (h : taught? rules message .sessionCookie = some (user, text)) :
    message.headerText? setCookieHeader = some text ∧
      (sessionToken? rules text).bind Token.identity? = some user := by
  obtain ⟨⟨found, owner⟩, session, same⟩ := Option.map_eq_some_iff.1 h
  cases same
  unfold newSession? at session
  obtain ⟨text, read, rest⟩ := Option.bind_eq_some_iff.1 session
  obtain ⟨identity, token, same⟩ := Option.bind_eq_some_iff.1 rest
  cases same
  exact ⟨read, token⟩

theorem newToken_of_taught {rules : Rules} {message : Message} {user token : String}
    (h : taught? rules message .accessToken = some (user, token)) :
    newToken? rules message = some token := by
  obtain ⟨found, read, rest⟩ := Option.bind_eq_some_iff.1 h
  obtain ⟨owner, -, same⟩ := Option.map_eq_some_iff.1 rest
  cases same
  exact read

def Sourced (rules : Rules) (past : Past) (caches : LocalCaches) : Prop :=
  ∀ credential user value, (caches.cache credential).stored? user = some value →
    Taught rules past credential user value

section Steps

variable {rules : Rules} {order : CookieMap.Order} {past : Past} {caches : LocalCaches}

theorem Sourced.cons (sourced : Sourced rules past caches) (entry : Nat × Event) :
    Sourced rules (entry :: past) caches :=
  fun credential user value stored => (sourced credential user value stored).cons entry

theorem Sourced.ask (sourced : Sourced rules past caches) (asked : Credential)
    (asker : Option String) : Sourced rules past (caches.ask asked asker).2 := by
  intro credential user value stored
  apply sourced credential user value
  rw [LocalCaches.ask_snd, LocalCaches.cache_edit] at stored
  split at stored
  · cases asker with
    | none => exact stored
    | some asker => exact LocalCache.stored?_of_get stored
  · exact stored

theorem Sourced.sweep (sourced : Sourced rules past caches) (swept : Credential) :
    Sourced rules past (caches.sweep swept) := by
  intro credential user value stored
  apply sourced credential user value
  rw [LocalCaches.sweep_eq, LocalCaches.cache_edit] at stored
  split at stored
  · exact LocalCache.stored?_of_sweep stored
  · exact stored

theorem Sourced.response (sourced : Sourced rules past caches) (time : Nat) {frame : Frame}
    (order : CookieMap.Order) (kind : frame.kind = .replayedResponse) :
    Sourced rules ((time, .frame frame order) :: past)
      (caches.noteAll (taught? rules frame.message)) := by
  intro credential user value stored
  have old := fun stored => (sourced credential user value stored).cons (time, .frame frame order)
  replace stored : ((caches.note credential (taught? rules frame.message credential)).cache
    credential).stored? user = some value := stored
  cases taught : taught? rules frame.message credential with
  | none =>
      rw [taught] at stored
      exact old stored
  | some lesson =>
      obtain ⟨owner, text⟩ := lesson
      rw [taught, LocalCaches.note_eq, LocalCaches.cache_edit, if_pos rfl, Option.elim_some,
        LocalCache.stored?_set] at stored
      split at stored
      · next same =>
        cases stored
        exact ⟨time, frame, order, List.mem_cons_self, kind, by rw [taught, same]⟩
      · exact old stored

theorem process_request {frame : Frame} (kind : frame.kind = .request) :
    process rules order frame caches =
      (.ok (some { frame with message := (renewRequest rules order frame.message caches).1 }),
        (renewRequest rules order frame.message caches).2.2) := by
  rw [process_of_request kind, renewRequest_local]
  rfl

theorem process_recorded {frame : Frame} (kind : frame.kind = .recordedResponse) :
    process rules order frame caches = (.ok none, caches) := by
  rw [process, kind]

theorem process_response {frame : Frame} (kind : frame.kind = .replayedResponse) :
    process rules order frame caches =
      (.ok none, caches.noteAll (taught? rules frame.message)) := by
  rw [process, kind]
  dsimp only
  rw [learn_local]
  rfl

theorem Sourced.perform (sourced : Sourced rules past caches) (time : Nat) (event : Event) :
    Sourced rules ((time, event) :: past) (perform rules event caches) := by
  cases event with
  | sweep swept => exact (sourced.sweep swept).cons _
  | frame frame order =>
      unfold Relay.perform
      dsimp only
      cases kind : frame.kind with
      | request =>
          rw [process_request kind, renewRequest_local]
          exact (((sourced.ask _ _).ask _ _).ask _ _).cons _
      | recordedResponse =>
          rw [process_recorded kind]
          exact sourced.cons _
      | replayedResponse =>
          rw [process_response kind]
          exact sourced.response time order kind

end Steps

theorem sourced_after (rules : Rules) (ttl : Nat) (past : Past) :
    Sourced rules past (after rules ttl past) := by
  induction past with
  | nil => intro _ _ _ stored; cases stored
  | cons entry past ih =>
      have moved : Sourced rules past { after rules ttl past with now := entry.1 } := ih
      exact moved.perform entry.1 entry.2

theorem Sourced.taught_of_ask {rules : Rules} {past : Past} {caches : LocalCaches}
    (sourced : Sourced rules past caches) {credential : Credential} {asker : Option String}
    {value : String} (h : (caches.ask credential asker).1 = some value) :
    ∃ user, Taught rules past credential user value := by
  cases asker with
  | none => cases h
  | some user => exact ⟨user, sourced credential user value (LocalCache.stored?_of_get_fst h)⟩

theorem Sourced.lf_notMem_of_ask {rules : Rules} {past : Past} {caches : LocalCaches}
    (sourced : Sourced rules past caches) {asker : Option String} {newest : String}
    (h : (caches.ask .sessionCookie asker).1 = some newest) : '\n' ∉ newest.toList := by
  obtain ⟨user, time, frame, order, member, kind, taught⟩ := sourced.taught_of_ask h
  exact Message.lf_notMem_of_headerText? (newSession_of_taught taught).1

theorem Sourced.fits {rules : Rules} {past : Past} {caches : LocalCaches}
    (sourced : Sourced rules past caches) {message : Message}
    (token : ∀ token ∈ caches.answers (asked? rules message) .accessToken, '\n' ∉ token.toList) :
    Fits rules message (caches.answers (asked? rules message)) :=
  fits_answers token fun _ answer => sourced.lf_notMem_of_ask answer

end CredentialRelay.Relay

import Mathlib
import CredentialRelay.Proofs.Cache.Lifetime
import CredentialRelay.Relay.Learning

namespace CredentialRelay.Cache.LocalCaches

def note (credential : Credential) (lesson : Option (String × String)) (caches : LocalCaches) :
    LocalCaches :=
  match lesson with
  | none => caches
  | some (user, value) => caches.set credential user value

def noteAll (lessons : Credential → Option (String × String)) (caches : LocalCaches) :
    LocalCaches :=
  { caches with
    cache := fun credential => (caches.note credential (lessons credential)).cache credential }

theorem note_eq (credential : Credential) (lesson : Option (String × String))
    (caches : LocalCaches) :
    caches.note credential lesson = caches.edit credential fun cache =>
      lesson.elim cache fun lesson => cache.set caches.now lesson.1 lesson.2 := by
  cases lesson with
  | none => exact (caches.edit_id credential).symm
  | some lesson => rfl

theorem ttl_note (credential : Credential) (lesson : Option (String × String))
    (caches : LocalCaches) :
    ((caches.note credential lesson).cache credential).ttl = (caches.cache credential).ttl := by
  rw [note_eq, cache_edit, if_pos rfl]
  cases lesson <;> rfl

theorem note_in_turn (lessons : Credential → Option (String × String)) (caches : LocalCaches) :
    ((caches.note .sessionCookie (lessons .sessionCookie)).note .accessToken
      (lessons .accessToken)).note .problem (lessons .problem) = caches.noteAll lessons := by
  rw [note_eq, note_eq, note_eq, noteAll]
  refine (edit_in_turn (fun credential cache =>
    (lessons credential).elim cache fun lesson => cache.set caches.now lesson.1 lesson.2)
    (by decide) (fun credential => by cases credential <;> decide) caches).trans ?_
  simp only [note_eq, cache_edit, if_true]

end CredentialRelay.Cache.LocalCaches

namespace CredentialRelay.Relay
open Cache Http

variable (rules : Rules) (message : Message) (caches : LocalCaches)

def newToken? : Option String :=
  (ResponseBody.text message.body rules.accessTokenPath).toOption

def newProblem? : Option String :=
  match ResponseBody.integers message.body rules.problemsPath with
  | .ok (first :: _) => some (Decimal.text first)
  | _ => none

def sessionUser? : Option String := (newSession? rules message).map (·.2)

def tokenUser? : Option String := (newToken? rules message).bind Token.identity?

def taught? : Credential → Option (String × String)
  | .sessionCookie => (newSession? rules message).map Prod.swap
  | .accessToken => (newToken? rules message).bind fun token =>
      ((tokenUser? rules message).or (sessionUser? rules message)).map fun user => (user, token)
  | .problem => ((sessionUser? rules message).or (tokenUser? rules message)).bind fun user =>
      (newProblem? rules message).map fun problem => (user, problem)

theorem learnSession_local :
    learnSession rules message caches =
      (.ok (sessionUser? rules message),
        caches.note .sessionCookie (taught? rules message .sessionCookie)) := by
  unfold learnSession sessionUser? taught?
  cases newSession? rules message with
  | none => rfl
  | some session => rfl

theorem learnAccessToken_local :
    learnAccessToken rules (sessionUser? rules message) message caches =
      (.ok ((sessionUser? rules message).or (tokenUser? rules message)),
        caches.note .accessToken (taught? rules message .accessToken)) := by
  unfold learnAccessToken taught? tokenUser? newToken? ResponseBody.accessToken
  cases ResponseBody.text message.body rules.accessTokenPath with
  | error _ => cases sessionUser? rules message <;> rfl
  | ok token =>
      simp only [Except.map, Except.toOption, Option.bind_some]
      cases Token.identity? token with
      | some user => cases sessionUser? rules message <;> rfl
      | none => cases sessionUser? rules message <;> rfl

theorem learnProblem_local (identity : Option String) :
    learnProblem rules identity message caches =
      (.ok (), caches.note .problem (identity.bind fun user =>
        (newProblem? rules message).map fun problem => (user, problem))) := by
  unfold learnProblem newProblem?
  cases identity with
  | none => rfl
  | some user =>
      cases ResponseBody.integers message.body rules.problemsPath with
      | error _ => rfl
      | ok integers => cases integers <;> rfl

theorem learn_local :
    learn rules message caches = (.ok (), caches.noteAll (taught? rules message)) := by
  unfold learn
  rw [learnSession_local]
  dsimp only
  rw [learnAccessToken_local]
  dsimp only
  rw [learnProblem_local, ← LocalCaches.note_in_turn]
  rfl

end CredentialRelay.Relay

import Mathlib
import CredentialRelay.Proofs.Cache.Interruptions
import CredentialRelay.Proofs.Cache.Sparing
import CredentialRelay.Proofs.Relay.Steps
import CredentialRelay.Relay.Stream

/-!
# Credentials are filed under their own user

Whatever comes between the calls, and whatever the store fails at, a cache holds a value under a
user only if the value is of that user: each call that records a value names the user that the value
says, and nothing else puts a value anywhere.
-/

namespace CredentialRelay

/-! ## Integers of 64 bits -/

theorem Decimal.fitsSigned_clampSigned (n : Int) : fitsSigned (clampSigned n) = true := by
  unfold clampSigned
  by_cases low : n < -signedLimit
  · rw [if_pos low]
    decide
  · by_cases high : n < signedLimit
    · rw [if_neg low, if_pos high, fitsSigned, decide_eq_true (not_lt.1 low), decide_eq_true high]
      rfl
    · rw [if_neg low, if_neg high]
      decide

namespace Json

theorem fits_of_signed? {json : Json} {n : Int} (read : json.signed? = some n) :
    Decimal.fitsSigned n = true := by
  obtain ⟨number, -, rfl⟩ := Option.map_eq_some_iff.1 read
  exact Decimal.fitsSigned_clampSigned _

theorem fits_of_mem_signedBelow {path : List String} {value : Json} {n : Int}
    (member : n ∈ signedBelow path value) : Decimal.fitsSigned n = true := by
  obtain ⟨json, -, read⟩ := List.mem_filterMap.1 member
  exact fits_of_signed? read

theorem fits_of_mem_signedAt? {path : List String} {value : Json} {integers : List Int}
    (found : signedAt? path value = some integers) :
    ∀ n ∈ integers, Decimal.fitsSigned n = true := by
  induction path generalizing value with
  | nil =>
      unfold signedAt? at found
      split at found
      · cases found
        exact fun n => fits_of_mem_signedBelow
      · obtain ⟨n, read, rfl⟩ := Option.map_eq_some_iff.1 found
        exact List.forall_mem_singleton.2 (fits_of_signed? read)
      · next cut _ => cases cut
  | cons name path ih =>
      unfold signedAt? at found
      split at found
      · cases found
        exact fun n => fits_of_mem_signedBelow
      · next cut _ => cases cut
      · next cut _ =>
        cases cut
        obtain ⟨child, -, below⟩ := Option.bind_eq_some_iff.1 found
        exact ih below

end Json

theorem ResponseBody.fits_of_mem_integers {body : Bytes} {path : List String} {found : List Int}
    (read : integers body path = .ok found) : ∀ n ∈ found, Decimal.fitsSigned n = true := by
  unfold integers at read
  split at read
  · next inside =>
    cases read
    obtain ⟨doc, -, at?⟩ := Option.bind_eq_some_iff.1 inside
    exact Json.fits_of_mem_signedAt? at?
  · cases read

namespace Relay
open Cache Http

/-- A token without an identity of its own may be filed under anyone. -/
def Filed (rules : Rules) (user value : String) : Credential → Prop
  | .sessionCookie => ∃ token, sessionToken? rules value = some token ∧
      Token.identity? token = some user
  | .accessToken => Token.identity? value = none ∨ Token.identity? value = some user
  | .problem => ∃ n, Decimal.fitsSigned n = true ∧ value = Decimal.text n

theorem filed_of_newSession? {rules : Rules} {message : Message} {text user : String}
    (new : newSession? rules message = some (text, user)) :
    Filed rules user text .sessionCookie := by
  unfold newSession? at new
  obtain ⟨found, -, rest⟩ := Option.bind_eq_some_iff.1 new
  obtain ⟨identity, named, same⟩ := Option.bind_eq_some_iff.1 rest
  cases same
  exact Option.bind_eq_some_iff.1 named

theorem identity?_of_accessToken {body : Bytes} {path : List String}
    {found : ResponseBody.AccessToken} (read : ResponseBody.accessToken body path = .ok found) :
    found.identity = Token.identity? found.token := by
  unfold ResponseBody.accessToken at read
  cases text : ResponseBody.text body path with
  | error error =>
      rw [text] at read
      cases read
  | ok token =>
      rw [text, Except.map] at read
      rw [← Except.ok.inj read]

/-! ## Calls of the relay -/

structure Preserves {σ : Type} [CredentialCaches σ] (rules : Rules) (holds : σ → Prop) : Prop where
  lookup : ∀ credential user caches, holds caches →
    holds (CredentialCaches.lookup credential user caches).2
  record : ∀ credential user value caches, Filed rules user value credential → holds caches →
    holds (CredentialCaches.record credential user value caches).2

theorem holds_of_ended {σ α : Type} {holds : σ → Prop} {run : α × σ} {result : α} {caches : σ}
    (after : holds run.2) (ended : run = (result, caches)) : holds caches := by
  subst ended
  exact after

namespace Preserves

variable {σ : Type} [CredentialCaches σ] {rules : Rules} {order : Http.CookieMap.Order}
variable {holds : σ → Prop} {caches : σ}
variable (preserves : Preserves rules holds) (before : holds caches)
include preserves before

theorem renewRequest (message : Message) : holds (renewRequest rules order message caches).2.2 :=
  renewRequest_keeps rules order message caches preserves.lookup before

theorem learnSession (message : Message) : holds (learnSession rules message caches).2 := by
  unfold Relay.learnSession
  split
  · exact before
  · next text user new =>
    have after := preserves.record _ user text caches (filed_of_newSession? new) before
    split <;> next ended => exact holds_of_ended after ended

theorem learnAccessToken (session : Option String) (message : Message) :
    holds (learnAccessToken rules session message caches).2 := by
  unfold Relay.learnAccessToken
  split
  · exact before
  · next found read =>
    split
    · exact before
    · next user named =>
      have filed : Filed rules user found.token .accessToken := by
        have own := identity?_of_accessToken read
        cases identity : found.identity with
        | none => exact .inl (own.symm.trans identity)
        | some other =>
            rw [identity] at named
            exact .inr (own.symm.trans (identity.trans named))
      have after := preserves.record _ user found.token caches filed before
      split <;> next ended => exact holds_of_ended after ended

theorem learnProblem (user : Option String) (message : Message) :
    holds (learnProblem rules user message caches).2 := by
  unfold Relay.learnProblem
  split
  · next user first rest read =>
    have fits := ResponseBody.fits_of_mem_integers read first (List.mem_cons_self ..)
    exact preserves.record .problem user _ caches ⟨first, fits, rfl⟩ before
  · exact before

theorem learn (message : Message) : holds (learn rules message caches).2 := by
  unfold Relay.learn
  have session := preserves.learnSession before message
  split
  · next ended => exact holds_of_ended session ended
  · next user caches ended =>
    have token := preserves.learnAccessToken (holds_of_ended session ended) user message
    split
    · next ended => exact holds_of_ended token ended
    · next user caches ended =>
      exact preserves.learnProblem (holds_of_ended token ended) user message

theorem process (frame : Frame) : holds (process rules order frame caches).2 := by
  unfold Relay.process
  split
  · exact preserves.renewRequest before frame.message
  · exact before
  · exact preserves.learn before frame.message

end Preserves

/-! ## Streams of frames -/

def watch {σ : Type} [TurnTaking σ] (rules : Rules) (order : Http.CookieMap.Order)
    (frames : List Frame) (w : Watched σ) : Watched σ :=
  frames.foldl (fun w frame => (process rules order frame w).2.pause) w

/-- What caches go on to have, if values are recorded only where they are filed right. -/
structure Keeps {σ : Type} [TurnTaking σ] (rules : Rules) (holds : σ → Prop) : Prop where
  interrupted : ∀ (interruption : Interruption) caches, holds caches →
    holds (interruption.apply caches)
  get : ∀ credential user caches, holds caches →
    holds (TurnTaking.perform credential (.get user) caches).2
  set : ∀ credential user value caches, Filed rules user value credential → holds caches →
    holds (TurnTaking.perform credential (.set user value) caches).2

namespace Keeps

variable {σ : Type} [TurnTaking σ] {rules : Rules} {holds : σ → Prop} (keeps : Keeps rules holds)
include keeps

theorem preserves : Preserves rules (Watched.Always holds) where
  lookup credential user _ always := always.call keeps.interrupted (keeps.get credential user)
  record credential user value _ filed always :=
    always.call keeps.interrupted fun caches => keeps.set credential user value caches filed

theorem watch {w : Watched σ} (always : w.Always holds) (order : Http.CookieMap.Order)
    (frames : List Frame) : (watch rules order frames w).Always holds := by
  induction frames generalizing w with
  | nil => exact always
  | cons frame rest ih =>
      exact ih ((keeps.preserves.process always frame).pause keeps.interrupted)

end Keeps

/-! ## Local caches -/

def LocalFiled (rules : Rules) (caches : LocalCaches) : Prop :=
  ∀ credential user value, (caches.cache credential).stored? user = some value →
    Filed rules user value credential

theorem LocalFiled.edit {rules : Rules} {caches : LocalCaches} {credential : Credential}
    {f : LocalCache → LocalCache} (filed : LocalFiled rules caches)
    (own : ∀ user value, (f (caches.cache credential)).stored? user = some value →
      (caches.cache credential).stored? user = some value ∨ Filed rules user value credential) :
    LocalFiled rules (caches.edit credential f) := by
  intro other user value found
  rw [LocalCaches.cache_edit] at found
  split at found
  · next same =>
    subst same
    exact (own user value found).elim (filed other user value) id
  · exact filed other user value found

theorem keeps_localFiled (rules : Rules) : Keeps rules (LocalFiled rules) where
  interrupted interruption caches filed := by
    cases interruption with
    | clock time => exact filed
    | sweep credential =>
        exact filed.edit fun user value found => .inl (LocalCache.stored?_of_sweep found)
  get credential user caches filed :=
    filed.edit (f := fun cache => (cache.get caches.now user).2) fun other value found =>
      .inl (LocalCache.stored?_of_get found)
  set credential user value caches right filed := by
    refine filed.edit (f := LocalCache.set caches.now user value) fun other value' found => ?_
    rw [LocalCache.stored?_set] at found
    split at found
    · next own =>
      cases found
      exact .inr (own ▸ right)
    · exact .inl found

/-! ## Shared caches -/

structure StoreFiled {σ : Type} (rules : Rules) (view : σ → String → String → Option String)
    (caches : SharedCaches σ) : Prop where
  field : ∀ credential, (caches.cache credential).field = credential.field
  filed : ∀ credential user value, view caches.store user credential.field = some value →
    Filed rules user value credential

section Shared

variable {σ : Type} {rules : Rules} {view : σ → String → String → Option String}

theorem StoreFiled.update {caches : SharedCaches σ} (filed : StoreFiled rules view caches)
    {credential : Credential} {cache : SharedCache} {store : σ}
    (own : cache.field = (caches.cache credential).field)
    (written : ∀ other user value, view store user other.field = some value →
      view caches.store user other.field = some value ∨ Filed rules user value other) :
    StoreFiled rules view (caches.update credential cache store) := by
  refine ⟨fun other => ?_, fun other user value found => ?_⟩
  · rw [← filed.field other]
    unfold SharedCaches.update
    dsimp only
    split
    · next same => exact same ▸ own
    · rfl
  · exact (written other user value found).elim (filed.filed other user value) id

variable [FieldStore σ]

theorem field_read (now : Nat) (key : String) (cache : SharedCache) (store : σ) :
    (cache.read now key store).2.1.field = cache.field := by
  unfold SharedCache.read
  split
  · rfl
  · split <;> rfl

variable (sincere : Sincere view)
include sincere

theorem view_of_read {now : Nat} {key other field value : String} {cache : SharedCache} {store : σ}
    (found : view (cache.read now key store).2.2 other field = some value) :
    view store other field = some value := by
  unfold SharedCache.read at found
  split at found
  · exact found
  · have asked := sincere.getField key cache.field store other field value
    split at found
    all_goals
      next answered =>
        rw [answered] at asked
        exact asked found

theorem StoreFiled.sweepOn {s : SweptCaches σ} (filed : StoreFiled rules view s.caches)
    (credential : Credential) : StoreFiled rules view (s.sweepOn credential).caches := by
  unfold SweptCaches.sweepOn
  dsimp only
  split
  · split <;> exact filed
  · exact filed
  · next cutoff key keys left =>
    rw [SharedCache.evict_one]
    split
    · exact filed.update rfl fun _ _ _ => .inl
    · next cache released =>
      obtain ⟨rfl, -⟩ := SharedCache.release?_eq_some released
      exact filed.update (SharedCache.settle_kept _ _).2.2 fun other user value found =>
        .inl (sincere.deleteField _ _ _ _ _ _ found)

theorem keeps_storeFiled (rules : Rules) :
    Keeps rules (StoreFiled rules view ∘ @SweptCaches.caches σ) where
  interrupted interruption s filed := by
    cases interruption with
    | clock time => exact ⟨filed.field, filed.filed⟩
    | sweep credential => exact filed.sweepOn sincere credential
  get credential user s filed :=
    filed.update (field_read s.caches.now user _ s.caches.store) fun other user' value found =>
      .inl (view_of_read sincere found)
  set credential user value s right filed := by
    refine filed.update rfl fun other user' value' found => ?_
    rcases sincere.setField _ _ _ _ _ _ _ found with old | ⟨rfl, field, rfl⟩
    · exact .inl old
    · rw [filed.field] at field
      exact .inr (Credential.field_injective field ▸ right)

end Shared

/-- Whatever is stored under a user, at any time and on caches of either kind, is of that user: also
when sweeps come between the calls, and when the store fails at any of them. -/
theorem values_filed_under_their_user (rules : Rules) (order : Http.CookieMap.Order) (ttl : Nat)
    (plan : List (List Interruption)) (frames : List Frame) :
    (∀ caches ∈ (watch rules order frames (.start (LocalCaches.empty ttl) plan)).seen,
      ∀ credential user value, (caches.cache credential).stored? user = some value →
        Filed rules user value credential) ∧
    ∀ {σ : Type} [FieldStore σ] {view : σ → String → String → Option String}, Sincere view →
      ∀ store, (∀ user credential, view store user (Credential.field credential) = none) →
        ∀ s ∈ (watch rules order frames (.start (SweptCaches.start ttl store) plan)).seen,
          ∀ credential user value, view s.caches.store user credential.field = some value →
            Filed rules user value credential := by
  constructor
  · have fresh : LocalFiled rules (LocalCaches.empty ttl) := by
      intro credential user value found
      cases found
    exact ((keeps_localFiled rules).watch (Watched.always_start fresh plan) order frames).2
  · intro σ _ view sincere store empty s member
    have fresh : (StoreFiled rules view ∘ SweptCaches.caches) (SweptCaches.start ttl store) := by
      refine ⟨fun _ => rfl, fun credential user value found => ?_⟩
      cases (empty user credential).symm.trans found
    exact (((keeps_storeFiled sincere rules).watch (Watched.always_start fresh plan) order frames).2 s
      member).filed

def twoUsersResponse : Frame :=
  ⟨.replayedResponse, Bytes.ofText "3 login 0", ⟨Bytes.ofText
    ("HTTP/1.1 200 OK\r\nSet-Cookie: connect.sid=a.eyJ1c2VySUQiOjF9.b\r\n\r\n" ++
      "\x7b\"data\":\x7b\"accessToken\":\"h.eyJ1c2VySUQiOjJ9.s\"\x7d\x7d")⟩⟩

theorem token_of_failed_write_filed :
    let store := FailingStore.ofOutcomes [.done, .failed (.storeRefused "timed out") true]
    let seen := (watch {} .arrival [twoUsersResponse] (.start (SweptCaches.start 1000 store)
      [[.clock 5], [.sweep .accessToken], [.sweep .sessionCookie, .clock 2000]])).seen
    Sincere FailingStore.view ∧
      (∀ user credential, FailingStore.view store user (Credential.field credential) = none) ∧
      ∃ s ∈ seen, FailingStore.view s.caches.store "2" Credential.accessToken.field =
          some "h.eyJ1c2VySUQiOjJ9.s" ∧
        Filed {} "2" "h.eyJ1c2VySUQiOjJ9.s" .accessToken := by
  intro store seen
  have empty : ∀ user credential,
      FailingStore.view store user (Credential.field credential) = none := fun _ _ => rfl
  have written : (seen.any fun s => FailingStore.view s.caches.store "2"
      Credential.accessToken.field == some "h.eyJ1c2VySUQiOjJ9.s") = true := by
    decide +kernel
  obtain ⟨s, member, found⟩ := List.any_eq_true.1 written
  have found := eq_of_beq found
  exact ⟨FailingStore.sincere, empty, s, member, found,
    (values_filed_under_their_user {} .arrival 1000 _ _).2 FailingStore.sincere store empty s member _ _ _
      found⟩

end Relay

end CredentialRelay

import Mathlib
import CredentialRelay.Proofs.Cache.Lifetime
import CredentialRelay.Proofs.Http.CookieRoundTrip
import CredentialRelay.Proofs.Http.Values
import CredentialRelay.Proofs.Relay.Steps

namespace CredentialRelay.Cache.LocalCaches

def ask (credential : Credential) (user : Option String) (caches : LocalCaches) :
    Option String × LocalCaches :=
  match user with
  | none => (none, caches)
  | some user => caches.get credential user

def answers (users : Credential → Option String) (caches : LocalCaches) (credential : Credential) :
    Option String :=
  (caches.ask credential (users credential)).1

def askAll (users : Credential → Option String) (caches : LocalCaches) : LocalCaches :=
  { caches with
    cache := fun credential => (caches.ask credential (users credential)).2.cache credential }

theorem ask_fst (credential : Credential) (user : Option String) (caches : LocalCaches) :
    (caches.ask credential user).1 =
      user.bind fun user => ((caches.cache credential).get caches.now user).1 := by
  cases user <;> rfl

theorem ask_snd (credential : Credential) (user : Option String) (caches : LocalCaches) :
    (caches.ask credential user).2 = caches.edit credential fun cache =>
      user.elim cache fun user => (cache.get caches.now user).2 := by
  cases user with
  | none => exact (caches.edit_id credential).symm
  | some user => rfl

theorem ttl_ask (credential : Credential) (user : Option String) (caches : LocalCaches) :
    ((caches.ask credential user).2.cache credential).ttl = (caches.cache credential).ttl := by
  rw [ask_snd, cache_edit, if_pos rfl]
  cases user with
  | none => rfl
  | some user => exact LocalCache.ttl_get caches.now user (caches.cache credential)

theorem ask_in_turn (users : Credential → Option String) (caches : LocalCaches) :
    let token := caches.ask .accessToken (users .accessToken)
    let newest := token.2.ask .sessionCookie (users .sessionCookie)
    let problem := newest.2.ask .problem (users .problem)
    token.1 = caches.answers users .accessToken ∧
      newest.1 = caches.answers users .sessionCookie ∧
      problem.1 = caches.answers users .problem ∧ problem.2 = caches.askAll users := by
  refine ⟨rfl, ?_, ?_, ?_⟩
  · rw [answers, ask_fst, ask_fst, ask_snd, cache_edit, if_neg (by decide)]
    rfl
  · rw [answers, ask_fst, ask_fst, ask_snd, ask_snd, cache_edit, cache_edit, if_neg (by decide),
      if_neg (by decide)]
    rfl
  · rw [ask_snd, ask_snd, ask_snd, askAll]
    refine (edit_in_turn (fun credential cache =>
      (users credential).elim cache fun user => (cache.get caches.now user).2)
      (by decide) (fun credential => by cases credential <;> decide) caches).trans ?_
    simp only [ask_snd, cache_edit, if_true]

theorem exists_user_of_ask {credential : Credential} {user : Option String} {caches : LocalCaches}
    (h : (caches.ask credential user).1 ≠ none) : ∃ asker, user = some asker := by
  cases user with
  | none => exact absurd rfl h
  | some asker => exact ⟨asker, rfl⟩

theorem answers_eq_some {users : Credential → Option String} {caches : LocalCaches}
    {credential : Credential} {value : String} (h : caches.answers users credential = some value) :
    ∃ user, users credential = some user ∧ (caches.get credential user).1 = some value := by
  unfold answers ask at h
  split at h
  · cases h
  · next user asked => exact ⟨user, asked, h⟩

end CredentialRelay.Cache.LocalCaches

namespace CredentialRelay.Relay
open Bytes Cache Http Http.Message

variable (rules : Rules) (order : CookieMap.Order) (message : Message) (caches : LocalCaches)

theorem ask_local (credential : Credential) (user : Option String) :
    ask credential user caches =
      (.ok (caches.ask credential user).1, (caches.ask credential user).2) := by
  cases user <;> rfl

theorem renewRequest_local :
    renewRequest rules order message caches =
      let bearer := bearer? rules message
      let token := caches.ask .accessToken bearer
      let tokened := withToken rules token.1 message
      let user := cookieUser? rules tokened
      let newest := token.2.ask .sessionCookie user
      let cookied := withCookies order newest.1 tokened
      let problem := newest.2.ask .problem
        (if targetsProblem rules cookied then user.or bearer else none)
      let session := session? newest.1 (ownSession? rules tokened) rules
      (withForm? (form? rules session problem.1) cookied, .ok (), problem.2) := by
  rw [renewRequest_eq]
  simp only [ask_local]

structure NamesApart (rules : Rules) : Prop where
  cookie : Apart rules.accessTokenHeader cookieHeader
  length : Apart rules.accessTokenHeader contentLengthHeader

theorem cookie_apart_length : Apart cookieHeader contentLengthHeader := by decide

theorem proper_length : Proper contentLengthHeader := ⟨by decide, by decide, by decide⟩

variable {rules order message caches}

theorem withValue?_apart {name : String} {value : Option Bytes} (feedless : ∀ b ∈ value, lf ∉ b)
    (present : value ≠ none → message.header? name ≠ none) :
    (withValue? name value message).layout.start = message.layout.start ∧
      ∀ other, Apart name other →
        (withValue? name value message).header? other = message.header? other := by
  cases value with
  | none => exact ⟨rfl, fun _ _ => rfl⟩
  | some value =>
      have there := present (Option.some_ne_none value)
      exact ⟨start_setHeader value there, fun other apart =>
        header?_setHeader_of_present apart (feedless value rfl) there⟩

theorem withValue?_kept {name : String} {value : Option Bytes} (ended : message.layout.Ended)
    (feedless : ∀ b ∈ value, lf ∉ b) (present : value ≠ none → message.header? name ≠ none) :
    (withValue? name value message).layout.Ended ∧
      (withValue? name value message).layout.start = message.layout.start ∧
      ∀ other, Apart name other →
        (withValue? name value message).header? other = message.header? other := by
  refine ⟨?_, withValue?_apart feedless present⟩
  cases value with
  | none => exact ended
  | some value =>
      exact ended_setHeader ended (feedless value rfl) (present (Option.some_ne_none value))

theorem headerText?_congr {message' : Message} {name : String}
    (same : message'.header? name = message.header? name) :
    message'.headerText? name = message.headerText? name := by
  rw [Message.headerText?, same, ← Message.headerText?]

theorem ownSession?_congr {message' : Message}
    (same : message'.header? cookieHeader = message.header? cookieHeader) :
    ownSession? rules message' = ownSession? rules message := by
  rw [ownSession?, headerText?_congr same, ← ownSession?]

theorem targetsProblem_congr {message' : Message}
    (same : message'.layout.start = message.layout.start) :
    targetsProblem rules message' = targetsProblem rules message := by
  have line : message'.startLine = message.startLine := congrArg content same
  rw [targetsProblem, targetsProblem, path?, path?, isResponse, isResponse, words, words, line]

theorem sign_or_digit_of_mem_text {n : Int} {c : Char} (member : c ∈ (Decimal.text n).toList) :
    c = '-' ∨ c.isDigit = true := by
  cases n with
  | ofNat n =>
      rw [Decimal.text, String.toList_ofList] at member
      exact .inr (Nat.isDigit_of_mem_toDigits (by decide) (by decide) member)
  | negSucc n =>
      rw [Decimal.text, String.toList_ofList] at member
      rcases List.mem_cons.1 member with sign | digit
      · exact .inl sign
      · exact .inr (Nat.isDigit_of_mem_toDigits (by decide) (by decide) digit)

theorem lf_notMem_text (n : Int) : lf ∉ ofText (Decimal.text n) := by
  rw [lf_mem_ofText]
  intro member
  rcases sign_or_digit_of_mem_text member with sign | digit
  · cases sign
  · cases digit

theorem lf_notMem_cookieText {newest : String} (clean : '\n' ∉ newest.toList) :
    lf ∉ ofText (cookieText order newest) := by
  rw [lf_mem_ofText, cookieText]
  split
  · exact clean
  · intro member
    rw [CookieMap.render_eq] at member
    rcases CookieMap.mem_written member with sign | sign | ⟨field, own, inside⟩
    · cases sign
    · cases sign
    · obtain ⟨-, names, values⟩ := CookieMap.clean_of_mem_parse ((order.perm _).subset own)
      rcases inside with inside | inside
      · exact clean (names inside)
      · exact clean (values inside)

theorem writtenAs_cookieText {newest : String} (any : (CookieMap.parse newest).fields.pairs ≠ []) :
    (CookieMap.parse newest).WrittenAs (cookieText order newest) := by
  have some : (CookieMap.parse newest).isEmpty = false := by
    rw [CookieMap.isEmpty, decide_eq_false_iff_not]
    exact fun none => any (List.length_eq_zero_iff.1 none)
  exact ⟨order.arrange (CookieMap.parse newest), order.perm _, by simp [cookieText, some]⟩

theorem cookieText_read {newest name : String} (h : (CookieMap.parse newest).get? name ≠ none) :
    (ofText (cookieText order newest)).getLast? ≠ some cr ∧
      trimBy isPad (ofText (cookieText order newest)) = ofText (cookieText order newest) ∧
      ∀ name, (CookieMap.parse (cookieText order newest)).get? name =
        ((CookieMap.parse newest).get? name).map Text.trim := by
  have any : (CookieMap.parse newest).fields.pairs ≠ [] := by
    intro empty
    rw [CookieMap.get?, Table.get?, empty] at h
    exact h rfl
  have clean := CookieMap.parse_clean newest
  have written : (CookieMap.parse newest).WrittenAs (cookieText order newest) :=
    writtenAs_cookieText any
  obtain ⟨-, trimmed, last⟩ := written.as_value clean any
  exact ⟨last, trimmed, CookieMap.parse_of_writtenAs clean written⟩

theorem withForm_kept (ended : message.layout.Ended) (form : String) {name : String}
    (apart : Apart contentLengthHeader name) :
    (withForm message form).header? name = message.header? name := by
  rw [withForm, header?_setHeader_of_apart apart (lf_notMem_text _) (.inr proper_length),
    header?_setBody ended]

def renewed (rules : Rules) (order : CookieMap.Order) (answers : Credential → Option String)
    (message : Message) : Message :=
  let session := session? (answers .sessionCookie) (ownSession? rules message) rules
  withForm? (form? rules session (answers .problem))
    (withCookies order (answers .sessionCookie) (withToken rules (answers .accessToken) message))

/-- The answers can be put into the headers: none has a line feed, and a header whose user was
asked for is there. -/
structure Fits (rules : Rules) (message : Message) (answers : Credential → Option String) :
    Prop where
  token : ∀ token ∈ answers .accessToken,
    '\n' ∉ token.toList ∧ message.header? rules.accessTokenHeader ≠ none
  cookies : ∀ newest ∈ answers .sessionCookie,
    '\n' ∉ newest.toList ∧ message.header? cookieHeader ≠ none

theorem Fits.token_value {answers : Credential → Option String} (fits : Fits rules message answers) :
    (∀ b ∈ (answers .accessToken).map ofText, lf ∉ b) ∧
      ((answers .accessToken).map ofText ≠ none →
        message.header? rules.accessTokenHeader ≠ none) := by
  constructor
  · intro b member
    obtain ⟨token, answer, rfl⟩ := Option.map_eq_some_iff.1 member
    rw [lf_mem_ofText]
    exact (fits.token token answer).1
  · intro answered
    obtain ⟨b, member⟩ := Option.ne_none_iff_exists'.1 answered
    obtain ⟨token, answer, -⟩ := Option.map_eq_some_iff.1 member
    exact (fits.token token answer).2

theorem Fits.cookie_value {answers : Credential → Option String}
    (fits : Fits rules message answers) :
    (∀ b ∈ (answers .sessionCookie).map fun newest => ofText (cookieText order newest), lf ∉ b) ∧
      (((answers .sessionCookie).map fun newest => ofText (cookieText order newest)) ≠ none →
        message.header? cookieHeader ≠ none) := by
  constructor
  · intro b member
    obtain ⟨newest, answer, rfl⟩ := Option.map_eq_some_iff.1 member
    exact lf_notMem_cookieText (fits.cookies newest answer).1
  · intro answered
    obtain ⟨b, member⟩ := Option.ne_none_iff_exists'.1 answered
    obtain ⟨newest, answer, -⟩ := Option.map_eq_some_iff.1 member
    exact (fits.cookies newest answer).2

theorem fits_answers
    (token : ∀ token ∈ caches.answers (asked? rules message) .accessToken, '\n' ∉ token.toList)
    (cookies : ∀ newest ∈ caches.answers (asked? rules message) .sessionCookie,
      '\n' ∉ newest.toList) :
    Fits rules message (caches.answers (asked? rules message)) := by
  refine ⟨fun text member => ⟨token text member, ?_⟩, fun text member => ⟨cookies text member, ?_⟩⟩
  · obtain ⟨user, asked, -⟩ := LocalCaches.answers_eq_some member
    exact header?_of_bearer? asked
  · obtain ⟨user, asked, -⟩ := LocalCaches.answers_eq_some member
    exact header?_of_cookieUser? asked

theorem Fits.withToken_apart {answers : Credential → Option String}
    (fits : Fits rules message answers) :
    let tokened := withToken rules (answers .accessToken) message
    tokened.layout.start = message.layout.start ∧
      ∀ other, Apart rules.accessTokenHeader other →
        tokened.header? other = message.header? other :=
  withValue?_apart fits.token_value.1 fits.token_value.2

theorem Fits.withCookies_apart {answers : Credential → Option String}
    (fits : Fits rules message answers) (order : CookieMap.Order)
    (apart : Apart rules.accessTokenHeader cookieHeader) :
    let tokened := withToken rules (answers .accessToken) message
    let cookied := withCookies order (answers .sessionCookie) tokened
    cookied.layout.start = message.layout.start ∧
      ∀ other, Apart rules.accessTokenHeader other → Apart cookieHeader other →
        cookied.header? other = message.header? other := by
  obtain ⟨start, same⟩ := fits.withToken_apart
  obtain ⟨start', same'⟩ := withValue?_apart fits.cookie_value.1 fun answered => by
    rw [same cookieHeader apart]
    exact fits.cookie_value.2 answered
  exact ⟨start'.trans start, fun other first second =>
    (same' other second).trans (same other first)⟩

section Whole

variable {answers : Credential → Option String}
variable (apart : NamesApart rules) (ended : message.layout.Ended) (fits : Fits rules message answers)
include ended fits

theorem withToken_kept :
    let tokened := withToken rules (answers .accessToken) message
    tokened.layout.Ended ∧ tokened.layout.start = message.layout.start ∧
      ∀ other, Apart rules.accessTokenHeader other →
        tokened.header? other = message.header? other :=
  withValue?_kept ended fits.token_value.1 fits.token_value.2

include apart
variable (order)

theorem withCookies_kept :
    let tokened := withToken rules (answers .accessToken) message
    let cookied := withCookies order (answers .sessionCookie) tokened
    cookied.layout.Ended ∧ cookied.layout.start = tokened.layout.start ∧
      ∀ other, Apart cookieHeader other → cookied.header? other = tokened.header? other := by
  obtain ⟨ended', -, same⟩ := withToken_kept ended fits
  refine withValue?_kept ended' fits.cookie_value.1 fun answered => ?_
  rw [same cookieHeader apart.cookie]
  exact fits.cookie_value.2 answered

theorem header?_renewed {name : String} (other : Apart contentLengthHeader name) :
    (renewed rules order answers message).header? name =
      (withCookies order (answers .sessionCookie)
        (withToken rules (answers .accessToken) message)).header? name := by
  obtain ⟨ended', -⟩ := withCookies_kept order apart ended fits
  unfold renewed
  dsimp only
  cases form? rules _ _ with
  | none => rfl
  | some form => exact withForm_kept ended' form other

theorem header?_renewed_token :
    (renewed rules order answers message).header? rules.accessTokenHeader =
      (withToken rules (answers .accessToken) message).header? rules.accessTokenHeader := by
  obtain ⟨-, -, same⟩ := withCookies_kept order apart ended fits
  rw [header?_renewed order apart ended fits apart.length.symm, same _ apart.cookie.symm]

theorem header?_renewed_cookie :
    (answers .sessionCookie = none →
      (renewed rules order answers message).header? cookieHeader = message.header? cookieHeader) ∧
    ∀ newest, answers .sessionCookie = some newest →
      (ofText (cookieText order newest)).getLast? ≠ some cr →
      (renewed rules order answers message).header? cookieHeader =
        some (trimBy isPad (ofText (cookieText order newest))) := by
  obtain ⟨-, -, same⟩ := withToken_kept ended fits
  rw [header?_renewed order apart ended fits cookie_apart_length.symm]
  constructor
  · intro unanswered
    rw [unanswered]
    exact same cookieHeader apart.cookie
  · intro newest answer last
    have present := (fits.cookies newest answer).2
    rw [← same cookieHeader apart.cookie] at present
    rw [answer]
    exact header?_setHeader_self (lf_notMem_cookieText (fits.cookies newest answer).1) last present

end Whole

theorem renewRequest_renewed (apart : Apart rules.accessTokenHeader cookieHeader)
    (fits : Fits rules message (caches.answers (asked? rules message))) :
    renewRequest rules order message caches =
      (renewed rules order (caches.answers (asked? rules message)) message, .ok (),
        caches.askAll (asked? rules message)) := by
  let users := asked? rules message
  let token := caches.ask .accessToken (bearer? rules message)
  let tokened := withToken rules token.1 message
  let newest := token.2.ask .sessionCookie (cookieUser? rules message)
  let problem := newest.2.ask .problem (problemUser? rules message)
  have inTurn : newest.1 = caches.answers users .sessionCookie ∧
      problem.1 = caches.answers users .problem ∧ problem.2 = caches.askAll users :=
    (LocalCaches.ask_in_turn users caches).2
  have own : ownSession? rules tokened = ownSession? rules message :=
    ownSession?_congr (fits.withToken_apart.2 cookieHeader apart)
  have user : cookieUser? rules tokened = cookieUser? rules message :=
    congrArg (Option.bind · Token.identity?) own
  have target : targetsProblem rules (withCookies order newest.1 tokened) =
      targetsProblem rules message := by
    rw [inTurn.1]
    exact targetsProblem_congr (fits.withCookies_apart order apart).1
  rw [renewRequest_local]
  dsimp only
  rw [user, own, target, ← problemUser?, renewed, ← inTurn.1, ← inTurn.2.1, ← inTurn.2.2]
  rfl

end CredentialRelay.Relay

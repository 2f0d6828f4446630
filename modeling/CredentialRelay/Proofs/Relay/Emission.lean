import Mathlib
import CredentialRelay.Proofs.Http.Exchange
import CredentialRelay.Proofs.Relay.Renewal

/-!
# What goes out

A request goes out with the values that the caches answered, in the first headers of their names, and
with every other byte as it came in; or it has a form for a body too, and its length.
-/

namespace CredentialRelay.Relay
open Bytes Cache Http Http.Message

theorem plain_of_mem_encodeByte {b : UInt8} {c : Char} (member : c ∈ Percent.encodeByte b) :
    c ≠ '\n' ∧ c ≠ ':' := by
  have all : (List.range 256).all (fun n => (Percent.encodeByte (UInt8.ofNat n)).all
      fun c => c ≠ '\n' ∧ c ≠ ':') = true := by
    decide +kernel
  rw [List.all_eq_true] at all
  have here := all b.toNat (List.mem_range.2 b.toNat_lt)
  rw [UInt8.ofNat_toNat, List.all_eq_true] at here
  simpa using here c member

theorem plain_of_body {session name problem form : String}
    (made : LessonForm.body session name problem = .ok form) :
    ofText form ≠ [] ∧ lf ∉ ofText form ∧ colon ∉ ofText form := by
  obtain ⟨document, rfl⟩ : ∃ document, form = LessonForm.encode document := by
    unfold LessonForm.body at made
    split at made
    · cases made
    · cases claim : Token.claim session name with
      | error fault => rw [claim] at made; cases made
      | ok value =>
          rw [claim] at made
          cases value with
          | object lesson => exact ⟨_, (Except.ok.inj made).symm⟩
          | _ => cases made
  have marks : ∀ c ∈ (LessonForm.encode document).toList, c ≠ '\n' ∧ c ≠ ':' := by
    intro c member
    rw [LessonForm.encode, Percent.encode, String.toList_append, String.toList_ofList,
      List.mem_append] at member
    rcases member with front | text
    · have all : ∀ c ∈ (LessonForm.fieldName ++ "=").toList, c ≠ '\n' ∧ c ≠ ':' := by
        simp [LessonForm.fieldName]
      exact all c front
    · obtain ⟨b, -, inside⟩ := List.mem_flatMap.1 text
      exact plain_of_mem_encodeByte inside
  refine ⟨?_, ?_, ?_⟩
  · have sign : '=' ∈ (LessonForm.encode document).toList := by simp [LessonForm.encode]
    exact List.ne_nil_of_mem ((mem_ofText (by decide)).2 sign)
  · exact fun member => (marks _ (lf_mem_ofText.1 member)).1 rfl
  · exact fun member => (marks _ ((mem_ofText (c := ':') (by decide)).1 member)).2 rfl

def newestToken (rules : Rules) (answers : Credential → Option String) : List (String × Bytes) :=
  ((answers .accessToken).map fun token => (rules.accessTokenHeader, ofText token)).toList

def newestCookies (order : CookieMap.Order) (answers : Credential → Option String) :
    List (String × Bytes) :=
  ((answers .sessionCookie).map fun cookies =>
    (cookieHeader, ofText (cookieText order cookies))).toList

def newestValues (rules : Rules) (order : CookieMap.Order) (answers : Credential → Option String) :
    List (String × Bytes) :=
  newestToken rules answers ++ newestCookies order answers

variable {rules : Rules} {order : CookieMap.Order} {message : Message}
variable {answers : Credential → Option String}

theorem of_mem_newestToken {pair : String × Bytes} (member : pair ∈ newestToken rules answers) :
    ∃ token, answers .accessToken = some token ∧ pair = (rules.accessTokenHeader, ofText token) := by
  obtain ⟨token, answer, rfl⟩ := Option.map_eq_some_iff.1 (Option.mem_toList.1 member)
  exact ⟨token, answer, rfl⟩

theorem of_mem_newestCookies {pair : String × Bytes} (member : pair ∈ newestCookies order answers) :
    ∃ cookies, answers .sessionCookie = some cookies ∧
      pair = (cookieHeader, ofText (cookieText order cookies)) := by
  obtain ⟨cookies, answer, rfl⟩ := Option.map_eq_some_iff.1 (Option.mem_toList.1 member)
  exact ⟨cookies, answer, rfl⟩

theorem feedless_of_mem_newestToken (fits : Fits rules message answers) :
    ∀ pair ∈ newestToken rules answers, lf ∉ pair.2 := by
  intro pair member
  obtain ⟨text, answer, rfl⟩ := of_mem_newestToken member
  exact lf_mem_ofText.not.2 (fits.token text answer).1

theorem feedless_of_mem_newestValues (fits : Fits rules message answers) :
    ∀ pair ∈ newestValues rules order answers, lf ∉ pair.2 := by
  intro pair member
  rcases List.mem_append.1 member with token | cookies
  · exact feedless_of_mem_newestToken fits pair token
  · obtain ⟨text, answer, rfl⟩ := of_mem_newestCookies cookies
    exact lf_notMem_cookieText (fits.cookies text answer).1

theorem newestValues_subset (rules : Rules) (order : CookieMap.Order)
    (answers : Credential → Option String) :
    (newestValues rules order answers).map Prod.fst ⊆ [rules.accessTokenHeader, cookieHeader] := by
  intro name member
  obtain ⟨pair, inside, rfl⟩ := List.mem_map.1 member
  rcases List.mem_append.1 inside with token | cookies
  · obtain ⟨text, -, rfl⟩ := of_mem_newestToken token
    exact List.mem_cons_self
  · obtain ⟨text, -, rfl⟩ := of_mem_newestCookies cookies
    exact List.mem_cons_of_mem _ List.mem_cons_self

theorem apart_length_of_mem_newestValues (apart : NamesApart rules) :
    ∀ pair ∈ newestValues rules order answers, Apart pair.1 contentLengthHeader := by
  have both : ∀ name ∈ [rules.accessTokenHeader, cookieHeader], Apart name contentLengthHeader := by
    simpa using ⟨apart.length, cookie_apart_length⟩
  intro pair member
  exact both _ (newestValues_subset rules order answers (List.mem_map_of_mem member))

def splicedValues (rules : Rules) (order : CookieMap.Order) (answers : Credential → Option String)
    (body : Bytes) : List (String × Bytes) :=
  newestValues rules order answers ++ [(contentLengthHeader, ofText (Decimal.text body.length))]

theorem feedless_of_mem_splicedValues (fits : Fits rules message answers) (body : Bytes) :
    ∀ pair ∈ splicedValues rules order answers body, lf ∉ pair.2 := by
  rw [splicedValues, List.forall_mem_append, List.forall_mem_singleton]
  exact ⟨feedless_of_mem_newestValues fits, lf_notMem_text body.length⟩

theorem splicedValues_subset (rules : Rules) (order : CookieMap.Order)
    (answers : Credential → Option String) (body : Bytes) :
    (splicedValues rules order answers body).map Prod.fst ⊆
      [rules.accessTokenHeader, cookieHeader, contentLengthHeader] := by
  rw [splicedValues, List.map_append]
  exact List.append_subset.2 ⟨List.subset_append_of_subset_left [contentLengthHeader]
    (newestValues_subset rules order answers), by simp⟩

theorem exchange_newestValues (apart : NamesApart rules) (fits : Fits rules message answers)
    (whole : ∀ line ∈ message.layout.headers, IsLine line) (body : Bytes) :
    exchange [(contentLengthHeader, ofText (Decimal.text body.length))]
        (exchange (newestValues rules order answers) message.layout.headers) =
      exchange (splicedValues rules order answers body) message.layout.headers :=
  exchange_exchange (feedless_of_mem_newestValues fits) whole
    (apart_length_of_mem_newestValues apart) _

theorem layout_withCookies (order : CookieMap.Order)
    (apart : Apart rules.accessTokenHeader cookieHeader)
    (whole : ∀ line ∈ message.layout.headers, IsLine line) (fits : Fits rules message answers) :
    (withCookies order (answers .sessionCookie)
      (withToken rules (answers .accessToken) message)).layout =
        { message.layout with
          headers := exchange (newestValues rules order answers) message.layout.headers } := by
  have tokened : (withToken rules (answers .accessToken) message).layout =
      { message.layout with
        headers := exchange (newestToken rules answers) message.layout.headers } := by
    unfold newestToken withToken
    cases answer : answers .accessToken with
    | none => simp [withValue?]
    | some token =>
        obtain ⟨feedless, present⟩ := fits.token token answer
        exact layout_setHeader_of_present (lf_mem_ofText.not.2 feedless) present
  unfold newestValues newestCookies withCookies
  cases answer : answers .sessionCookie with
  | none => simpa [withValue?] using tokened
  | some cookies =>
      obtain ⟨feedless, present⟩ := fits.cookies cookies answer
      rw [← fits.withToken_apart.2 cookieHeader apart] at present
      have others : ∀ pair ∈ newestToken rules answers, Apart pair.1 cookieHeader := by
        intro pair member
        obtain ⟨token, -, rfl⟩ := of_mem_newestToken member
        exact apart
      refine (layout_setHeader_of_present (lf_notMem_cookieText feedless) present).trans ?_
      rw [tokened, exchange_exchange (feedless_of_mem_newestToken fits) whole others]
      rfl

def lengthLine (start body : Bytes) : Bytes :=
  ofText contentLengthHeader ++ [colon, space] ++ ofText (Decimal.text body.length) ++
    newLineEnd start

def newestForm? (rules : Rules) (answers : Credential → Option String) (message : Message) :
    Option String :=
  form? rules (session? (answers .sessionCookie) (ownSession? rules message) rules)
    (answers .problem)

/-- What goes out for a request and the answers of the caches, byte for byte. -/
inductive Emitted (rules : Rules) (order : CookieMap.Order) (answers : Credential → Option String)
    (message message' : Message) : Prop where
  | kept (formless : newestForm? rules answers message = none)
      (bytes : message'.bytes = Layout.bytes { message.layout with
        headers := exchange (newestValues rules order answers) message.layout.headers })
  | spliced {form : String} (made : newestForm? rules answers message = some form)
      (present : message.header? contentLengthHeader ≠ none)
      (bytes : message'.bytes = Layout.bytes { message.layout with
        headers := exchange (splicedValues rules order answers (ofText form)) message.layout.headers
        body := ofText form })
  | splicedWithLength {form : String} (made : newestForm? rules answers message = some form)
      (absent : message.header? contentLengthHeader = none)
      (bytes : message'.bytes = Layout.bytes { message.layout with
        headers := lengthLine message.layout.start (ofText form) ::
          exchange (newestValues rules order answers) message.layout.headers
        body := ofText form })

variable (apart : NamesApart rules) (closed : message.layout.blank ≠ [])
variable (fits : Fits rules message answers)
include apart closed fits

theorem emitted_withForm {form : String} (made : newestForm? rules answers message = some form) :
    Emitted rules order answers message (withForm (withCookies order (answers .sessionCookie)
      (withToken rules (answers .accessToken) message)) form) := by
  let tokened := withToken rules (answers .accessToken) message
  let cookied := withCookies order (answers .sessionCookie) tokened
  let length := ofText (Decimal.text (ofText form).length)
  have whole : ∀ line ∈ message.layout.headers, IsLine line := (Layout.isLine_of_blank closed).2
  have layout : cookied.layout = { message.layout with
      headers := exchange (newestValues rules order answers) message.layout.headers } :=
    layout_withCookies order apart.cookie whole fits
  have closed' : cookied.layout.blank ≠ [] := by rwa [layout]
  have known : cookied.header? contentLengthHeader = message.header? contentLengthHeader :=
    (fits.withCookies_apart order apart.cookie).2 _ apart.length cookie_apart_length
  obtain ⟨session, problem, -, -, body⟩ := form?_eq_some made
  obtain ⟨filled, plain⟩ := plain_of_body body
  obtain ⟨replaced, added⟩ := setHeader_setBody closed' filled plain contentLengthHeader length
  -- The length is set last, in a message whose other values are new. Whether it has a header is
  -- told by the old one.
  rw [header?_eq] at known
  cases values : replaceValue? contentLengthHeader length cookied.layout.headers with
  | some headers =>
      have present : message.header? contentLengthHeader ≠ none := by
        rw [← known, ne_eq, ← replaceValue?_eq_none length, values]
        exact Option.some_ne_none headers
      have bytes := replaced headers values
      rw [← exchange_of_replaceValue? values, layout, exchange_newestValues apart fits whole] at bytes
      exact .spliced made present bytes
  | none =>
      have absent : message.header? contentLengthHeader = none := by
        rw [← known, ← replaceValue?_eq_none length, values]
      have feed : message.layout.start.getLast? = some lf := by
        obtain ⟨text, -, same⟩ := (Layout.isLine_of_blank closed).1
        rw [Message.layout, same, List.getLast?_concat]
      have bytes := added values
      rw [layout, insertHeader, if_pos feed] at bytes
      exact .splicedWithLength made absent bytes

theorem emitted_renewed :
    Emitted rules order answers message (renewed rules order answers message) := by
  unfold renewed
  dsimp only
  rw [← newestForm?]
  cases made : newestForm? rules answers message with
  | none =>
      have layout := layout_withCookies order apart.cookie (Layout.isLine_of_blank closed).2 fits
      refine .kept made ?_
      rw [← layout]
      exact (Layout.bytes_ofBytes (Message.bytes _)).symm
  | some form => exact emitted_withForm apart closed fits made

end CredentialRelay.Relay

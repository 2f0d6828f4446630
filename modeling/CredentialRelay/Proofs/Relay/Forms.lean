import Mathlib
import CredentialRelay.Proofs.Relay.Footprint
import CredentialRelay.Proofs.Relay.History

namespace CredentialRelay.Relay
open Bytes Cache Http Http.Message

theorem text_as_value (n : Int) :
    (ofText (Decimal.text n)).getLast? ≠ some cr ∧
      trimBy isPad (ofText (Decimal.text n)) = ofText (Decimal.text n) := by
  have plain : ∀ c ∈ (Decimal.text n).toList, c ≠ '\r' ∧ c ≠ ' ' ∧ c ≠ '\t' := by
    intro c member
    rcases sign_or_digit_of_mem_text member with rfl | digit
    · decide
    · refine ⟨?_, ?_, ?_⟩ <;> rintro rfl <;> cases digit
  constructor
  · exact fun last => (plain _ (cr_mem_ofText.1 (List.mem_of_getLast? last))).1 rfl
  · exact trimBy_isPad_ofText (fun c first => (plain c (List.mem_of_head? first)).2)
      fun c last => (plain c (List.mem_of_getLast? last)).2

theorem withForm_read {message : Message} (ended : message.layout.Ended) (form : String) :
    (withForm message form).body = ofText form ∧
      (withForm message form).header? contentLengthHeader =
        some (ofText (Decimal.text (ofText form).length)) := by
  obtain ⟨last, trimmed⟩ := text_as_value (ofText form).length
  have feedless := lf_notMem_text (ofText form).length
  constructor
  · rw [withForm, body_setHeader proper_length feedless, Message.body, layout_setBody ended]
  · rw [withForm, header?_setHeader proper_length feedless last, trimmed]

variable (rules : Rules) (caches : LocalCaches) (message : Message)

def substitute? : Option String :=
  (cookieUser? rules message).bind fun user =>
    (caches.cache .sessionCookie).peek? caches.now user

def standingSession? : Option String :=
  ((substitute? rules caches message).bind (sessionToken? rules)).or (ownSession? rules message)

structure CarriesForm (form : String) : Prop where
  target : targetsProblem rules message = true
  made : ∃ user problem session,
    (cookieUser? rules message).or (bearer? rules message) = some user ∧
    (caches.cache .problem).peek? caches.now user = some problem ∧
    standingSession? rules caches message = some session ∧
    LessonForm.body session rules.lessonClaim problem = .ok form

variable {rules caches message}

theorem session?_eq_standing :
    session? (caches.answers (asked? rules message) .sessionCookie) (ownSession? rules message)
      rules = standingSession? rules caches message := by
  have substitute : caches.answers (asked? rules message) .sessionCookie =
      substitute? rules caches message := by
    rw [LocalCaches.answers, LocalCaches.ask_fst]
    simp only [LocalCache.get_fst]
    rfl
  rw [substitute, session?, standingSession?]
  cases own : ownSession? rules message with
  | none => simp [substitute?, cookieUser?, own]
  | some token => rw [Option.map_some, Option.or_some]

theorem problem_answered_iff {problem : String} :
    caches.answers (asked? rules message) .problem = some problem ↔
      targetsProblem rules message = true ∧
        ∃ user, (cookieUser? rules message).or (bearer? rules message) = some user ∧
          (caches.cache .problem).peek? caches.now user = some problem := by
  rw [LocalCaches.answers, LocalCaches.ask_fst, asked?, problemUser?]
  by_cases target : targetsProblem rules message
  · simp only [target, if_true, LocalCache.get_fst, Option.bind_eq_some_iff, true_and]
  · simp [target]

theorem newestForm?_iff {form : String} :
    newestForm? rules (caches.answers (asked? rules message)) message = some form ↔
      CarriesForm rules caches message form := by
  rw [newestForm?, session?_eq_standing]
  constructor
  · intro made
    obtain ⟨session, problem, standing, answer, body⟩ := form?_eq_some made
    obtain ⟨target, user, named, live⟩ := problem_answered_iff.1 answer
    exact ⟨target, user, problem, session, named, live, standing, body⟩
  · rintro ⟨target, user, problem, session, named, live, standing, body⟩
    rw [problem_answered_iff.2 ⟨target, user, named, live⟩, standing]
    simp [form?, body, Except.toOption]

section Renewed

variable {order : CookieMap.Order} {answers : Credential → Option String}
variable (apart : NamesApart rules) (ended : message.layout.Ended) (fits : Fits rules message answers)
include apart ended fits

theorem renewed_with_form {form : String} (made : newestForm? rules answers message = some form) :
    (renewed rules order answers message).body = ofText form ∧
      (renewed rules order answers message).header? contentLengthHeader =
        some (ofText (Decimal.text (ofText form).length)) := by
  rw [renewed, ← newestForm?, made]
  exact withForm_read (withCookies_kept order apart ended fits).1 form

theorem renewed_without_form (formless : newestForm? rules answers message = none) :
    (renewed rules order answers message).body = message.body ∧
      fieldsNamed contentLengthHeader (renewed rules order answers message).layout.headers =
        fieldsNamed contentLengthHeader message.layout.headers := by
  have whole : ∀ line ∈ message.layout.headers, IsLine line := fun line member =>
    (ended.headers line member).1
  have layout : (renewed rules order answers message).layout = { message.layout with
      headers := exchange (newestValues rules order answers) message.layout.headers } := by
    rw [renewed, ← newestForm?, formless]
    exact layout_withCookies order apart.cookie whole fits
  rw [Message.body, Message.body, layout]
  exact ⟨rfl, fieldsNamed_exchange (feedless_of_mem_newestValues fits) whole
    (apart_length_of_mem_newestValues apart)⟩

end Renewed

/-- A request goes out with the form for a body, and with the form's length, exactly when it carries
one; else its body and all its lengths are as they came in. The empty line after the headers is a whole
line: one without its line feed would run into the form (`layout_setBody_open`). -/
theorem form_spliced_iff (rules : Rules) (order : CookieMap.Order) (apart : NamesApart rules)
    (caches : LocalCaches)
    (feedless : ∀ credential user value,
      (caches.cache credential).stored? user = some value → '\n' ∉ value.toList)
    {frame : Frame} (request : frame.kind = .request) (ended : lf ∈ frame.message.layout.blank) :
    ∃ message after, process rules order frame caches = (.ok (some { frame with message }), after) ∧
      (∀ form, CarriesForm rules caches frame.message form →
        message.body = ofText form ∧
          message.header? contentLengthHeader =
            some (ofText (Decimal.text (ofText form).length))) ∧
      ((∀ form, ¬CarriesForm rules caches frame.message form) →
        message.body = frame.message.body ∧
          fieldsNamed contentLengthHeader message.layout.headers =
            fieldsNamed contentLengthHeader frame.message.layout.headers) := by
  have ended' := Layout.ended_of_lf_mem ended
  have fits : Fits rules frame.message (caches.answers (asked? rules frame.message)) :=
    fits_of_stored feedless
  refine ⟨_, _, process_fitting apart.cookie request fits, fun form carries => ?_, fun formless => ?_⟩
  · exact renewed_with_form apart ended' fits (newestForm?_iff.2 carries)
  · refine renewed_without_form apart ended' fits ?_
    exact Option.eq_none_iff_forall_ne_some.2 fun form made => formless form (newestForm?_iff.1 made)

def lessonRequest : Frame :=
  ⟨.request, ofText "1 lesson 0", ⟨ofText ("POST /api/v2/problem/main/3 HTTP/1.1\r\n" ++
    "content-length: 3\r\nCookie: connect.sid=h.eyJ1c2VySUQiOjF9.s\r\n\r\nold")⟩⟩

def lessonCaches : LocalCaches :=
  ((LocalCaches.empty 1000).set .sessionCookie "1"
    "connect.sid=h.eyJ1c2VySUQiOjEsImxlc3NvbkluZm8iOnt9fQ.s").set .problem "1" "7"

theorem lesson_of_newest_cookies :
    ∃ message after,
      process {} .arrival lessonRequest lessonCaches =
        (.ok (some { lessonRequest with message }), after) ∧
        message.body = ofText "input=%7B%22lessonInfo%22%3A%7B%7D%2C%22problemId%22%3A7%7D" ∧
        message.header? contentLengthHeader = some (ofText "59") := by
  have feedless : ∀ credential user value,
      (lessonCaches.cache credential).stored? user = some value → '\n' ∉ value.toList := by
    intro credential user value stored
    cases credential with
    | sessionCookie =>
        rw [LocalCache.eq_of_stored?_set_empty stored]
        decide
    | accessToken => cases stored
    | problem =>
        rw [LocalCache.eq_of_stored?_set_empty stored]
        decide
  have request : lessonRequest.kind = .request := rfl
  obtain ⟨message, after, processed, spliced, -⟩ :=
    form_spliced_iff {} .arrival ⟨by decide, by decide⟩ lessonCaches feedless request (by decide +kernel)
  have carries : CarriesForm {} lessonCaches lessonRequest.message
      "input=%7B%22lessonInfo%22%3A%7B%7D%2C%22problemId%22%3A7%7D" :=
    ⟨by decide +kernel, "1", "7", "h.eyJ1c2VySUQiOjEsImxlc3NvbkluZm8iOnt9fQ.s", by decide +kernel,
      by decide +kernel, by decide +kernel, by decide +kernel⟩
  obtain ⟨body, length⟩ := spliced _ carries
  exact ⟨message, after, processed, body, length.trans (by decide +kernel)⟩

end CredentialRelay.Relay

import Mathlib
import CredentialRelay.Proofs.Frame.Wire
import CredentialRelay.Proofs.Relay.Confinement

namespace CredentialRelay.Relay
open Bytes Cache Http Http.Message

/-- The bytes of a request that comes in and of one that goes out differ in these places only: in the
values of the access token and of the cookies, and in body and length, both or neither. -/
inductive Footprint (rules : Rules) (message message' : Message) : Prop where
  | values {headers : List Bytes}
      (same : SameLines [rules.accessTokenHeader, cookieHeader] message.layout.headers headers)
      (bytes : message'.bytes = Layout.bytes { message.layout with headers })
  | form {headers : List Bytes} {body : Bytes}
      (present : message.header? contentLengthHeader ≠ none)
      (same : SameLines [rules.accessTokenHeader, cookieHeader] message.layout.headers headers)
      (bytes : message'.bytes = Layout.bytes { message.layout with
        headers := exchange [(contentLengthHeader, ofText (Decimal.text body.length))] headers
        body })
  | formWithLength {headers : List Bytes} {body : Bytes}
      (absent : message.header? contentLengthHeader = none)
      (same : SameLines [rules.accessTokenHeader, cookieHeader] message.layout.headers headers)
      (bytes : message'.bytes = Layout.bytes
        { message.layout with headers := lengthLine message.layout.start body :: headers, body })

theorem Emitted.footprint {rules : Rules} {order : CookieMap.Order} {message message' : Message}
    {answers : Credential → Option String} (emitted : Emitted rules order answers message message')
    (apart : NamesApart rules) (closed : message.layout.blank ≠ [])
    (fits : Fits rules message answers) : Footprint rules message message' := by
  have values : SameLines [rules.accessTokenHeader, cookieHeader] message.layout.headers
      (exchange (newestValues rules order answers) message.layout.headers) :=
    (sameLines_exchange (feedless_of_mem_newestValues fits)).mono
      (newestValues_subset rules order answers)
  cases emitted with
  | kept formless bytes => exact .values values bytes
  | spliced made present bytes =>
      rw [← exchange_newestValues apart fits (Layout.isLine_of_blank closed).2] at bytes
      exact .form present values bytes
  | splicedWithLength made absent bytes => exact .formWithLength absent values bytes

variable {rules : Rules} {order : CookieMap.Order} {message : Message} {caches : LocalCaches}

theorem processLine_request {line : Bytes} {frame : Frame}
    (read : Frame.ofLine line = .ok frame) (request : frame.kind = .request) :
    processLine rules order line caches =
      (.ok (some (Frame.line { frame with
        message := (renewRequest rules order frame.message caches).1 })),
        (renewRequest rules order frame.message caches).2.2) := by
  rw [processLine_of_request read request, renewRequest_local]
  rfl

theorem fits_of_stored
    (feedless : ∀ credential user value,
      (caches.cache credential).stored? user = some value → '\n' ∉ value.toList) :
    Fits rules message (caches.answers (asked? rules message)) := by
  have clean {credential : Credential} {value : String}
      (answer : caches.answers (asked? rules message) credential = some value) :
      '\n' ∉ value.toList := by
    obtain ⟨user, -, found⟩ := LocalCaches.answers_eq_some answer
    exact feedless credential user value (LocalCache.stored?_of_get_fst found)
  exact fits_answers (fun _ => clean) fun _ => clean

theorem renewed_of_unanswered {answers : Credential → Option String}
    (unanswered : ∀ credential, answers credential = none) (message : Message) :
    renewed rules order answers message = message := by
  rw [renewed, unanswered, unanswered, unanswered, form?_none]
  rfl

/-- A request goes out as a line with its header line, and differs in its places only, if its headers
are ended by an empty line and no cached value has a line feed. If no cache has an answer, the bytes
that go out are those that came in. -/
theorem request_edited_in_place (rules : Rules) (order : CookieMap.Order) (apart : NamesApart rules)
    (caches : LocalCaches) {line : Bytes} {frame : Frame} (read : Frame.ofLine line = .ok frame)
    (request : frame.kind = .request) :
    ∃ emitted out, (processLine rules order line caches).1 = .ok (some emitted) ∧
      Frame.ofLine emitted = .ok out ∧ out.header = frame.header ∧
      (frame.message.layout.blank ≠ [] →
        (∀ credential user value,
          (caches.cache credential).stored? user = some value → '\n' ∉ value.toList) →
        Footprint rules frame.message out.message) ∧
      ((∀ credential, caches.answers (asked? rules frame.message) credential = none) →
        Hex.decode (trimBy isAsciiBlank emitted) = Hex.decode (trimBy isAsciiBlank line)) := by
  obtain ⟨headed, digits⟩ := Frame.ofLine_eq_ok.1 read
  refine ⟨_, _, congrArg Prod.fst (processLine_request read request),
    Frame.ofLine_line (headed.withMessage _), rfl, fun closed feedless => ?_, fun unanswered => ?_⟩
  · have fits : Fits rules frame.message (caches.answers (asked? rules frame.message)) :=
      fits_of_stored feedless
    rw [renewRequest_renewed apart.cookie fits]
    exact (emitted_renewed apart closed fits).footprint apart closed fits
  · have fits : Fits rules frame.message (caches.answers (asked? rules frame.message)) :=
      fits_answers (by simp [unanswered]) (by simp [unanswered])
    rw [renewRequest_renewed apart.cookie fits, renewed_of_unanswered unanswered, digits,
      Frame.line, Hex.trimBy_line, Hex.decode_encode]

def problemRequest : Frame :=
  ⟨.request, ofText "1 next 0", ⟨ofText ("POST /api/v2/problem/main HTTP/1.1\r\n" ++
    "Cookie: connect.sid=h.eyJ1c2VySUQiOjEsImxlc3NvbkluZm8iOnt9fQ.s\r\n\r\nold")⟩⟩

def sizedProblemRequest : Frame :=
  ⟨.request, ofText "1 next 0", ⟨ofText ("POST /api/v2/problem/main HTTP/1.1\n" ++
    "content-length :\t3 \nCookie: connect.sid=h.eyJ1c2VySUQiOjEsImxlc3NvbkluZm8iOnt9fQ.s\n\nold")⟩⟩

theorem length_set_with_body :
    let caches := (LocalCaches.empty 1000).set .problem "1" "7"
    let emits (request : Frame) (bytes : Bytes) := ∃ emitted out,
      (processLine {} .arrival request.line caches).1 = .ok (some emitted) ∧
        Frame.ofLine emitted = .ok out ∧ Footprint {} request.message out.message ∧
        out.message.bytes = bytes
    emits problemRequest (ofText ("POST /api/v2/problem/main HTTP/1.1\r\nContent-Length: 59\r\n" ++
        "Cookie: connect.sid=h.eyJ1c2VySUQiOjEsImxlc3NvbkluZm8iOnt9fQ.s\r\n\r\n" ++
        "input=%7B%22lessonInfo%22%3A%7B%7D%2C%22problemId%22%3A7%7D")) ∧
      emits sizedProblemRequest (ofText ("POST /api/v2/problem/main HTTP/1.1\n" ++
        "content-length :\t59 \nCookie: connect.sid=h.eyJ1c2VySUQiOjEsImxlc3NvbkluZm8iOnt9fQ.s\n\n" ++
        "input=%7B%22lessonInfo%22%3A%7B%7D%2C%22problemId%22%3A7%7D")) := by
  intro caches emits
  have feedless : ∀ credential user value,
      (caches.cache credential).stored? user = some value → '\n' ∉ value.toList := by
    intro credential user value stored
    cases credential with
    | sessionCookie => cases stored
    | accessToken => cases stored
    | problem =>
        rw [LocalCache.eq_of_stored?_set_empty stored]
        decide
  have sent {request : Frame} {bytes : Bytes} (headed : request.Headed)
      (kind : request.kind = .request) (closed : request.message.layout.blank ≠ [])
      (made : (renewRequest {} .arrival request.message caches).1.bytes = bytes) :
      emits request bytes := by
    have read : Frame.ofLine request.line = .ok request := Frame.ofLine_line headed
    obtain ⟨emitted, out, processed, back, -, footprint, -⟩ :=
      request_edited_in_place {} .arrival ⟨by decide, by decide⟩ caches read kind
    refine ⟨emitted, out, processed, back, footprint closed feedless, ?_⟩
    rw [processLine_request read kind] at processed
    cases processed
    cases (Frame.ofLine_line (headed.withMessage _)).symm.trans back
    exact made
  exact ⟨sent ⟨by decide +kernel, by decide +kernel, by decide +kernel⟩ rfl (by decide +kernel)
      (by decide +kernel),
    sent ⟨by decide +kernel, by decide +kernel, by decide +kernel⟩ rfl (by decide +kernel)
      (by decide +kernel)⟩

end CredentialRelay.Relay

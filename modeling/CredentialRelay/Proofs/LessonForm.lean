import Mathlib
import CredentialRelay.LessonForm
import CredentialRelay.Proofs.Json.RoundTrip
import CredentialRelay.Proofs.Text.Percent
import CredentialRelay.Proofs.Token.Reading

namespace CredentialRelay

open Json.Reader (Fits64)

variable {token lessonName problem : String} {held lesson : Token.Claims} {n : Int}

theorem Decimal.fits64_of_signed? {s : String} (read : signed? s = some n) : Fits64 n := by
  have fits := (Option.filter_eq_some_iff.1 read).2
  rw [fitsSigned, Bool.and_eq_true, decide_eq_true_eq, decide_eq_true_eq, signedLimit] at fits
  constructor <;> omega

theorem Token.formed_of_claims? {name : String} {value : Json} (read : claims? token = some held)
    (found : held.lookup name = some value) : Json.Formed (Json.Reader.maxDepth - 1) value := by
  unfold claims? at read
  split at read
  · split at read
    · next document =>
      cases read
      obtain ⟨bytes, -, document⟩ := Option.bind_eq_some_iff.1 document
      obtain ⟨text, -, document⟩ := Option.bind_eq_some_iff.1 document
      obtain ⟨before, after, rfl, -⟩ := List.lookup_eq_some_iff.1 found
      cases Json.formed_of_ofText? document with
      | object _ all => exact all (name, value) (by simp)
    · cases read
  · cases read

theorem Token.claim_of_claims? {name : String} {members : List (String × Json)}
    (read : claims? token = some held) (found : held.lookup name = some (.object members)) :
    claim token name = .ok (.object members) := by
  rw [claim, claims_eq_ok.2 read]
  simp only [bind, Except.bind, found]

namespace LessonForm

theorem document_eq (other : lessonName ≠ problemName) (context : Json) (n : Int) :
    ∃ members, document lessonName context n = .object members ∧
      members.Perm [(lessonName, context), (problemName, .number (.integer n))] := by
  by_cases before : problemName < lessonName
  · refine ⟨[(problemName, .number (.integer n)), (lessonName, context)], ?_, .swap ..⟩
    simp [document, Json.ofMembers, Json.insertMember, before]
  · refine ⟨[(lessonName, context), (problemName, .number (.integer n))], ?_, .refl _⟩
    simp [document, Json.ofMembers, Json.insertMember, before, other.symm]

theorem body_eq (read : Token.claims? token = some held)
    (found : held.lookup lessonName = some (.object lesson))
    (number : Decimal.signed? (Text.trim problem) = some n) :
    body token lessonName problem = .ok (encode (document lessonName (.object lesson) n)) := by
  rw [body, number]
  simp only [Token.claim_of_claims? read found, bind, Except.bind]

theorem ofText?_document (other : lessonName ≠ problemName)
    (formed : Json.Formed (Json.Reader.maxDepth - 1) (.object lesson))
    (whole : Json.Whole (.object lesson)) (fits : Fits64 n) :
    Json.ofText? (document lessonName (.object lesson) n).text =
      some (document lessonName (.object lesson) n) := by
  have formed : Json.Formed Json.Reader.maxDepth (document lessonName (.object lesson) n) :=
    .ofMembers (List.forall_mem_cons.2 ⟨formed, List.forall_mem_singleton.2 (.number _ _)⟩)
  refine Json.ofText?_text formed ?_
  obtain ⟨members, same, perm⟩ := document_eq other (.object lesson) n
  rw [same]
  refine .object fun member inside => ?_
  have inside := perm.mem_iff.1 inside
  simp only [List.mem_cons, List.not_mem_nil, or_false] at inside
  obtain rfl | rfl := inside
  · exact whole
  · exact .integer fits

/-- The form's field is spelled with letters, digits, four marks and percent signs with two digits. It
decodes to the text of an object that has the lesson context under its name and the problem id under
its own, whatever strings the context has and however deep it is. -/
theorem body_read_back (other : lessonName ≠ "problemId") (read : Token.claims? token = some held)
    (found : held.lookup lessonName = some (.object lesson)) (whole : Json.Whole (.object lesson))
    (number : Decimal.signed? (Text.trim problem) = some n) :
    ∃ field, body token lessonName problem = .ok ("input=" ++ field) ∧
      Percent.Spelled field.toList ∧
      ∃ text members, Percent.decode? field = some text ∧
        Json.ofText? text = some (.object members) ∧
        members.Perm [(lessonName, .object lesson), ("problemId", .number (.integer n))] := by
  obtain ⟨members, same, perm⟩ := document_eq other (.object lesson) n
  have back := ofText?_document other (Token.formed_of_claims? read found) whole
    (Decimal.fits64_of_signed? number)
  rw [same] at back
  refine ⟨Percent.encode (Json.object members).text, ?_, Percent.spelled_encode _, _, members,
    Percent.decode?_encode _, back, perm⟩
  rw [body_eq read found number, same]
  rfl

theorem nested_context_read_back :
    let claims :=
      "\x7b\"lesson\":\x7b\"tags\":[\"\\\"\\u0001\u00fc\",\x7b\"\":null\x7d,true],\"id\":7\x7d\x7d"
    let token := Token.ofSegments "h" (Base64.encode .urlSafe false (Bytes.ofText claims)) "s"
    let lesson : Token.Claims :=
      [("id", .number (.integer 7)),
        ("tags", .array [.string "\"\u0001\u00fc", .object [("", .null)], .bool true])]
    ∃ field, body token "lesson" " 437901\n" = .ok ("input=" ++ field) ∧
      Percent.Spelled field.toList ∧
      ∃ text members, Percent.decode? field = some text ∧
        Json.ofText? text = some (.object members) ∧
        members.Perm [("lesson", .object lesson), ("problemId", .number (.integer 437901))] := by
  intro claims token lesson
  have parsed : Json.ofBytes? (Bytes.ofText claims) = some (.object [("lesson", .object lesson)]) := by
    rw [Json.ofBytes?, Bytes.text?_ofText, Option.bind_some]
    cbv
  have read : Token.claims? token = some [("lesson", .object lesson)] := by
    have decoded := Token.decodeSegment?_of_decode?
      (Base64.decode?_encode .urlSafe false (Bytes.ofText claims))
    have read : Token.claims? ("" ++ token ++ "") = some [("lesson", .object lesson)] :=
      Token.claims?_ofSegments (by decide) (Token.dot_notMem_encode _ _ _) (by decide) decoded parsed
        (by simp) (by simp)
    rwa [String.empty_append, String.append_empty] at read
  have whole : Json.Whole (.object lesson) := by
    refine .object (List.forall_mem_cons.2
      ⟨.integer ⟨by decide, by decide⟩, List.forall_mem_singleton.2 (.array ?_)⟩)
    exact List.forall_mem_cons.2 ⟨.string _, List.forall_mem_cons.2
      ⟨.object (List.forall_mem_singleton.2 .null), List.forall_mem_singleton.2 (.bool true)⟩⟩
  exact body_read_back (by decide) read rfl whole (by decide +kernel)

end LessonForm

end CredentialRelay

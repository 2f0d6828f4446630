import CredentialRelay.Json.Printer
import CredentialRelay.Text.Percent
import CredentialRelay.Token

namespace CredentialRelay.LessonForm

def problemName : String := "problemId"

def fieldName : String := "input"

def document (lessonName : String) (lesson : Json) (problem : Int) : Json :=
  .ofMembers [(lessonName, lesson), (problemName, .number (.integer problem))]

def encode (document : Json) : String := fieldName ++ "=" ++ Percent.encode document.text

def body (session lessonName problem : String) : Except RelayError String := do
  match Decimal.signed? (Text.trim problem) with
  | none => .error (.pathNotFound problemName)
  | some problem =>
    match ← Token.claim session lessonName with
    | .object lesson => .ok (encode (document lessonName (.object lesson) problem))
    | _ => .error (.pathNotFound lessonName)

end CredentialRelay.LessonForm

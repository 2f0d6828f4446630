import CredentialRelay.Bytes.Base64
import CredentialRelay.Error
import CredentialRelay.Json.Path
import CredentialRelay.Json.Reader
import CredentialRelay.Text.Blank

namespace CredentialRelay.Token

abbrev Claims := List (String × Json)

def subjectClaims : List String := ["userID", "user_id"]

def decodeSegment? (segment : String) : Option Bytes :=
  (Base64.decode? .urlSafe segment).or (Base64.decode? .standard segment)

def claims? (token : String) : Option Claims :=
  match Text.split '.' (Text.trim token) with
  | [_, segment, _] =>
    match (decodeSegment? segment).bind Json.ofBytes? with
    | some (.object claims) => some claims
    | _ => none
  | _ => none

/-- Integers that fit 64 bits, with or without a sign, are written exactly; a double beyond the
range of signed ones is written as the end of that range. Text is trimmed and must not be blank. -/
def subjectText? : Json → Option String
  | .number (.integer n) => some (Decimal.text n)
  | .number (.double x) => some (Decimal.text (Decimal.clampSigned x.trunc))
  | .string s => some (Text.trim s) |>.filter (· ≠ "")
  | _ => none

def identityOfClaims? (claims : Claims) : Option String :=
  subjectClaims.findSome? fun name => (claims.lookup name).bind subjectText?

def identity? (token : String) : Option String := (claims? token).bind identityOfClaims?

def claims (token : String) : Except RelayError Claims :=
  match claims? token with
  | some claims => .ok claims
  | none => .error .identityNotFound

def identity (token : String) : Except RelayError String :=
  match identity? token with
  | some identity => .ok identity
  | none => .error .identityNotFound

def claim (token name : String) : Except RelayError Json := do
  match (← claims token).lookup name with
  | none | some .null => .error (.pathNotFound name)
  | some value => .ok value

end CredentialRelay.Token

import CredentialRelay.Token

namespace CredentialRelay.ResponseBody

def text (body : Bytes) (path : List String) : Except RelayError String :=
  match (Json.ofBytes? body).bind (Json.textAt? path) with
  | some text => .ok text
  | none => .error (.pathNotFound (Json.pathLabel path))

def integers (body : Bytes) (path : List String) : Except RelayError (List Int) :=
  match (Json.ofBytes? body).bind (Json.signedAt? path) with
  | some integers => .ok integers
  | none => .error (.pathNotFound (Json.pathLabel path))

structure AccessToken where
  token : String
  identity : Option String
deriving DecidableEq, Repr

def accessToken (body : Bytes) (path : List String) : Except RelayError AccessToken :=
  (text body path).map fun token => { token, identity := Token.identity? token }

end CredentialRelay.ResponseBody

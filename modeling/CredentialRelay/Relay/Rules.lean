namespace CredentialRelay.Relay

structure Rules where
  sessionCookie : String := "connect.sid"
  accessTokenHeader : String := "x-access-token"
  accessTokenPath : List String := ["data", "accessToken"]
  problemsPath : List String := ["data", "problems", "prob"]
  problemEndpoint : String := "/api/v2/problem/main"
  lessonClaim : String := "lessonInfo"
deriving DecidableEq, Repr

end CredentialRelay.Relay

namespace CredentialRelay

inductive RelayError where
  | io (reason : String)
  | malformedFrame (reason : String)
  | identityNotFound
  | pathNotFound (path : String)
  | storeUnavailable (reason : String)
  | storeRefused (reason : String)
  | badSettings (reason : String)
deriving DecidableEq, Repr

namespace RelayError

def message : RelayError → String
  | io reason => "I/O error: " ++ reason
  | malformedFrame reason => "Malformed frame: " ++ reason
  | identityNotFound => "Identity not found in token"
  | pathNotFound path => "JSON path not found: " ++ path
  | storeUnavailable reason => "Shared store unavailable: " ++ reason
  | storeRefused reason => "Shared store error: " ++ reason
  | badSettings reason => "Configuration error: " ++ reason

def isFatal : RelayError → Bool
  | io _ | storeUnavailable _ => true
  | _ => false

end RelayError

end CredentialRelay

namespace CredentialRelay.Settings

def addressVariable : String := "GOR_REDIS_ADDR"

def isInfixOf (part : List Char) : List Char → Bool
  | [] => part.isEmpty
  | c :: rest => part.isPrefixOf (c :: rest) || isInfixOf part rest

def normalizeAddress (address : String) : String :=
  if isInfixOf "://".toList address.toList then address else "redis://" ++ address

def addressFromEnvironment (environment : Option String) : Option String :=
  (environment.filter (· ≠ "")).map normalizeAddress

end CredentialRelay.Settings

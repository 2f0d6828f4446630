import CredentialRelay.Bytes
import CredentialRelay.Json
import CredentialRelay.Settings.Basic
import CredentialRelay.Toml.Reader

namespace CredentialRelay.Settings

inductive Node where
  | nothing
  | integer (value : Int)
  | text (value : String)
  | list (items : List Node)
  | table (members : List (String × Node))
  | other
deriving Inhabited

structure Notation where
  isUnit : Node → Bool
  allowsExtra : Bool

namespace Node

mutual

def ofJson : Json → Node
  | .null => nothing
  | .bool _ => other
  | .number (.integer n) => integer n
  | .number (.double _) => other
  | .string s => text s
  | .array items => list (ofJsonItems items)
  | .object members => table (ofJsonMembers members)

def ofJsonItems : List Json → List Node
  | [] => []
  | item :: rest => ofJson item :: ofJsonItems rest

def ofJsonMembers : List (String × Json) → List (String × Node)
  | [] => []
  | member :: rest => ofJsonMember member :: ofJsonMembers rest

def ofJsonMember : String × Json → String × Node
  | (name, value) => (name, ofJson value)

end

mutual

def ofToml : Toml → Node
  | .string s => text s
  | .integer n => integer n
  | .float => other
  | .boolean _ => other
  | .dateTime => table [("datetime", other)]
  | .array items => list (ofTomlItems items)
  | .tables items => list (ofTomlItems items)
  | .table _ entries => table (ofTomlEntries entries)

def ofTomlItems : List Toml → List Node
  | [] => []
  | item :: rest => ofToml item :: ofTomlItems rest

def ofTomlEntries : List (String × Toml) → List (String × Node)
  | [] => []
  | entry :: rest => ofTomlEntry entry :: ofTomlEntries rest

def ofTomlEntry : String × Toml → String × Node
  | (name, value) => (name, ofToml value)

end

def natural? : Node → Option Nat
  | integer n => if 0 ≤ n && n < UInt64.size then some n.toNat else none
  | _ => none

def text? : Node → Option String
  | text s => some s
  | _ => none

def optionalText? : Node → Option (Option String)
  | nothing => some none
  | text s => some (some s)
  | _ => none

def texts? : Node → Option (List String)
  | list items => items.mapM text?
  | _ => none

def backend? (dialect : Notation) : Node → Option Backend
  | text name => Backend.ofName? name
  | table [(name, value)] => if dialect.isUnit value then Backend.ofName? name else none
  | _ => none

def fields? (dialect : Notation) (names : List String) : Node → Option (List (String × Node))
  | table members => some members
  | list items =>
    if dialect.allowsExtra || items.length ≤ names.length then some (names.zip items) else none
  | _ => none

def field? {α : Type} (read : Node → Option α) (fields : List (String × Node)) (name : String)
    (default : α) : Option α :=
  match fields.lookup name with
  | none => some default
  | some node => read node

def rules? (dialect : Notation) (node : Node) : Option Relay.Rules := do
  let unset : Relay.Rules := {}
  let fields ← node.fields? dialect
    ["session_cookie", "access_token_header", "access_token_path", "problems_path",
      "problem_endpoint", "lesson_claim"]
  pure
    { sessionCookie := ← field? text? fields "session_cookie" unset.sessionCookie
      accessTokenHeader := ← field? text? fields "access_token_header" unset.accessTokenHeader
      accessTokenPath := ← field? texts? fields "access_token_path" unset.accessTokenPath
      problemsPath := ← field? texts? fields "problems_path" unset.problemsPath
      problemEndpoint := ← field? text? fields "problem_endpoint" unset.problemEndpoint
      lessonClaim := ← field? text? fields "lesson_claim" unset.lessonClaim }

def settings? (dialect : Notation) (environment : Option String) (node : Node) : Option Settings := do
  let unset := Settings.default environment
  let fields ← node.fields? dialect
    ["ttl_secs", "sweep_interval_ms", "backend", "redis_url", "rewrite"]
  pure
    { ttlSeconds := ← field? natural? fields "ttl_secs" unset.ttlSeconds
      sweepMillis := ← field? natural? fields "sweep_interval_ms" unset.sweepMillis
      backend := ← field? (backend? dialect) fields "backend" unset.backend
      address := ← field? optionalText? fields "redis_url" unset.address
      rules := ← field? (rules? dialect) fields "rewrite" unset.rules }

end Node

def jsonNotation : Notation where
  isUnit node := node matches .nothing
  allowsExtra := false

def tomlNotation : Notation where
  isUnit node := node matches .table [] | .list []
  allowsExtra := true

def ofJson? (environment : Option String) (document : Json) : Option Settings :=
  (Node.ofJson document).settings? jsonNotation environment

def ofToml? (environment : Option String) (document : Toml) : Option Settings :=
  (Node.ofToml document).settings? tomlNotation environment

def unreadable : RelayError := .badSettings "Failed to read config file"

def unparsable : RelayError := .badSettings "Failed to parse config"

def ofFile (environment : Option String) (bytes : Bytes) : Except RelayError Settings :=
  match Bytes.text? bytes with
  | none => .error unreadable
  | some text =>
    match (Toml.ofText? text).bind (ofToml? environment) with
    | none => .error unparsable
    | some settings => settings.validate

end CredentialRelay.Settings

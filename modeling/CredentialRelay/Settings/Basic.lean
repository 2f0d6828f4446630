import CredentialRelay.Cache.Credentials
import CredentialRelay.Relay.Rules
import CredentialRelay.Settings.Address
import CredentialRelay.Text.Blank

namespace CredentialRelay

inductive Backend where
  | process
  | redis
deriving DecidableEq, Repr

def Backend.name : Backend → String
  | process => "local"
  | redis => "redis"

def Backend.ofName? (name : String) : Option Backend :=
  if name = "local" then some process
  else if name = "redis" then some redis
  else none

structure Settings where
  ttlSeconds : Nat
  sweepMillis : Nat
  backend : Backend
  address : Option String
  rules : Relay.Rules
deriving DecidableEq, Repr

namespace Settings

def default (environment : Option String) : Settings where
  ttlSeconds := 3600
  sweepMillis := 1000
  backend := .process
  address := addressFromEnvironment environment
  rules := {}

def ttlMillis (settings : Settings) : Nat := settings.ttlSeconds * 1000

inductive Fault where
  | zero (name : String)
  | noAddress
  | blank (name : String)
  | badPath (name : String)
deriving DecidableEq, Repr

def Fault.message : Fault → String
  | zero name => name ++ " must be greater than 0"
  | noAddress => "redis backend requires redis_url or " ++ addressVariable
  | blank name => name ++ " cannot be empty"
  | badPath name => name ++ " must be a non-empty list of keys"

def isBlankText (s : String) : Bool := Text.trim s = ""

def isBadPath (path : List String) : Bool := path.isEmpty || path.any (· = "")

def checks (settings : Settings) : List (Bool × Fault) :=
  let rules := settings.rules
  [ (settings.ttlSeconds = 0, .zero "ttl_secs"),
    (settings.sweepMillis = 0, .zero "sweep_interval_ms"),
    (settings.backend = .redis && settings.address.all (· = ""), .noAddress),
    (isBlankText rules.sessionCookie, .blank "session_cookie"),
    (isBlankText rules.accessTokenHeader, .blank "access_token_header"),
    (isBlankText rules.problemEndpoint, .blank "problem_endpoint"),
    (isBlankText rules.lessonClaim, .blank "lesson_claim"),
    (isBadPath rules.accessTokenPath, .badPath "access_token_path"),
    (isBadPath rules.problemsPath, .badPath "problems_path") ]

def fault? (settings : Settings) : Option Fault :=
  (settings.checks.find? (·.1)).map (·.2)

def validate (settings : Settings) : Except RelayError Settings :=
  match settings.fault? with
  | some fault => .error (.badSettings fault.message)
  | none => .ok settings

/-- The caches that the settings ask for. There is no client for shared stores here, so every
address is out of reach. -/
def caches (settings : Settings) : Except RelayError Cache.LocalCaches :=
  match settings.backend, settings.address with
  | .process, _ => .ok (.empty settings.ttlMillis)
  | .redis, none => .error (.badSettings "redis backend requires redis_url")
  | .redis, some address => .error (.storeUnavailable ("no client for " ++ address))

end Settings

end CredentialRelay

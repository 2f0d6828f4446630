import CredentialRelay.Relay.Stream
import CredentialRelay.Settings.Document

namespace CredentialRelay.CommandLine

structure Options where
  config : Option String := none
  ttlSeconds : Option Nat := none
  backend : Option Backend := none
  address : Option String := none
deriving DecidableEq, Repr

inductive Flag where
  | config
  | ttlSeconds
  | backend
  | address
deriving DecidableEq, Repr

inductive Request where
  | run (options : Options)
  | help
  | version
  | misuse
deriving DecidableEq, Repr

def flagOfLong? (name : String) : Option Flag :=
  if name = "config" then some .config
  else if name = "ttl-secs" then some .ttlSeconds
  else if name = "backend" then some .backend
  else if name = "redis-url" then some .address
  else none

def Options.set? (options : Options) (name : Flag) (value : String) : Option Options :=
  match name with
  | .config =>
    if options.config.isSome || value = "" then none else some { options with config := value }
  | .ttlSeconds =>
    if options.ttlSeconds.isSome then none
    else (Decimal.natural? UInt64.size value).map fun n => { options with ttlSeconds := n }
  | .backend =>
    if options.backend.isSome then none
    else (Backend.ofName? value).map fun backend => { options with backend := backend }
  | .address =>
    if options.address.isSome then none else some { options with address := value }

inductive Argument where
  | option (name : Flag) (attached : Option String)
  | help
  | version
  | unknown
deriving DecidableEq, Repr

def longArgument (name : List Char) (attached : Option String) : Argument :=
  match flagOfLong? (String.ofList name) with
  | some name => .option name attached
  | none =>
    if attached.isSome then .unknown
    else if String.ofList name = "help" then .help
    else if String.ofList name = "version" then .version
    else .unknown

def argument (arg : String) : Argument :=
  match arg.toList with
  | '-' :: '-' :: long =>
    match cutAt? '=' long with
    | some (name, value) => longArgument name (some (String.ofList value))
    | none => longArgument long none
  | ['-', 'c'] => .option .config none
  | '-' :: 'c' :: '=' :: value => .option .config (some (String.ofList value))
  | '-' :: 'c' :: value => .option .config (some (String.ofList value))
  | '-' :: 'h' :: _ => .help
  | '-' :: 'V' :: _ => .version
  | _ => .unknown

def isValue (arg : String) : Bool :=
  match arg.toList with
  | '-' :: _ :: _ => false
  | _ => true

def parse (options : Options) : List String → Request
  | [] => .run options
  | arg :: rest =>
    match argument arg with
    | .help => .help
    | .version => .version
    | .unknown => if arg = "--" && rest.isEmpty then .run options else .misuse
    | .option name (some value) =>
      match options.set? name value with
      | some options => parse options rest
      | none => .misuse
    | .option name none =>
      match rest with
      | [] => .misuse
      | value :: rest =>
        if isValue value then
          match options.set? name value with
          | some options => parse options rest
          | none => .misuse
        else .misuse

inductive Fault where
  | loading (file : String)
  | settings (error : RelayError)
  | caches
  | frames
deriving DecidableEq, Repr

def Fault.message : Fault → String
  | loading file => "loading " ++ file
  | settings error => error.message
  | caches => "building caches"
  | frames => "processing frames"

/-- The options that stand in for settings. The address comes from the environment if there is no
option for it; an empty one stands in for nothing. -/
def Options.apply (options : Options) (environment : Option String) (settings : Settings) :
    Settings :=
  let address := (options.address.or environment).filter (· ≠ "")
  { settings with
    ttlSeconds := options.ttlSeconds.getD settings.ttlSeconds
    backend := options.backend.getD settings.backend
    address := (address.map Settings.normalizeAddress).or settings.address }

def startingSettings (options : Options) (environment : Option String)
    (file : String → Option Bytes) : Except Fault Settings :=
  match options.config with
  | none => .ok (.default environment)
  | some name =>
    match file name with
    | none => .error (.loading name)
    | some bytes => (Settings.ofFile environment bytes).mapError fun _ => .loading name

def load (options : Options) (environment : Option String) (file : String → Option Bytes) :
    Except Fault Settings := do
  let settings ← startingSettings options environment file
  ((options.apply environment settings).validate).mapError .settings

structure Setup where
  rules : Relay.Rules
  sweepMillis : Nat
  caches : Cache.LocalCaches

def prepare (options : Options) (environment : Option String) (file : String → Option Bytes) :
    Except Fault Setup := do
  let settings ← load options environment file
  let caches ← settings.caches.mapError fun _ => .caches
  pure { rules := settings.rules, sweepMillis := settings.sweepMillis, caches }

structure Ending where
  code : Nat
  written : List Bytes
  fault : Option Fault

def failed (fault : Fault) : Ending := ⟨1, [], some fault⟩

def Ending.report? (ending : Ending) : Option String :=
  ending.fault.map fun fault =>
    String.ofList (("Error: " ++ fault.message).toList.takeWhile (· ≠ '\n'))

def usage : String :=
  "Usage: [-c|--config FILE] [--ttl-secs SECONDS] [--backend local|redis] [--redis-url ADDRESS]"

def execute (args : List String) (environment : Option String) (file : String → Option Bytes)
    (input : Bytes) : Ending :=
  match parse {} args with
  | .misuse => ⟨2, [], none⟩
  | .help | .version => ⟨0, [], none⟩
  | .run options =>
    match prepare options environment file with
    | .error fault => failed fault
    | .ok setup =>
      let report := Relay.run setup.rules .arrival none input setup.caches
      match report.failure with
      | none => ⟨0, report.written, none⟩
      | some _ => ⟨1, report.written, some .frames⟩

end CredentialRelay.CommandLine

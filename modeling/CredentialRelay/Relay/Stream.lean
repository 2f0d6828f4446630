import CredentialRelay.Frame
import CredentialRelay.Relay.Learning

/-!
The relay over a stream of lines. Requests go on with renewed credentials, replayed responses are
learned from, and recorded responses and malformed lines are passed over. Only a fatal error ends
the stream.
-/

namespace CredentialRelay.Relay
open Cache Http

variable {σ : Type} [CredentialCaches σ]

def recover (outcome : Except RelayError Unit) : Except RelayError Unit :=
  match outcome with
  | .error error => if error.isFatal then .error error else .ok ()
  | .ok () => .ok ()

def process (rules : Rules) (order : CookieMap.Order) (frame : Frame) (caches : σ) :
    Except RelayError (Option Frame) × σ :=
  match frame.kind with
  | .request =>
    let (message, outcome, caches) := renewRequest rules order frame.message caches
    ((recover outcome).map fun _ => some { frame with message }, caches)
  | .recordedResponse => (.ok none, caches)
  | .replayedResponse =>
    let (outcome, caches) := learn rules frame.message caches
    ((recover outcome).map fun _ => none, caches)

def processLine (rules : Rules) (order : CookieMap.Order) (line : Bytes) (caches : σ) :
    Except RelayError (Option Bytes) × σ :=
  match Frame.ofLine line with
  | .error _ => (.ok none, caches)
  | .ok frame =>
    let (result, caches) := process rules order frame caches
    (result.map fun frame => frame.map Frame.line, caches)

structure Report (σ : Type) where
  lines : Nat
  written : List Bytes
  failure : Option RelayError
  caches : σ

def writeFailure : RelayError := .io "broken pipe"

/-- Reads the lines in order. A writer with `room` takes that many lines and fails at the next. -/
def runLines (rules : Rules) (order : CookieMap.Order) (room : Option Nat) :
    List Bytes → σ → Report σ
  | [], caches => ⟨0, [], none, caches⟩
  | line :: rest, caches =>
    match processLine rules order line caches with
    | (.error error, caches) => ⟨1, [], some error, caches⟩
    | (.ok none, caches) =>
      let report := runLines rules order room rest caches
      { report with lines := report.lines + 1 }
    | (.ok (some out), caches) =>
      if room = some 0 then ⟨1, [], some writeFailure, caches⟩
      else
        let report := runLines rules order (room.map (· - 1)) rest caches
        { report with lines := report.lines + 1, written := out :: report.written }

def run (rules : Rules) (order : CookieMap.Order) (room : Option Nat) (input : Bytes) (caches : σ) :
    Report σ :=
  runLines rules order room (Bytes.lines input) caches

end CredentialRelay.Relay

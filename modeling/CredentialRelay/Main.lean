import CredentialRelay.CommandLine

namespace CredentialRelay.CommandLine

/-- Reads up to and including the next line feed, byte by byte, since a line need not be text; `read`
holds the bytes so far, last first. Nothing is read at the end of the input. -/
partial def readLine (input : IO.FS.Stream) (read : Bytes) : IO Bytes := do
  match (← input.read 1).data.toList with
  | [] => return read.reverse
  | b :: _ => if b = Bytes.lf then return (b :: read).reverse else readLine input (b :: read)

partial def relayLines (setup : Setup) (start : Nat) (input output : IO.FS.Stream)
    (caches : Cache.LocalCaches) : IO (Except RelayError Unit) := do
  let line ← readLine input []
  if line.isEmpty then return .ok ()
  let now ← IO.monoMsNow
  let caches := caches.advanceTo (now - start) setup.sweepMillis
  match Relay.processLine setup.rules .arrival line caches with
  | (.error error, _) => return .error error
  | (.ok none, caches) => relayLines setup start input output caches
  | (.ok (some out), caches) =>
    output.write ⟨out.toArray⟩
    output.flush
    relayLines setup start input output caches

def fail (fault : Fault) : IO UInt32 := do
  IO.eprintln ("Error: " ++ fault.message)
  return 1

def readFile? (name : String) : IO (Option Bytes) := do
  try
    let bytes ← IO.FS.readBinFile name
    return some bytes.data.toList
  catch _ => return none

def runWith (options : Options) : IO UInt32 := do
  let environment ← IO.getEnv Settings.addressVariable
  let file ← match options.config with
    | none => pure none
    | some name => readFile? name
  match prepare options environment fun _ => file with
  | .error fault => fail fault
  | .ok setup =>
    let start ← IO.monoMsNow
    match ← relayLines setup start (← IO.getStdin) (← IO.getStdout) setup.caches with
    | .ok () => return 0
    | .error _ => fail .frames

end CredentialRelay.CommandLine

open CredentialRelay

def main (args : List String) : IO UInt32 :=
  match CommandLine.parse {} args with
  | .run options => CommandLine.runWith options
  | .help | .version => do
    IO.println CommandLine.usage
    return 0
  | .misuse => do
    IO.eprintln CommandLine.usage
    return 2

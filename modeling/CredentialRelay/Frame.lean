import CredentialRelay.Bytes.Hex
import CredentialRelay.Bytes.Lossy
import CredentialRelay.Http.Message

/-!
Frames: a header line of fields between single spaces, and a message after it. The first byte is
a tag that says what kind of event the frame reports, the second field ties a request to its
responses. On the stream a frame is one line of hexadecimal digits.
-/

namespace CredentialRelay

inductive EventKind where
  | request
  | recordedResponse
  | replayedResponse
deriving DecidableEq, Repr

namespace EventKind

def tag : EventKind → UInt8
  | request => 49
  | recordedResponse => 50
  | replayedResponse => 51

def ofTag? (tag : UInt8) : Option EventKind :=
  if tag = 49 then some request
  else if tag = 50 then some recordedResponse
  else if tag = 51 then some replayedResponse
  else none

end EventKind

structure Frame where
  kind : EventKind
  /-- The header line as it came, tag included, without its line feed. -/
  header : Bytes
  message : Http.Message
deriving DecidableEq, Repr

namespace Frame
open Bytes

inductive Fault where
  | emptyLine
  | hex (fault : Hex.Fault)
  | empty
  | unknownTag (tag : UInt8)
  | unterminatedHeader
  | missingFields (found : Nat)
deriving DecidableEq, Repr

def minFields : Nat := 2

def Fault.message : Fault → String
  | emptyLine => "empty line"
  | hex fault => "invalid hex: " ++ fault.message
  | empty => "empty frame"
  | unknownTag tag =>
    "unknown event tag 0x" ++
      String.ofList [Nat.digitChar (tag.toNat / 16), Nat.digitChar (tag.toNat % 16)]
  | unterminatedHeader => "missing meta header terminator"
  | missingFields found =>
    "expected at least " ++ toString minFields ++ " meta fields, got " ++ toString found

def fieldsOf (header : Bytes) : List Bytes := header.splitOn space

def metaFields (frame : Frame) : List String := (fieldsOf frame.header).map lossyText

def correlationId (frame : Frame) : String := frame.metaFields[1]?.getD ""

def bytes (frame : Frame) : Bytes := frame.header ++ lf :: frame.message.bytes

def line (frame : Frame) : Bytes := Hex.encode frame.bytes ++ [lf]

def ofBytes (bytes : Bytes) : Except Fault Frame :=
  match bytes with
  | [] => .error .empty
  | tag :: _ =>
    match EventKind.ofTag? tag with
    | none => .error (.unknownTag tag)
    | some kind =>
      match cutAt? lf bytes with
      | none => .error .unterminatedHeader
      | some (header, message) =>
        if (fieldsOf header)[1]?.getD [] = [] then
          .error (.missingFields (fieldsOf header).length)
        else .ok { kind, header, message := ⟨message⟩ }

def ofLine (line : Bytes) : Except Fault Frame :=
  match trimBy isAsciiBlank line with
  | [] => .error .emptyLine
  | digits =>
    match Hex.decode digits with
    | .error fault => .error (.hex fault)
    | .ok bytes => ofBytes bytes

end Frame

end CredentialRelay

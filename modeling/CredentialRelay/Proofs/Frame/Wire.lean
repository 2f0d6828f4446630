import Mathlib
import CredentialRelay.Proofs.Bytes.Hex
import CredentialRelay.Proofs.Frame.Grammar

namespace CredentialRelay
open Bytes

namespace Http

inductive Edit where
  | header (name : String) (value : Bytes)
  | body (bytes : Bytes)
deriving DecidableEq, Repr

def Edit.apply (message : Message) : Edit → Message
  | .header name value => message.setHeader name value
  | .body bytes => message.setBody bytes

end Http

namespace Frame
open Http

theorem bytes_ne_nil (frame : Frame) : frame.bytes ≠ [] := by
  rw [bytes]
  exact List.append_ne_nil_of_right_ne_nil _ (List.cons_ne_nil _ _)

theorem ofLine_eq_ok {line : Bytes} {frame : Frame} :
    ofLine line = .ok frame ↔
      frame.Headed ∧ Hex.decode (trimBy isAsciiBlank line) = .ok frame.bytes := by
  unfold ofLine
  split
  · next empty =>
    rw [empty]
    constructor
    · rintro ⟨⟩
    · rintro ⟨-, read⟩
      exact absurd (Except.ok.inj read).symm frame.bytes_ne_nil
  · next digits filled =>
    generalize trimBy isAsciiBlank line = digits
    cases read : Hex.decode digits with
    | error fault =>
        constructor
        · rintro ⟨⟩
        · rintro ⟨-, ⟨⟩⟩
    | ok raw =>
        dsimp only
        rw [ofBytes_eq_ok, Except.ok.injEq]

theorem ofLine_line {frame : Frame} (headed : frame.Headed) : ofLine frame.line = .ok frame := by
  rw [ofLine_eq_ok, line, Hex.trimBy_line]
  exact ⟨headed, Hex.decode_encode frame.bytes⟩

theorem Headed.message_inj {frame : Frame} (headed : frame.Headed) {message message' : Message}
    (same : Frame.line { frame with message } = Frame.line { frame with message := message' }) :
    message = message' := by
  have back := congrArg ofLine same
  rw [ofLine_line (headed.withMessage _), ofLine_line (headed.withMessage _)] at back
  exact congrArg Frame.message (Except.ok.inj back)

theorem line_of_ofLine {line : Bytes} {frame : Frame} (read : ofLine line = .ok frame) :
    frame.line = (trimBy isAsciiBlank line).map lowerAscii ++ [lf] := by
  rw [Frame.line, Hex.encode_of_decode (ofLine_eq_ok.1 read).2]

def edit (frame : Frame) (edit : Edit) : Frame :=
  { frame with message := edit.apply frame.message }

theorem foldl_edit (edits : List Edit) (frame : Frame) :
    edits.foldl edit frame = { frame with message := edits.foldl Edit.apply frame.message } := by
  induction edits generalizing frame with
  | nil => rfl
  | cons first edits ih => exact ih (frame.edit first)

theorem wire_round_trip :
    (∀ line frame, ofLine line = .ok frame →
      frame.line = (trimBy isAsciiBlank line).map lowerAscii ++ [lf]) ∧
    (∀ raw frame, ofBytes raw = .ok frame → frame.bytes = raw) ∧
    ∀ raw frame, ofBytes raw = .ok frame → ∀ edits : List Edit,
      ∃ read, ofLine (edits.foldl edit frame).line = .ok read ∧ read.kind = frame.kind ∧
        read.correlationId = frame.correlationId ∧ read.metaFields = frame.metaFields ∧
        read.message = edits.foldl Edit.apply frame.message := by
  refine ⟨fun line frame read => line_of_ofLine read, fun raw frame read => ?_, ?_⟩
  · exact (ofBytes_eq_ok.1 read).2.symm
  · intro raw frame read edits
    have headed := (ofBytes_eq_ok.1 read).1
    rw [foldl_edit]
    exact ⟨_, ofLine_line (headed.withMessage _), rfl, rfl, rfl, rfl⟩

theorem shouted_line_round_trip :
    let line := ofText " 3120610A\t\r\n"
    ∃ frame, ofLine line = .ok frame ∧ frame.line = ofText "3120610a\n" ∧
      ∃ read, ofLine ((frame.edit (.body (ofText "2 b\n"))).edit
          (.header "C:\n3" (ofText "\n4 c"))).line = .ok read ∧
        read.kind = .request ∧ read.correlationId = "a" ∧
        read.message.bytes = ofText "2 b\nC:\n3: \n4 c\n" := by
  intro line
  have frame : ofLine line = .ok ⟨.request, ofText "1 a", ⟨[]⟩⟩ := by decide +kernel
  have raw : ofBytes (ofText "1 a\n") = .ok ⟨.request, ofText "1 a", ⟨[]⟩⟩ := by decide +kernel
  obtain ⟨canonical, -, edited⟩ := wire_round_trip
  refine ⟨_, frame, (canonical line _ frame).trans (by decide +kernel), ?_⟩
  obtain ⟨read, back, kind, id, -, message⟩ :=
    edited _ _ raw [.body (ofText "2 b\n"), .header "C:\n3" (ofText "\n4 c")]
  refine ⟨read, back, kind, id.trans (by decide +kernel), ?_⟩
  rw [message]
  decide +kernel

end Frame

end CredentialRelay

import CredentialRelay.Http.Field

/-!
Reading and editing a message in its buffer, by offsets and with nothing copied that stays. Every look
into the buffer is checked, and one outside of it is an outcome of its own. What is found is what the
layout of the message says.
-/

namespace CredentialRelay.Http
open Bytes

structure Span where
  start : Nat
  stop : Nat
deriving DecidableEq, Repr

def Field.span (field : Field) (offset : Nat) : Span where
  start := offset + field.name.length + field.lead.length
  stop := offset + field.name.length + field.lead.length + field.value.length

namespace Scan

structure Outside where
  span : Span
  length : Nat
deriving DecidableEq, Repr

abbrev Checked := Except Outside

def Fits (span : Span) (buffer : Bytes) : Prop :=
  span.start ≤ span.stop ∧ span.stop ≤ buffer.length

instance (span : Span) (buffer : Bytes) : Decidable (Fits span buffer) :=
  inferInstanceAs (Decidable (_ ∧ _))

def slice (buffer : Bytes) (span : Span) : Checked Bytes :=
  if Fits span buffer then .ok ((buffer.take span.stop).drop span.start)
  else .error ⟨span, buffer.length⟩

def splice (buffer : Bytes) (span : Span) (bytes : Bytes) : Checked Bytes :=
  if Fits span buffer then .ok (buffer.take span.start ++ bytes ++ buffer.drop span.stop)
  else .error ⟨span, buffer.length⟩

def byteAt (buffer : Bytes) (index : Nat) : Checked UInt8 :=
  match buffer[index]? with
  | some b => .ok b
  | none => .error ⟨⟨index, index + 1⟩, buffer.length⟩

def withoutReturn (line : Bytes) : Bytes := (splitLast cr line).1

def lineEnd (buffer : Bytes) (start : Nat) : Checked Nat :=
  (slice buffer ⟨start, buffer.length⟩).map fun rest =>
    match rest.findIdx? (· == lf) with
    | some distance => start + distance
    | none => buffer.length

theorem le_lineEnd {buffer : Bytes} {start stop : Nat} (h : lineEnd buffer start = .ok stop) :
    start ≤ stop := by
  unfold lineEnd slice at h
  split at h
  · next fits =>
    cases h
    dsimp only
    split
    · exact Nat.le_add_right start _
    · exact fits.1
  · cases h

def overLines {α : Type} (buffer : Bytes) (limit : Nat) (visit : Span → Checked (Option α))
    (offset : Nat) : Checked (Option α) :=
  if offset < limit then
    match _ : lineEnd buffer offset with
    | .error outside => .error outside
    | .ok stop =>
      match visit ⟨offset, stop⟩ with
      | .error outside => .error outside
      | .ok (some answer) => .ok (some answer)
      | .ok none => overLines buffer limit visit (stop + 1)
  else .ok none
termination_by limit - offset
decreasing_by
  have forward := le_lineEnd ‹lineEnd buffer offset = .ok stop›
  omega

def startLine (buffer : Bytes) : Checked Bytes := do
  let stop ← lineEnd buffer 0
  let line ← slice buffer ⟨0, stop⟩
  pure (withoutReturn line)

def below? (buffer : Bytes) (line : Span) : Checked (Option Nat) :=
  if line.start = 0 then .ok none
  else (slice buffer line).map fun text =>
    if withoutReturn text = [] then some (min (line.stop + 1) buffer.length) else none

def bodyStart (buffer : Bytes) : Checked Nat := do
  let found ← overLines buffer buffer.length (below? buffer) 0
  pure (found.getD buffer.length)

def body (buffer : Bytes) : Checked Bytes := do
  let start ← bodyStart buffer
  slice buffer ⟨start, buffer.length⟩

def setBody (buffer body : Bytes) : Checked Bytes := do
  let start ← bodyStart buffer
  splice buffer ⟨start, buffer.length⟩ body

def skipPads (buffer : Bytes) (start stop : Nat) : Checked Nat :=
  if start < stop then
    match byteAt buffer start with
    | .error outside => .error outside
    | .ok b => if isPad b then skipPads buffer (start + 1) stop else .ok start
  else .ok start
termination_by stop - start

def dropPads (buffer : Bytes) (start stop : Nat) : Checked Nat :=
  if start < stop then
    match byteAt buffer (stop - 1) with
    | .error outside => .error outside
    | .ok b => if isPad b then dropPads buffer start (stop - 1) else .ok stop
  else .ok stop
termination_by stop - start

def value? (buffer : Bytes) (name : String) (line : Span) : Checked (Option (Option Span)) := do
  let text := withoutReturn (← slice buffer line)
  if text = [] then pure (some none)
  else
    match text.findIdx? (· == colon) with
    | none => pure none
    | some mark =>
      let before ← slice text ⟨0, mark⟩
      if sameName (trimBy isAsciiBlank before) (ofText name) then
        let start ← skipPads buffer (line.start + mark + 1) (line.start + text.length)
        let stop ← dropPads buffer start (line.start + text.length)
        pure (some (some ⟨start, stop⟩))
      else pure none

def valueSpan? (buffer : Bytes) (name : String) : Checked (Option Span) := do
  let limit ← bodyStart buffer
  let first ← lineEnd buffer 0
  let found ← overLines buffer limit (value? buffer name) (first + 1)
  pure found.join

def header? (buffer : Bytes) (name : String) : Checked (Option Bytes) := do
  match ← valueSpan? buffer name with
  | none => pure none
  | some span => (slice buffer span).map some

def setHeader (buffer : Bytes) (name : String) (value : Bytes) : Checked Bytes := do
  match ← valueSpan? buffer name with
  | some span => splice buffer span value
  | none =>
    let first ← lineEnd buffer 0
    let newLine := if 0 < first ∧ buffer[first - 1]? = some cr then [cr, lf] else [lf]
    let place := min (first + 1) buffer.length
    let opening := if place = buffer.length ∧ buffer.getLast? ≠ some lf then newLine else []
    splice buffer ⟨place, place⟩ (opening ++ ofText name ++ [colon, space] ++ value ++ newLine)

end Scan

end CredentialRelay.Http

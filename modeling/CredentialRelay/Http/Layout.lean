import CredentialRelay.Bytes

/-!
How the bytes of a message are laid out: a start line, header lines up to the first empty line,
that empty line, and a body. Every line keeps its terminator, so the parts in order are the
message again (`bytes_ofBytes`).
-/

namespace CredentialRelay.Http
open Bytes

def splitLast (b : UInt8) (line : Bytes) : Bytes × Bytes :=
  if line.getLast? = some b then (line.dropLast, [b]) else (line, [])

@[simp] theorem append_splitLast (b : UInt8) (line : Bytes) :
    (splitLast b line).1 ++ (splitLast b line).2 = line := by
  unfold splitLast
  split
  · next h =>
    obtain ⟨init, rfl⟩ := List.getLast?_eq_some_iff.1 h
    simp
  · simp

def content (line : Bytes) : Bytes := (splitLast cr (splitLast lf line).1).1

def lineEnd (line : Bytes) : Bytes :=
  (splitLast cr (splitLast lf line).1).2 ++ (splitLast lf line).2

@[simp] theorem content_append_lineEnd (line : Bytes) : content line ++ lineEnd line = line := by
  rw [content, lineEnd, ← List.append_assoc, append_splitLast, append_splitLast]

structure Layout where
  start : Bytes
  headers : List Bytes
  blank : Bytes
  body : Bytes
deriving DecidableEq, Repr

namespace Layout

def bytes (layout : Layout) : Bytes :=
  layout.start ++ layout.headers.flatten ++ layout.blank ++ layout.body

/-- The first line is the start line even if it is empty; only a later empty line ends the
headers. -/
def ofLines : List Bytes → Layout
  | [] => ⟨[], [], [], []⟩
  | start :: rest =>
    let headers := rest.takeWhile fun line => content line != []
    match rest.dropWhile fun line => content line != [] with
    | [] => ⟨start, headers, [], []⟩
    | blank :: body => ⟨start, headers, blank, body.flatten⟩

def ofBytes (bytes : Bytes) : Layout := ofLines (lines bytes)

theorem bytes_ofLines (ls : List Bytes) : (ofLines ls).bytes = ls.flatten := by
  cases ls with
  | nil => rfl
  | cons start rest =>
    rw [ofLines]
    have cut := List.takeWhile_append_dropWhile (p := fun line => content line != []) (l := rest)
    split
    · next h =>
      rw [h, List.append_nil] at cut
      simp [bytes, cut]
    · next blank body h =>
      rw [h] at cut
      have whole := congrArg List.flatten cut
      simp only [List.flatten_append, List.flatten_cons] at whole
      simp [bytes, ← whole]

@[simp] theorem bytes_ofBytes (b : Bytes) : (ofBytes b).bytes = b := by
  rw [ofBytes, bytes_ofLines, flatten_lines]

end Layout

end CredentialRelay.Http

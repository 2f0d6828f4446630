import Mathlib
import CredentialRelay.Proofs.Http.Bodies

namespace CredentialRelay.Http
open Bytes

def dropReturn (line : Bytes) : Bytes :=
  if line.getLast? = some cr then line.dropLast else line

structure Outline where
  startLine : Bytes
  headerLines : List Bytes
  body : Bytes
deriving DecidableEq, Repr

def Outline.ofBytes (bytes : Bytes) : Outline :=
  let lines := bytes.splitOn lf
  { startLine := dropReturn (lines.headD [])
    headerLines := (lines.tail.map dropReturn).takeWhile (· != [])
    body := [lf].intercalate (lines.tail.dropWhile (dropReturn · != [])).tail }

def Gives (name : String) (line value : Bytes) : Prop :=
  ∃ before after, line = before ++ colon :: after ∧ colon ∉ before ∧
    sameName (trimBy isAsciiBlank before) (ofText name) = true ∧ value = trimBy isPad after

def Outline.FirstGives (outline : Outline) (name : String) (value : Bytes) : Prop :=
  ∃ before line after, outline.headerLines = before ++ line :: after ∧ Gives name line value ∧
    ∀ other ∈ before, ∀ value, ¬Gives name other value

theorem induction_on_lines {motive : Bytes → Prop} (last : ∀ b, lf ∉ b → motive b)
    (line : ∀ text rest, lf ∉ text → motive rest → motive (text ++ lf :: rest)) (b : Bytes) :
    motive b := by
  obtain ⟨n, bound⟩ : ∃ n, b.length ≤ n := ⟨b.length, le_rfl⟩
  induction n generalizing b with
  | zero => exact last b (by simp [List.length_eq_zero_iff.1 (Nat.le_zero.1 bound)])
  | succ n ih =>
      by_cases feed : lf ∈ b
      · obtain ⟨text, rest, rfl, clean⟩ := List.eq_append_cons_of_mem feed
        refine line text rest clean (ih rest ?_)
        simp only [List.length_append, List.length_cons] at bound
        omega
      · exact last b feed

theorem content_of_lf_notMem {line : Bytes} (feedless : lf ∉ line) :
    content line = dropReturn line := by
  have last : line.getLast? ≠ some lf := fun same => feedless (List.mem_of_getLast? same)
  rw [content, splitLast_of_last_ne last, splitLast, dropReturn]
  split <;> rfl

theorem content_concat_lf (text : Bytes) : content (text ++ [lf]) = dropReturn text := by
  rw [content_isLine, splitLast, dropReturn]
  split <;> rfl

theorem lines_append_lf {text : Bytes} (clean : lf ∉ text) (rest : Bytes) :
    lines (text ++ lf :: rest) = (text ++ [lf]) :: lines rest := by
  rw [← lines_line_append ⟨text, clean, rfl⟩ rest, List.append_assoc]
  rfl

theorem filled_lines (b : Bytes) :
    ((lines b).takeWhile fun line => content line != []).map content =
      ((b.splitOn lf).map dropReturn).takeWhile (· != []) := by
  induction b using induction_on_lines with
  | last b feedless =>
      rw [List.splitOn_eq_singleton feedless]
      by_cases empty : b = []
      · subst empty
        rfl
      · rw [lines_of_lf_notMem empty feedless, List.map_singleton, ← content_of_lf_notMem feedless,
          List.takeWhile_cons, List.takeWhile_cons]
        split <;> rfl
  | line text rest clean ih =>
      rw [lines_append_lf clean, List.splitOn_append_cons_self_of_not_mem clean, List.map_cons,
        List.takeWhile_cons, List.takeWhile_cons, content_concat_lf]
      split
      · rw [List.map_cons, content_concat_lf, ih]
      · rfl

theorem rest_of_lines (b : Bytes) :
    ((lines b).dropWhile fun line => content line != []).tail.flatten =
      [lf].intercalate ((b.splitOn lf).dropWhile (dropReturn · != [])).tail := by
  induction b using induction_on_lines with
  | last b feedless =>
      rw [List.splitOn_eq_singleton feedless]
      by_cases empty : b = []
      · subst empty
        rfl
      · rw [lines_of_lf_notMem empty feedless, List.dropWhile_cons, List.dropWhile_cons,
          content_of_lf_notMem feedless]
        split <;> rfl
  | line text rest clean ih =>
      rw [lines_append_lf clean, List.splitOn_append_cons_self_of_not_mem clean,
        List.dropWhile_cons, List.dropWhile_cons, content_concat_lf]
      split
      · exact ih
      · rw [List.tail_cons, List.tail_cons, flatten_lines, List.intercalate_splitOn]

theorem Layout.ofLines_cons (start : Bytes) (rest : List Bytes) :
    (ofLines (start :: rest)).body =
      (rest.dropWhile fun line => content line != []).tail.flatten := by
  rw [ofLines]
  split
  · next all => rw [all]; rfl
  · next blank body stop => rw [stop]; rfl

theorem Outline.ofBytes_eq (b : Bytes) : Outline.ofBytes b =
    ⟨content (Layout.ofBytes b).start, (Layout.ofBytes b).headers.map content,
      (Layout.ofBytes b).body⟩ := by
  by_cases feed : lf ∈ b
  · obtain ⟨text, rest, rfl, clean⟩ := List.eq_append_cons_of_mem feed
    rw [Outline.ofBytes, Layout.ofBytes, lines_append_lf clean,
      List.splitOn_append_cons_self_of_not_mem clean, Layout.start_ofLines,
      Layout.headers_ofLines, Layout.ofLines_cons, content_concat_lf, filled_lines, rest_of_lines]
    rfl
  · rw [Outline.ofBytes, Layout.ofBytes_of_lf_notMem feed, List.splitOn_eq_singleton feed,
      content_of_lf_notMem feed]
    rfl

theorem gives_content_iff {name : String} {line value : Bytes} :
    Gives name (content line) value ↔ (fieldNamed? name line).map (·.value) = some value := by
  constructor
  · rintro ⟨before, after, said, clean, named, rfl⟩
    obtain ⟨field, read, rfl, value⟩ := Field.ofLine?_of_content clean said
    rw [fieldNamed?_eq_some.2 ⟨read, named⟩, Option.map_some, value]
  · intro given
    obtain ⟨field, found, rfl⟩ := Option.map_eq_some_iff.1 given
    obtain ⟨read, named⟩ := fieldNamed?_eq_some.1 found
    obtain ⟨rest, clean, said, -, value, -⟩ := Field.ofLine?_eq_some read
    exact ⟨field.name, rest, said, clean, named, value⟩

namespace Message

variable {message : Message} {name : String} {value : Bytes}

theorem header?_eq_some_iff : message.header? name = some value ↔
    (Outline.ofBytes message.bytes).FirstGives name value := by
  rw [header?_eq, valueIn?, List.findSome?_eq_some_iff, Outline.FirstGives, Outline.ofBytes_eq]
  constructor
  · rintro ⟨before, line, after, whole, found, others⟩
    refine ⟨before.map content, content line, after.map content, ?_, gives_content_iff.2 found, ?_⟩
    · rw [← List.map_cons, ← List.map_append, ← whole]
      rfl
    · intro other member value given
      obtain ⟨line', inside, rfl⟩ := List.mem_map.1 member
      rw [gives_content_iff, others line' inside] at given
      cases given
  · rintro ⟨before, text, after, cut, given, others⟩
    obtain ⟨before, rest, whole, rfl, below⟩ := List.map_eq_append_iff.1 cut
    obtain ⟨line, after, rfl, rfl, rfl⟩ := List.map_eq_cons_iff.1 below
    refine ⟨before, line, after, whole, gives_content_iff.1 given, fun line' inside => ?_⟩
    by_contra given
    obtain ⟨value', given⟩ := Option.ne_none_iff_exists'.1 given
    exact others _ (List.mem_map_of_mem inside) value' (gives_content_iff.2 given)

theorem header?_eq_none_iff : message.header? name = none ↔
    ∀ line ∈ (Outline.ofBytes message.bytes).headerLines, ∀ value, ¬Gives name line value := by
  rw [header?_eq, valueIn?, List.findSome?_eq_none_iff, Outline.ofBytes_eq, List.forall_mem_map]
  refine forall₂_congr fun line _ => ?_
  rw [Option.eq_none_iff_forall_ne_some]
  exact forall_congr' fun value => not_congr gives_content_iff.symm

theorem exists_front (message : Message) : ∃ front, message.bytes = front ++ message.body ∧
    ∀ name, (Message.mk front).header? name = message.header? name := by
  by_cases ended : message.layout.Ended
  · refine ⟨Layout.bytes { message.layout with body := [] }, ?_, fun name => ?_⟩
    · have whole := Layout.bytes_ofBytes message.bytes
      rw [Layout.bytes, List.append_nil]
      exact whole.symm
    · have front : (ofLayout { message.layout with body := [] }).layout = _ :=
        layout_ofLayout (ended.withBody [])
      rw [header?_eq, header?_eq]
      exact congrArg (valueIn? name ·.headers) front
  · exact ⟨message.bytes, by rw [body_of_open ended, List.append_nil], fun _ => rfl⟩

end Message

end CredentialRelay.Http

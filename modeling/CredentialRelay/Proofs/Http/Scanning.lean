import Mathlib
import CredentialRelay.Http.Scan
import CredentialRelay.Proofs.Http.Outline

/-!
# A message scanned in its buffer

The loops that go over a buffer by offsets see the lines of the message one after the other. So what they
find is where the layout has it, and they never look outside the buffer.
-/

namespace CredentialRelay.Http
open Bytes

namespace Scan

variable {buffer front middle back : Bytes} {span : Span}

/-! ## Looks that fit -/

theorem slice_eq (whole : buffer = front ++ middle ++ back) (start : span.start = front.length)
    (stop : span.stop = front.length + middle.length) : slice buffer span = .ok middle := by
  have fits : Fits span buffer := by
    rw [Fits, start, stop, whole]
    simp
  rw [slice, if_pos fits, start, stop, whole, ← List.length_append, List.take_left, List.drop_left]

theorem splice_eq (whole : buffer = front ++ middle ++ back) (start : span.start = front.length)
    (stop : span.stop = front.length + middle.length) (bytes : Bytes) :
    splice buffer span bytes = .ok (front ++ bytes ++ back) := by
  have fits : Fits span buffer := by
    rw [Fits, start, stop, whole]
    simp
  rw [splice, if_pos fits, start, stop, whole, ← List.length_append, List.drop_left,
    List.append_assoc front, List.take_left]

theorem byteAt_eq {b : UInt8} (whole : buffer = front ++ b :: back) :
    byteAt buffer front.length = .ok b := by
  rw [byteAt, whole, List.getElem?_append_right le_rfl, Nat.sub_self, List.getElem?_cons_zero]

theorem findIdx?_of_notMem {sep : UInt8} (clean : sep ∉ middle) :
    middle.findIdx? (· == sep) = none :=
  List.findIdx?_eq_none_iff.2 fun _ member => beq_false_of_ne fun same => clean (same ▸ member)

theorem findIdx?_append_cons {sep : UInt8} (clean : sep ∉ middle) (back : Bytes) :
    (middle ++ sep :: back).findIdx? (· == sep) = some middle.length := by
  rw [List.findIdx?_append, findIdx?_of_notMem clean, List.findIdx?_cons, beq_self_eq_true]
  simp

theorem skipPads_eq (whole : buffer = front ++ middle ++ back) :
    skipPads buffer front.length (front.length + middle.length) =
      .ok (front.length + (middle.takeWhile isPad).length) := by
  induction middle generalizing front with
  | nil =>
      rw [skipPads, if_neg (by simp)]
      rfl
  | cons b middle ih =>
      have here : byteAt buffer front.length = .ok b := byteAt_eq (by simpa using whole)
      have further := @ih (front ++ [b]) (by simpa using whole)
      rw [List.length_append, List.length_singleton] at further
      rw [skipPads, if_pos (by simp), here, List.length_cons, Nat.add_comm middle.length 1,
        ← Nat.add_assoc]
      by_cases pad : isPad b
      · simp only [pad, if_true, List.takeWhile_cons_of_pos, List.length_cons, further]
        congr 1
        omega
      · simp only [pad, if_false, List.takeWhile_cons_of_neg, not_false_eq_true, Bool.false_eq_true]
        rfl

theorem dropPads_eq (whole : buffer = front ++ middle ++ back) :
    dropPads buffer front.length (front.length + middle.length) =
      .ok (front.length + (middle.reverse.dropWhile isPad).length) := by
  induction middle using List.reverseRecOn generalizing back with
  | nil =>
      rw [dropPads, if_neg (by simp)]
      rfl
  | append_singleton middle b ih =>
      have last : byteAt buffer (front ++ middle).length = .ok b := byteAt_eq (by simpa using whole)
      have further := @ih (b :: back) (by simpa using whole)
      rw [List.length_append] at last
      rw [dropPads, if_pos (by simp), List.length_append, List.length_singleton, ← Nat.add_assoc,
        Nat.add_sub_cancel, last, List.reverse_concat]
      by_cases pad : isPad b
      · simp only [pad, if_true, List.dropWhile_cons_of_pos, further]
      · simp [pad, Nat.add_assoc]

/-! ## Lines one after the other -/

structure Placed (buffer front line back : Bytes) : Prop where
  whole : buffer = front ++ line ++ back
  ended : IsLine line ∨ lf ∉ line ∧ back = []

def lineText (line : Bytes) : Bytes := (splitLast lf line).1

def lineSpan (offset : Nat) (line : Bytes) : Span := ⟨offset, offset + (lineText line).length⟩

theorem lineText_concat_lf (text : Bytes) : lineText (text ++ [lf]) = text := by
  rw [lineText, splitLast_append_singleton]

theorem lineText_of_lf_notMem {line : Bytes} (feedless : lf ∉ line) : lineText line = line :=
  congrArg Prod.fst (splitLast_of_last_ne fun last => feedless (List.mem_of_getLast? last))

theorem stop_lineSpan_of_isLine {line : Bytes} (isLine : IsLine line) (offset : Nat) :
    (lineSpan offset line).stop + 1 = offset + line.length := by
  obtain ⟨text, -, rfl⟩ := isLine
  rw [lineSpan, lineText_concat_lf, List.length_append, List.length_singleton, Nat.add_assoc]

theorem Placed.parts {line : Bytes} (placed : Placed buffer front line back) :
    lf ∉ lineText line ∧ ∃ feed, line = lineText line ++ feed ∧
      (feed = [lf] ∨ feed = [] ∧ back = []) := by
  rcases placed.ended with ⟨text, clean, rfl⟩ | ⟨clean, last⟩
  · rw [lineText_concat_lf]
    exact ⟨clean, [lf], rfl, .inl rfl⟩
  · rw [lineText_of_lf_notMem clean]
    exact ⟨clean, [], (List.append_nil _).symm, .inr ⟨rfl, last⟩⟩

theorem Placed.slice {line : Bytes} (placed : Placed buffer front line back) :
    slice buffer (lineSpan front.length line) = .ok (lineText line) := by
  obtain ⟨-, feed, parts, -⟩ := placed.parts
  have whole : buffer = front ++ lineText line ++ (feed ++ back) := by
    rw [placed.whole]
    nth_rewrite 1 [parts]
    simp
  exact slice_eq whole rfl rfl

theorem Placed.lineEnd {line : Bytes} (placed : Placed buffer front line back) :
    lineEnd buffer front.length = .ok (lineSpan front.length line).stop := by
  obtain ⟨clean, feed, parts, ended⟩ := placed.parts
  have whole : buffer = front ++ (lineText line ++ feed ++ back) ++ [] := by
    rw [← parts, placed.whole]
    simp
  have rest : Scan.slice buffer ⟨front.length, buffer.length⟩ = .ok (lineText line ++ feed ++ back) :=
    slice_eq whole rfl (by simp [whole])
  rw [Scan.lineEnd, rest, Except.map]
  rcases ended with rfl | ⟨rfl, rfl⟩
  · rw [List.append_assoc, List.singleton_append, findIdx?_append_cons clean]
    rfl
  · rw [List.append_nil, List.append_nil, findIdx?_of_notMem clean]
    simp [lineSpan, whole]

theorem Placed.below {line : Bytes} (placed : Placed buffer front line back) :
    min ((lineSpan front.length line).stop + 1) buffer.length = front.length + line.length := by
  obtain ⟨-, feed, parts, ended⟩ := placed.parts
  have length := congrArg List.length parts
  have all := congrArg List.length placed.whole
  simp only [List.length_append] at length all
  rw [lineSpan, all]
  rcases ended with rfl | ⟨rfl, rfl⟩
  · rw [List.length_singleton] at length
    dsimp only
    omega
  · rw [List.length_nil] at length
    rw [List.length_nil]
    dsimp only
    omega

section Loop

variable {α : Type} {limit offset : Nat} {visit : Span → Checked (Option α)}

theorem overLines_of_le (beyond : limit ≤ offset) : overLines buffer limit visit offset = .ok none := by
  rw [overLines, if_neg (Nat.not_lt.2 beyond)]

theorem overLines_eq {line : Bytes} (placed : Placed buffer front line back)
    (inside : front.length < limit) {answer : Option α}
    (visited : visit (lineSpan front.length line) = .ok answer) :
    overLines buffer limit visit front.length =
      answer.elim (overLines buffer limit visit ((lineSpan front.length line).stop + 1))
        fun answer => .ok (some answer) := by
  rw [overLines, if_pos inside]
  split
  · next outside failed => cases failed.symm.trans placed.lineEnd
  · next stop reached =>
    cases placed.lineEnd.symm.trans reached
    have said : visit ⟨front.length, (lineSpan front.length line).stop⟩ = .ok answer := visited
    rw [said]
    cases answer <;> rfl

def firstAnswer (answer : Nat → Bytes → Option α) : Nat → List Bytes → Option α
  | _, [] => none
  | offset, line :: rest => (answer offset line).or (firstAnswer answer (offset + line.length) rest)

theorem firstAnswer_append (answer : Nat → Bytes → Option α) (offset : Nat)
    (before after : List Bytes) :
    firstAnswer answer offset (before ++ after) = (firstAnswer answer offset before).or
      (firstAnswer answer (offset + before.flatten.length) after) := by
  induction before generalizing offset with
  | nil => rfl
  | cons line before ih =>
      rw [List.cons_append, firstAnswer, firstAnswer, ih, Option.or_assoc, List.flatten_cons,
        List.length_append, Nat.add_assoc]

theorem firstAnswer_eq_none {answer : Nat → Bytes → Option α} {lines : List Bytes}
    (passed : ∀ line ∈ lines, ∀ offset, answer offset line = none) (offset : Nat) :
    firstAnswer answer offset lines = none := by
  induction lines generalizing offset with
  | nil => rfl
  | cons line lines ih =>
      rw [List.forall_mem_cons] at passed
      rw [firstAnswer, passed.1, Option.none_or, ih passed.2]

theorem overLines_eq_cons {answer : Nat → Bytes → Option α} {line : Bytes} {taken : List Bytes}
    (placed : Placed buffer front line back) (filled : line ≠ [])
    (visited : visit (lineSpan front.length line) = .ok (answer front.length line))
    (below : overLines buffer (front.length + (line :: taken).flatten.length) visit
        ((lineSpan front.length line).stop + 1) =
      .ok (firstAnswer answer (front.length + line.length) taken)) :
    overLines buffer (front.length + (line :: taken).flatten.length) visit front.length =
      .ok (firstAnswer answer front.length (line :: taken)) := by
  have inside : front.length < front.length + (line :: taken).flatten.length := by
    have wide := List.length_pos_iff.2 filled
    rw [List.flatten_cons, List.length_append]
    omega
  rw [overLines_eq placed inside visited, firstAnswer]
  cases answer front.length line with
  | some answer => rfl
  | none => rw [Option.elim_none, Option.none_or, below]

theorem overLines_eq_firstAnswer {answer : Nat → Bytes → Option α} {rest : Bytes}
    (taken left : List Bytes) (whole : buffer = front ++ rest) (cut : lines rest = taken ++ left)
    (visits : ∀ front line back, Placed buffer front line back →
      visit (lineSpan front.length line) = .ok (answer front.length line)) :
    overLines buffer (front.length + taken.flatten.length) visit front.length =
      .ok (firstAnswer answer front.length taken) := by
  induction rest using induction_on_lines generalizing front taken with
  | last b feedless =>
      cases taken with
      | nil => exact overLines_of_le le_rfl
      | cons line taken =>
          -- Only the last line may lack a line feed, and the loop ends behind it.
          have filled : b ≠ [] := by
            rintro rfl
            cases cut
          rw [lines_of_lf_notMem filled feedless] at cut
          obtain ⟨rfl, none⟩ := List.cons_eq_cons.1 cut
          obtain ⟨rfl, -⟩ := List.append_eq_nil_iff.1 none.symm
          have placed : Placed buffer front b [] :=
            ⟨by rw [whole, List.append_nil], .inr ⟨feedless, rfl⟩⟩
          refine overLines_eq_cons placed filled (visits _ _ _ placed) ?_
          exact overLines_of_le (by simp [lineSpan, lineText_of_lf_notMem feedless])
  | line text rest clean ih =>
      cases taken with
      | nil => exact overLines_of_le le_rfl
      | cons line taken =>
          rw [lines_append_lf clean] at cut
          obtain ⟨rfl, below⟩ := List.cons_eq_cons.1 cut
          have isLine : IsLine (text ++ [lf]) := ⟨text, clean, rfl⟩
          have placed : Placed buffer front (text ++ [lf]) rest := ⟨by rw [whole]; simp, .inl isLine⟩
          refine overLines_eq_cons placed (by simp) (visits _ _ _ placed) ?_
          have further := @ih (front ++ (text ++ [lf])) taken (by rw [whole]; simp) below
          have length : (front ++ (text ++ [lf])).length = front.length + (text ++ [lf]).length :=
            List.length_append
          rw [length] at further
          rw [stop_lineSpan_of_isLine isLine, List.flatten_cons, List.length_append, ← Nat.add_assoc]
          exact further

end Loop

end Scan

/-! ## The body -/

theorem Layout.exists_closing {b : Bytes} (filled : b ≠ []) : ∃ closing below,
    lines b = (ofBytes b).start :: ((ofBytes b).headers ++ (closing ++ below)) ∧
      closing.flatten = (ofBytes b).blank ∧
      (closing = [] ∧ below = [] ∨ ∃ blank, closing = [blank] ∧ content blank = []) := by
  unfold ofBytes
  cases cut : lines b with
  | nil => exact absurd (by rw [← flatten_lines b, cut]; rfl) filled
  | cons start rest =>
      have parts := List.takeWhile_append_dropWhile (p := fun line => content line != []) (l := rest)
      rw [start_ofLines, headers_ofLines]
      rw [ofLines]
      split
      · next stop =>
        rw [stop, List.append_nil] at parts
        exact ⟨[], [], by rw [List.append_nil, List.append_nil, parts], rfl, .inl ⟨rfl, rfl⟩⟩
      · next blank below stop =>
        have empty := List.head?_dropWhile_not (fun line => content line != []) rest
        rw [stop] at empty
        refine ⟨[blank], below, ?_, List.flatten_singleton, .inr ⟨blank, rfl, by simpa using empty⟩⟩
        rw [List.singleton_append, ← stop, parts]

namespace Scan

variable {buffer front line back : Bytes} {name : String}

def bodyBelow (offset : Nat) (line : Bytes) : Option Nat :=
  if offset ≠ 0 ∧ content line = [] then some (offset + line.length) else none

theorem below?_eq (placed : Placed buffer front line back) :
    below? buffer (lineSpan front.length line) = .ok (bodyBelow front.length line) := by
  have said : withoutReturn (lineText line) = content line := rfl
  rw [below?, placed.slice]
  by_cases first : front.length = 0
  · simp [lineSpan, bodyBelow, first]
  · have later : (lineSpan front.length line).start ≠ 0 := first
    rw [if_neg later, Except.map, said, placed.below, bodyBelow]
    simp [first]

theorem bodyStart_eq (buffer : Bytes) :
    let layout := Layout.ofBytes buffer
    bodyStart buffer = .ok (layout.start ++ layout.headers.flatten ++ layout.blank).length := by
  intro layout
  by_cases filled : buffer = []
  · subst filled
    rw [bodyStart, overLines_of_le (by simp)]
    rfl
  · have run := overLines_eq_firstAnswer (lines buffer) [] (List.nil_append buffer).symm
      (List.append_nil _).symm fun _ _ _ => below?_eq
    obtain ⟨closing, below, cut, blank, shape⟩ := Layout.exists_closing filled
    rw [show Layout.ofBytes buffer = layout from rfl] at cut blank
    -- The start line begins at 0 and is passed over even if it is empty; lines below it do not.
    have proper : layout.start.length ≠ 0 := by
      refine fun none => nil_notMem_lines buffer ?_
      rw [cut, ← List.length_eq_zero_iff.1 none]
      exact List.mem_cons_self
    have first : bodyBelow 0 layout.start = none := if_neg fun later => later.1 rfl
    have headers : ∀ line ∈ layout.headers, ∀ offset, bodyBelow offset line = none :=
      fun line member offset => if_neg fun last => Layout.content_of_mem_headers member last.2
    rw [flatten_lines, List.length_nil, Nat.zero_add, cut, firstAnswer, first, Option.none_or,
      firstAnswer_append, firstAnswer_eq_none headers, Option.none_or, Nat.zero_add] at run
    rw [bodyStart, run, ← blank]
    refine congrArg Except.ok ?_
    rcases shape with ⟨rfl, rfl⟩ | ⟨empty, rfl, said⟩
    · have all := congrArg List.flatten cut
      rw [flatten_lines, List.append_nil, List.append_nil, List.flatten_cons] at all
      rw [List.flatten_nil, List.append_nil, ← all, List.append_nil]
      rfl
    · have here : bodyBelow (layout.start.length + layout.headers.flatten.length) empty =
          some (layout.start.length + layout.headers.flatten.length + empty.length) :=
        if_pos ⟨by omega, said⟩
      rw [List.singleton_append, firstAnswer, here, Option.some_or, Option.getD_some,
        List.flatten_singleton, List.length_append, List.length_append]

/-! ## Header values -/

def spanHere (name : String) (offset : Nat) (line : Bytes) : Option (Option Span) :=
  if content line = [] then some none
  else (fieldNamed? name line).map fun field => some (field.span offset)

theorem pads_eq {field : Field} (placed : Placed buffer front line back)
    (read : Field.ofLine? line = some field) :
    skipPads buffer (front.length + field.name.length + 1) (front.length + (content line).length) =
        .ok (field.span front.length).start ∧
      dropPads buffer (field.span front.length).start (front.length + (content line).length) =
        .ok (field.span front.length).stop := by
  obtain ⟨rest, -, said, lead, value, -⟩ := Field.ofLine?_eq_some read
  have padded := List.takeWhile_append_dropWhile (p := isPad) (l := rest)
  have whole : buffer = (front ++ field.name ++ [colon]) ++ rest ++ (Http.lineEnd line ++ back) := by
    rw [placed.whole]
    nth_rewrite 1 [← content_append_lineEnd line]
    simp [said]
  have whole' : buffer = (front ++ field.name ++ [colon] ++ rest.takeWhile isPad) ++
      rest.dropWhile isPad ++ (Http.lineEnd line ++ back) := by
    rw [whole]
    nth_rewrite 1 [← padded]
    simp
  have skipped := skipPads_eq whole
  have dropped := dropPads_eq whole'
  have length := congrArg List.length said
  have width := congrArg List.length padded
  have short := congrArg List.length value
  rw [trimBy, List.length_reverse] at short
  simp only [List.length_append, List.length_cons, List.length_nil] at length width skipped dropped
  rw [Field.span, lead, List.length_cons, short, length]
  dsimp only
  constructor
  · convert skipped using 2 <;> omega
  · convert dropped using 2 <;> omega

theorem value?_eq (placed : Placed buffer front line back) :
    value? buffer name (lineSpan front.length line) = .ok (spanHere name front.length line) := by
  have said : withoutReturn (lineText line) = content line := rfl
  rw [value?, placed.slice, spanHere]
  dsimp only [bind, Except.bind]
  rw [said]
  split
  · rfl
  · cases read : Field.ofLine? line with
    | none =>
        have plain : colon ∉ content line := by
          intro inside
          obtain ⟨before, rest, whole, clean⟩ := List.eq_append_cons_of_mem inside
          obtain ⟨field, found, -⟩ := Field.ofLine?_of_content clean whole
          cases read.symm.trans found
        rw [findIdx?_of_notMem plain, fieldNamed?, read]
        rfl
    | some field =>
        obtain ⟨rest, clean, whole, lead, value, -⟩ := Field.ofLine?_eq_some read
        have split : content line = [] ++ field.name ++ colon :: rest := whole
        have before : slice (content line) ⟨0, field.name.length⟩ = .ok field.name :=
          slice_eq split rfl (Nat.zero_add _).symm
        rw [whole, findIdx?_append_cons clean, ← whole, fieldNamed?, read]
        dsimp only
        obtain ⟨skipped, dropped⟩ := pads_eq placed read
        rw [before]
        dsimp only [lineSpan]
        rw [← Field.isNamed]
        by_cases named : field.isNamed name = true
        · rw [if_pos named, skipped]
          dsimp only
          rw [dropped, Option.filter_some, if_pos named]
          rfl
        · rw [if_neg named, Option.filter_some, if_neg named]
          rfl

theorem join_firstAnswer_closing {closing : List Bytes} (headers : List Bytes) (offset : Nat)
    (shape : closing = [] ∨ ∃ blank, closing = [blank] ∧ content blank = []) :
    (firstAnswer (spanHere name) offset (headers ++ closing)).join =
      (firstAnswer (spanHere name) offset headers).join := by
  rw [firstAnswer_append]
  rcases shape with rfl | ⟨blank, rfl, empty⟩
  · rw [firstAnswer, Option.or_none]
  · rw [firstAnswer, spanHere, if_pos empty]
    cases firstAnswer (spanHere name) offset headers <;> rfl

theorem placed_start (buffer : Bytes) :
    let layout := Layout.ofBytes buffer
    Placed buffer [] layout.start (layout.headers.flatten ++ layout.blank ++ layout.body) := by
  intro layout
  refine ⟨?_, ?_⟩
  · rw [List.nil_append, ← List.append_assoc, ← List.append_assoc]
    exact (Layout.bytes_ofBytes buffer).symm
  · by_cases feed : lf ∈ buffer
    · exact .inl (Layout.exists_lines_of_lf_mem feed).1
    · have alone : layout = ⟨buffer, [], [], []⟩ := Layout.ofBytes_of_lf_notMem feed
      rw [alone]
      exact .inr ⟨feed, rfl⟩

theorem valueSpan?_eq (buffer : Bytes) (name : String) :
    let layout := Layout.ofBytes buffer
    valueSpan? buffer name =
      .ok (firstAnswer (spanHere name) layout.start.length layout.headers).join := by
  intro layout
  have limit : bodyStart buffer =
    .ok (layout.start ++ layout.headers.flatten ++ layout.blank).length := bodyStart_eq buffer
  have first : lineEnd buffer 0 = .ok (lineSpan 0 layout.start).stop := (placed_start buffer).lineEnd
  rw [valueSpan?, limit, first]
  dsimp only [bind, Except.bind]
  by_cases feed : lf ∈ buffer
  · obtain ⟨closing, below, cut, blank, shape⟩ :=
      Layout.exists_closing (List.ne_nil_of_mem feed)
    rw [show Layout.ofBytes buffer = layout from rfl] at cut blank
    have start : IsLine layout.start := (Layout.exists_lines_of_lf_mem feed).1
    have parts := congrArg List.flatten cut
    rw [flatten_lines, List.flatten_cons] at parts
    have rest : lines (layout.headers ++ (closing ++ below)).flatten =
        (layout.headers ++ closing) ++ below := by
      rw [parts, lines_line_append start] at cut
      rw [List.append_assoc]
      exact List.tail_eq_of_cons_eq cut
    have visits : ∀ front line back, Placed buffer front line back →
        value? buffer name (lineSpan front.length line) = .ok (spanHere name front.length line) :=
      fun _ _ _ => value?_eq
    have run := overLines_eq_firstAnswer (layout.headers ++ closing) below parts rest visits
    have length : (layout.start ++ layout.headers.flatten ++ layout.blank).length =
        layout.start.length + (layout.headers ++ closing).flatten.length := by
      rw [← blank]
      simp
    rw [stop_lineSpan_of_isLine start, Nat.zero_add, length, run]
    exact congrArg Except.ok (join_firstAnswer_closing _ _ (shape.imp And.left id))
  · have alone : layout = ⟨buffer, [], [], []⟩ := Layout.ofBytes_of_lf_notMem feed
    rw [alone, overLines_of_le (by simp [lineSpan, lineText_of_lf_notMem feed])]
    rfl

section Found

variable {message : Message}

theorem valueSpan?_of_found {before after : List Bytes} {field : Field}
    (whole : message.layout.headers = before ++ line :: after)
    (others : ∀ other ∈ before, fieldNamed? name other = none)
    (found : fieldNamed? name line = some field) :
    valueSpan? message.bytes name =
      .ok (some (field.span (message.layout.start ++ before.flatten).length)) := by
  have filled : ∀ other ∈ message.layout.headers, content other ≠ [] :=
    fun other member => Layout.content_of_mem_headers member
  have passed : ∀ other ∈ before, ∀ offset, spanHere name offset other = none := by
    intro other member offset
    rw [spanHere, if_neg (filled other (by simp [whole, member])), others other member]
    rfl
  have here (offset : Nat) : spanHere name offset line = some (some (field.span offset)) := by
    rw [spanHere, if_neg (filled line (by simp [whole])), found]
    rfl
  have run := valueSpan?_eq message.bytes name
  rw [← Message.layout] at run
  rw [run, whole, firstAnswer_append, firstAnswer_eq_none passed, Option.none_or, firstAnswer, here,
    List.length_append]
  rfl

theorem valueSpan?_of_absent (absent : message.header? name = none) :
    valueSpan? message.bytes name = .ok none := by
  rw [Message.header?_eq, valueIn?, List.findSome?_eq_none_iff] at absent
  have passed : ∀ line ∈ message.layout.headers, ∀ offset, spanHere name offset line = none := by
    intro line member offset
    rw [spanHere, if_neg (Layout.content_of_mem_headers member),
      Option.map_eq_none_iff.1 (absent line member)]
    rfl
  have run := valueSpan?_eq message.bytes name
  rw [← Message.layout] at run
  rw [run, firstAnswer_eq_none passed]
  rfl

end Found

end Scan

end CredentialRelay.Http

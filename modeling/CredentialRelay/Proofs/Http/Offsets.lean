import Mathlib
import CredentialRelay.Proofs.Http.Scanning

namespace CredentialRelay.Http
open Bytes

/-- The span lies in the line that begins at `line`, behind the colon at `mark`, the first one of that
line. -/
structure Span.OnLine (span : Span) (buffer : Bytes) (line mark : Nat) : Prop where
  begins : 0 < line ∧ buffer[line - 1]? = some lf
  feedless : ∀ i, line ≤ i → i < span.stop → buffer[i]? ≠ some lf
  inside : line ≤ mark ∧ mark < span.start
  marked : buffer[mark]? = some colon
  first : ∀ i, line ≤ i → i < mark → buffer[i]? ≠ some colon

def Span.Trimmed (span : Span) (buffer : Bytes) : Prop :=
  span.start = span.stop ∨
    (∃ b, buffer[span.start]? = some b ∧ b ≠ space ∧ b ≠ tab) ∧
      ∃ b, buffer[span.stop - 1]? = some b ∧ b ≠ space ∧ b ≠ tab

structure Span.Sound (span : Span) (buffer : Bytes) (bodyStart : Nat) : Prop where
  ordered : span.start ≤ span.stop
  aboveBody : span.stop ≤ bodyStart
  belowStart : buffer.idxOf lf < span.start
  onLine : ∃ line mark, span.OnLine buffer line mark
  trimmed : span.Trimmed buffer

theorem ne_blank_of_isPad {b : UInt8} (plain : isPad b = false) : b ≠ space ∧ b ≠ tab := by
  rw [isPad, Bool.or_eq_false_iff, beq_eq_false_iff_ne, beq_eq_false_iff_ne] at plain
  exact plain

theorem getLast?_append_lines {start : Bytes} {lines : List Bytes} (first : IsLine start)
    (others : ∀ line ∈ lines, IsLine line) : (start ++ lines.flatten).getLast? = some lf := by
  rcases List.eq_nil_or_concat' lines with rfl | ⟨before, last, rfl⟩
  · rw [List.flatten_nil, List.append_nil, first.getLast?]
  · rw [List.flatten_concat, ← List.append_assoc, List.getLast?_append,
      (others last (by simp)).getLast?, Option.some_or]

theorem getElem?_middle {front middle back : Bytes} {i : Nat} (low : front.length ≤ i)
    (high : i < front.length + middle.length) :
    (front ++ middle ++ back)[i]? = middle[i - front.length]? := by
  rw [List.getElem?_append_left (by simpa using high), List.getElem?_append_right low]

namespace Field

variable {buffer front back : Bytes} {field : Field}

theorem start_span (front : Bytes) (field : Field) :
    (field.span front.length).start = (front ++ field.name ++ field.lead).length := by
  simp [span, Nat.add_assoc]

theorem stop_span (front : Bytes) (field : Field) : (field.span front.length).stop =
    (front ++ field.name ++ field.lead).length + field.value.length := by
  simp [span, Nat.add_assoc]

theorem whole_around_value (parts : buffer = front ++ field.bytes ++ back) :
    buffer = (front ++ field.name ++ field.lead) ++ field.value ++ (field.trail ++ back) := by
  rw [parts, bytes]
  simp

theorem onLine_span (whole : field.Whole) (parts : buffer = front ++ field.bytes ++ back)
    (begins : front.getLast? = some lf) :
    (field.span front.length).OnLine buffer front.length (front.length + field.name.length) := by
  obtain ⟨pads, blank, lead⟩ := whole.lead
  have named : buffer = front ++ field.name ++ (field.lead ++ field.value ++ field.trail ++ back) := by
    rw [parts, bytes]
    simp
  have lined : buffer =
      front ++ (field.name ++ field.lead ++ field.value) ++ (field.trail ++ back) := by
    rw [parts, bytes]
    simp
  have feedless : lf ∉ field.name ++ field.lead ++ field.value := by
    rw [lead]
    simp only [List.mem_append, List.mem_cons, not_or]
    exact ⟨⟨whole.name.2, by decide, lf_notMem_pads blank⟩, whole.value⟩
  have filled : 0 < front.length := List.length_pos_of_mem (List.mem_of_getLast? begins)
  refine ⟨⟨filled, ?_⟩, ?_, ?_, ?_, ?_⟩
  · rw [parts, List.append_assoc, List.getElem?_append_left (Nat.sub_lt filled Nat.one_pos),
      ← List.getLast?_eq_getElem?, begins]
  · intro i low high same
    rw [lined, getElem?_middle low (by simpa [span, Nat.add_assoc] using high)] at same
    exact feedless (List.mem_of_getElem? same)
  · simp [span, lead]
  · rw [named, ← List.length_append, List.getElem?_append_right le_rfl, Nat.sub_self, lead]
    rfl
  · intro i low high same
    rw [named, getElem?_middle low high] at same
    exact whole.name.1 (List.mem_of_getElem? same)

theorem trimmed_span {line : Bytes} (read : ofLine? line = some field)
    (parts : buffer = front ++ field.bytes ++ back) : (field.span front.length).Trimmed buffer := by
  obtain ⟨rest, -, -, -, value, -⟩ := ofLine?_eq_some read
  have valued := whole_around_value parts
  have start := start_span front field
  have stop := stop_span front field
  by_cases empty : field.value = []
  · rw [empty, List.length_nil] at stop
    exact .inl (start.trans stop.symm)
  · have wide := List.length_pos_iff.2 empty
    have head : (trimBy isPad rest).head? = some (field.value.head empty) :=
      value ▸ List.head?_eq_some_head empty
    have last : (trimBy isPad rest).getLast? = some (field.value.getLast empty) :=
      value ▸ List.getLast?_eq_some_getLast empty
    refine .inr ⟨⟨_, ?_, ne_blank_of_isPad (head?_trimBy head)⟩,
      _, ?_, ne_blank_of_isPad (getLast?_trimBy last)⟩
    · rw [valued, start, getElem?_middle le_rfl (by omega), Nat.sub_self, ← List.head?_eq_getElem?,
        List.head?_eq_some_head empty]
    · have behind : (field.span front.length).stop - 1 -
          (front ++ field.name ++ field.lead).length = field.value.length - 1 := by
        omega
      rw [valued, getElem?_middle (by omega) (by omega), behind, ← List.getLast?_eq_getElem?,
        List.getLast?_eq_some_getLast empty]

theorem sound_span {line : Bytes} {bodyStart : Nat} (read : ofLine? line = some field)
    (whole : field.Whole) (parts : buffer = front ++ line ++ back)
    (begins : front.getLast? = some lf) (above : (front ++ line).length ≤ bodyStart) :
    (field.span front.length).Sound buffer bodyStart := by
  rw [← bytes_of_ofLine? read] at parts above
  refine ⟨Nat.le_add_right _ _, ?_, ?_, ⟨_, _, onLine_span whole parts begins⟩,
    trimmed_span read parts⟩
  · simp only [span, bytes, List.length_append] at above ⊢
    omega
  · have feed : lf ∈ front := List.mem_of_getLast? begins
    have inside := List.idxOf_lt_length_of_mem feed
    rw [parts, List.append_assoc, List.idxOf_append_of_mem feed, span]
    dsimp only
    omega

end Field

namespace Message

variable {message : Message} {name : String} {before after : List Bytes} {line : Bytes} {field : Field}

def upToBody (message : Message) : Bytes :=
  message.layout.start ++ message.layout.headers.flatten ++ message.layout.blank

theorem bytes_eq (message : Message) : message.bytes = message.upToBody ++ message.body :=
  (Layout.bytes_ofBytes message.bytes).symm

theorem getLast?_front (whole : message.layout.headers = before ++ line :: after) :
    (message.layout.start ++ before.flatten).getLast? = some lf := by
  have filled : message.layout.headers ≠ [] := by simp [whole]
  obtain ⟨rest, cut, -⟩ := Layout.exists_rest filled
  have cut : lines message.bytes = message.layout.start :: (message.layout.headers ++ rest) := cut
  refine getLast?_append_lines (Layout.isLine_start filled) fun other member => ?_
  obtain ⟨first, second, parts⟩ := List.append_of_mem member
  have located : lines message.bytes =
      (message.layout.start :: first) ++ other :: (second ++ line :: after ++ rest) := by
    simpa [whole, parts] using cut
  exact isLine_of_lines _ located (.inl (by simp))

theorem upToBody_of_found (whole : message.layout.headers = before ++ line :: after) :
    message.upToBody = message.layout.start ++ before.flatten ++ line ++
      (after.flatten ++ message.layout.blank) := by
  rw [upToBody, whole]
  simp

theorem bytes_of_found (whole : message.layout.headers = before ++ line :: after) :
    message.bytes = message.layout.start ++ before.flatten ++ line ++
      (after.flatten ++ message.layout.blank ++ message.body) := by
  rw [bytes_eq, upToBody_of_found whole]
  simp

end Message

namespace Scan

variable {message : Message} {name : String} {before after : List Bytes} {line : Bytes} {field : Field}

theorem bodyStart_bytes (message : Message) : bodyStart message.bytes = .ok message.upToBody.length :=
  bodyStart_eq message.bytes

theorem placed_startLine (message : Message) : Placed message.bytes [] message.layout.start
    (message.layout.headers.flatten ++ message.layout.blank ++ message.body) :=
  placed_start message.bytes

theorem body_bytes (message : Message) : body message.bytes = .ok message.body := by
  have whole : message.bytes = message.upToBody ++ message.body ++ [] := by
    rw [List.append_nil]
    exact message.bytes_eq
  rw [body, bodyStart_bytes]
  exact slice_eq whole rfl (by simp [message.bytes_eq])

theorem setBody_bytes (message : Message) (body : Bytes) :
    setBody message.bytes body = .ok (message.setBody body).bytes := by
  have whole : message.bytes = message.upToBody ++ message.body ++ [] := by
    rw [List.append_nil]
    exact message.bytes_eq
  have edited : splice message.bytes ⟨message.upToBody.length, message.bytes.length⟩ body =
      .ok (message.upToBody ++ body ++ []) :=
    splice_eq whole rfl (by simp [message.bytes_eq]) body
  rw [List.append_nil] at edited
  rw [setBody, bodyStart_bytes]
  exact edited

theorem startLine_bytes (message : Message) : startLine message.bytes = .ok message.startLine := by
  have placed := placed_startLine message
  have first : lineEnd message.bytes 0 = .ok (lineSpan 0 message.layout.start).stop := placed.lineEnd
  have line : slice message.bytes ⟨0, (lineSpan 0 message.layout.start).stop⟩ =
      .ok (lineText message.layout.start) := placed.slice
  rw [startLine, first]
  dsimp only [bind, Except.bind]
  rw [line]
  rfl

theorem slice_span {buffer front back : Bytes} (parts : buffer = front ++ field.bytes ++ back) :
    slice buffer (field.span front.length) = .ok field.value :=
  slice_eq (Field.whole_around_value parts) (field.start_span front) (field.stop_span front)

theorem splice_span {buffer front back : Bytes} (parts : buffer = front ++ field.bytes ++ back)
    (value : Bytes) :
    splice buffer (field.span front.length) value =
      .ok (front ++ { field with value }.bytes ++ back) := by
  rw [splice_eq (Field.whole_around_value parts) (field.start_span front) (field.stop_span front)]
  simp [Field.bytes]

theorem header?_bytes (message : Message) (name : String) :
    header? message.bytes name = .ok (message.header? name) := by
  by_cases present : message.header? name = none
  · rw [header?, valueSpan?_of_absent present, present]
    rfl
  · obtain ⟨before, line, after, field, whole, others, found⟩ := Message.exists_found present
    have parts := Message.bytes_of_found whole
    rw [← Field.bytes_of_ofLine? (fieldNamed?_eq_some.1 found).1] at parts
    have value : message.header? name = some field.value := by
      rw [Message.header?_eq, whole, valueIn?_append others, valueIn?, List.findSome?_cons, found]
      rfl
    rw [header?, valueSpan?_of_found whole others found, value]
    dsimp only [bind, Except.bind]
    rw [slice_span parts]
    rfl

theorem setHeader_of_found {value : Bytes} (whole : message.layout.headers = before ++ line :: after)
    (others : ∀ other ∈ before, fieldNamed? name other = none)
    (found : fieldNamed? name line = some field) :
    setHeader message.bytes name value = .ok (message.setHeader name value).bytes := by
  have parts := Message.bytes_of_found whole
  rw [← Field.bytes_of_ofLine? (fieldNamed?_eq_some.1 found).1] at parts
  rw [setHeader, valueSpan?_of_found whole others found]
  dsimp only [bind, Except.bind]
  rw [splice_span parts, Message.setHeader_of_found whole others found, Message.ofLayout, Layout.bytes]
  simp [Message.body]

section Insertion

variable {buffer line back : Bytes}

theorem newLine_eq (placed : Placed buffer [] line back) :
    (if 0 < (lineSpan 0 line).stop ∧ buffer[(lineSpan 0 line).stop - 1]? = some cr then [cr, lf]
      else [lf]) = Message.newLineEnd line := by
  obtain ⟨-, feed, parts, -⟩ := placed.parts
  have whole : buffer = lineText line ++ (feed ++ back) := by
    rw [← List.append_assoc, ← parts, placed.whole, List.nil_append]
  have length : (lineSpan 0 line).stop = (lineText line).length := Nat.zero_add _
  refine if_congr ?_ rfl rfl
  rw [length, ← lineText]
  by_cases filled : lineText line = []
  · simp [filled]
  · have wide := List.length_pos_iff.2 filled
    rw [whole, List.getElem?_append_left (by omega), ← List.getLast?_eq_getElem?]
    exact and_iff_right wide

theorem opening_iff (placed : Placed buffer [] line back) :
    (line.length = buffer.length ∧ buffer.getLast? ≠ some lf) ↔ line.getLast? ≠ some lf := by
  have whole : buffer = line ++ back := placed.whole
  rcases placed.ended with isLine | ⟨-, rfl⟩
  · refine ⟨fun ⟨length, last⟩ => ?_, fun last => absurd isLine.getLast? last⟩
    rw [whole, List.length_append, Nat.left_eq_add, List.length_eq_zero_iff] at length
    rwa [whole, length, List.append_nil] at last
  · rw [List.append_nil] at whole
    rw [whole]
    exact and_iff_right rfl

end Insertion

theorem setHeader_of_absent {value : Bytes} (absent : message.header? name = none) :
    setHeader message.bytes name value = .ok (message.setHeader name value).bytes := by
  have placed := placed_startLine message
  have first : lineEnd message.bytes 0 = .ok (lineSpan 0 message.layout.start).stop := placed.lineEnd
  have place := placed.below
  simp only [List.length_nil, Nat.zero_add] at place
  have whole := placed.whole
  rw [List.nil_append, ← List.append_nil message.layout.start] at whole
  rw [setHeader, valueSpan?_of_absent absent, first]
  dsimp only [bind, Except.bind]
  rw [newLine_eq placed, place, if_congr (opening_iff placed) rfl rfl]
  rw [splice_eq whole rfl rfl, Message.setHeader_of_absent value absent, Message.insertHeader_eq,
    Message.ofLayout, Layout.bytes]
  refine congrArg Except.ok ?_
  by_cases closed : message.layout.start.getLast? = some lf
  · rw [if_neg (not_not_intro closed), if_pos closed]
    simp [Message.newField, Field.bytes, Message.body]
  · rw [if_pos closed, if_neg closed]
    simp [Message.newField, Field.bytes, Message.body]

theorem setHeader_bytes (message : Message) (name : String) (value : Bytes) :
    setHeader message.bytes name value = .ok (message.setHeader name value).bytes := by
  by_cases present : message.header? name = none
  · exact setHeader_of_absent present
  · obtain ⟨before, line, after, field, whole, others, found⟩ := Message.exists_found present
    exact setHeader_of_found whole others found

theorem sound_of_found (whole : message.layout.headers = before ++ line :: after)
    (found : fieldNamed? name line = some field) :
    (field.span (message.layout.start ++ before.flatten).length).Sound message.bytes
      message.upToBody.length := by
  have inside : line ∈ message.layout.headers := by simp [whole]
  have read := (fieldNamed?_eq_some.1 found).1
  refine Field.sound_span read (Field.whole_of_ofLine? (Layout.mem_lines_of_mem_headers inside) read)
    (Message.bytes_of_found whole) (Message.getLast?_front whole) ?_
  rw [Message.upToBody_of_found whole]
  exact (List.prefix_append _ _).length_le

/-- Nothing that is scanned or edited by offsets lies outside the buffer: the body begins within it, each
value that is found is a sound span above the body, and every reading and every edit comes to its end
with what the layout of the message gives. -/
theorem offsets_stay_inside (message : Message) (name : String) :
    ∃ start, bodyStart message.bytes = .ok start ∧ start ≤ message.bytes.length ∧
      (∃ found, valueSpan? message.bytes name = .ok found ∧
        ∀ span ∈ found, span.Sound message.bytes start) ∧
      startLine message.bytes = .ok message.startLine ∧ body message.bytes = .ok message.body ∧
      header? message.bytes name = .ok (message.header? name) ∧
      (∀ value, setHeader message.bytes name value = .ok (message.setHeader name value).bytes) ∧
      ∀ body, setBody message.bytes body = .ok (message.setBody body).bytes := by
  refine ⟨message.upToBody.length, bodyStart_bytes message, ?_, ?_, startLine_bytes message,
    body_bytes message, header?_bytes message name, setHeader_bytes message name,
    setBody_bytes message⟩
  · rw [message.bytes_eq, List.length_append]
    exact Nat.le_add_right _ _
  · by_cases present : message.header? name = none
    · exact ⟨none, valueSpan?_of_absent present, fun _ none => nomatch none⟩
    · obtain ⟨before, line, after, field, whole, others, found⟩ := Message.exists_found present
      refine ⟨_, valueSpan?_of_found whole others found, fun span same => ?_⟩
      cases same
      exact sound_of_found whole found

end Scan

/-- Start line, body and headers are what the lines say, read off the layout or by offsets: a header has
the value in the first header line of its name, and there is none if no header line has the name. The
body is never looked at. -/
theorem Message.read_as_outlined (message : Message) :
    let outline := Outline.ofBytes message.bytes
    (message.startLine = outline.startLine ∧
      Scan.startLine message.bytes = .ok outline.startLine) ∧
    (message.body = outline.body ∧ Scan.body message.bytes = .ok outline.body) ∧
    (∀ name, Scan.header? message.bytes name = .ok (message.header? name) ∧
      (∀ value, message.header? name = some value ↔ outline.FirstGives name value) ∧
      (message.header? name = none ↔
        ∀ line ∈ outline.headerLines, ∀ value, ¬Gives name line value)) ∧
    ∃ front, message.bytes = front ++ message.body ∧
      Scan.bodyStart message.bytes = .ok front.length ∧
      ∀ name, (Message.mk front).header? name = message.header? name ∧
        Scan.header? front name = Scan.header? message.bytes name := by
  intro outline
  have same : outline = _ := Outline.ofBytes_eq message.bytes
  have start : message.startLine = outline.startLine := by
    rw [same]
    rfl
  have body : message.body = outline.body := by
    rw [same]
    rfl
  obtain ⟨front, parts, headers⟩ := message.exists_front
  have upTo : message.upToBody = front :=
    List.append_cancel_right (message.bytes_eq.symm.trans parts)
  refine ⟨⟨start, start ▸ Scan.startLine_bytes message⟩, ⟨body, body ▸ Scan.body_bytes message⟩,
    fun name => ⟨Scan.header?_bytes message name, fun value => header?_eq_some_iff,
      header?_eq_none_iff⟩, front, parts, upTo ▸ Scan.bodyStart_bytes message, fun name => ?_⟩
  have scanned : Scan.header? front name = .ok ((Message.mk front).header? name) :=
    Scan.header?_bytes ⟨front⟩ name
  exact ⟨headers name, by rw [scanned, headers name, Scan.header?_bytes]⟩

end CredentialRelay.Http

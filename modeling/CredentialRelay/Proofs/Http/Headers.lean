import Mathlib
import CredentialRelay.Proofs.Http.Values

namespace CredentialRelay.Http
open Bytes

namespace Message

variable {message : Message} {name : String} {value : Bytes}

/-- A header is read back as it was set, without the blanks around it. The other headers and the body
are as they were. -/
theorem header_set_alone (message : Message) {name : String} (proper : Proper name) {value : Bytes}
    (feedless : lf ∉ value) (returnless : cr ∉ value) :
    (message.setHeader name value).header? name = some (trimBy isPad value) ∧
      (∀ other, Apart name other →
        (message.setHeader name value).header? other = message.header? other) ∧
      (message.setHeader name value).body = message.body := by
  have last : value.getLast? ≠ some cr := fun last => returnless (List.mem_of_getLast? last)
  refine ⟨header?_setHeader proper feedless last, fun other apart => ?_,
    body_setHeader proper feedless⟩
  exact header?_setHeader_of_apart apart feedless (.inr proper)

theorem lookalikes_left_alone :
    let message : Message := ⟨ofText "GET /\r\nHosts: a\nHost :\tb\r\nhost: c\r\n\r\nHost: d"⟩
    let edited := message.setHeader "HOST" (ofText " e ")
    edited.header? "HOST" = some (ofText "e") ∧ edited.header? "Hosts" = some (ofText "a") ∧
      edited.body = ofText "Host: d" := by
  intro message edited
  have proper : Proper "HOST" := ⟨by decide, by decide, by decide⟩
  have feedless : lf ∉ ofText " e " := by decide
  have returnless : cr ∉ ofText " e " := by decide
  obtain ⟨read, others, body⟩ := header_set_alone message proper feedless returnless
  exact ⟨read.trans (by decide), (others "Hosts" (by decide)).trans (by decide),
    body.trans (by decide)⟩

theorem setHeader_of_header? (read : message.header? name = some value) :
    message.setHeader name value = message := by
  have present : message.header? name ≠ none := read.trans_ne (Option.some_ne_none value)
  obtain ⟨before, line, after, field, whole, others, found⟩ := exists_found present
  have own : field.value = value := by
    rw [header?_eq, whole, valueIn?_append others, valueIn?, List.findSome?_cons, found] at read
    exact Option.some.inj read
  have same : { field with value }.bytes = line := by
    rw [← own]
    exact Field.bytes_of_ofLine? (fieldNamed?_eq_some.1 found).1
  rw [setHeader_of_found whole others found, same, ← whole]
  exact congrArg Message.mk (Layout.bytes_ofBytes message.bytes)

theorem setHeader_setHeader {first : Bytes} (present : message.header? name ≠ none)
    (filled : first ≠ []) (trimmed : trimBy isPad first = first) (feedless : lf ∉ first)
    (last : first.getLast? ≠ some cr) (second : Bytes) :
    (message.setHeader name first).setHeader name second = message.setHeader name second := by
  obtain ⟨before, line, after, field, whole, others, found, edited⟩ :=
    layout_setHeader feedless present
  obtain ⟨read, named⟩ := fieldNamed?_eq_some.1 found
  have inside : line ∈ message.layout.headers := by simp [whole]
  have parts : ({ field with value := first } : Field).Whole :=
    (Field.whole_of_ofLine? (Layout.mem_lines_of_mem_headers inside) read).withValue feedless
  have found' : fieldNamed? name ({ field with value := first } : Field).bytes =
      some { field with value := first } :=
    fieldNamed?_eq_some.2 ⟨parts.ofLine?_bytes_of_trimmed filled trimmed last, named⟩
  rw [setHeader_of_found whole others found second,
    setHeader_of_found (congrArg Layout.headers edited) others found' second, edited]

theorem setHeader_setHeader_of_absent {first : Bytes} (proper : Proper name)
    (absent : message.header? name = none) (filled : first ≠ [])
    (trimmed : trimBy isPad first = first) (feedless : lf ∉ first)
    (last : first.getLast? ≠ some cr) (second : Bytes) :
    (message.setHeader name first).setHeader name second = message.setHeader name second := by
  have edited : (message.setHeader name first).layout = insertHeader name first message.layout :=
    layout_setHeader_absent proper feedless absent
  have parts := whole_newField proper feedless message.layout.start
  have found : fieldNamed? name (newField name first message.layout.start).bytes =
      some (newField name first message.layout.start) :=
    fieldNamed?_eq_some.2
      ⟨parts.ofLine?_bytes_of_trimmed filled trimmed last, isNamed_newField proper _ _⟩
  have whole : (message.setHeader name first).layout.headers =
      [] ++ (newField name first message.layout.start).bytes :: message.layout.headers :=
    congrArg Layout.headers edited
  rw [setHeader_of_found whole (List.forall_mem_nil _) found, edited,
    setHeader_of_absent second absent]
  rfl

/-- A header that is set to the value it has stays as it is, and so does all else. Of two values that
are set one after the other, the first leaves no trace. -/
theorem header_rewritten (message : Message) {name : String} (proper : Proper name) :
    (∀ value, message.header? name = some value →
      (message.setHeader name value).bytes = message.bytes) ∧
      ∀ first, first ≠ [] → lf ∉ first → cr ∉ first → trimBy isPad first = first →
        ∀ second, ((message.setHeader name first).setHeader name second).bytes =
          (message.setHeader name second).bytes := by
  refine ⟨fun value read => congrArg Message.bytes (setHeader_of_header? read), ?_⟩
  intro first filled feedless returnless trimmed second
  have last : first.getLast? ≠ some cr := fun last => returnless (List.mem_of_getLast? last)
  by_cases absent : message.header? name = none
  · rw [setHeader_setHeader_of_absent proper absent filled trimmed feedless last]
  · rw [setHeader_setHeader absent filled trimmed feedless last]

theorem padded_header_rewritten :
    let message : Message := ⟨ofText "GET /\nhost:\t a \n\nHost: d"⟩
    let torn : Message := ⟨ofText "GET /\r"⟩
    (message.setHeader "Host" (ofText "a")).bytes = message.bytes ∧
      ((message.setHeader "Host" (ofText "b c")).setHeader "Host" (ofText " e")).bytes =
        ofText "GET /\nhost:\t  e \n\nHost: d" ∧
      ((torn.setHeader "Host" (ofText "b c")).setHeader "Host" (ofText " e")).bytes =
        ofText "GET /\r\r\nHost:  e\r\n" := by
  intro message torn
  have proper : Proper "Host" := ⟨by decide, by decide, by decide⟩
  obtain ⟨same, twice⟩ := header_rewritten message proper
  obtain ⟨-, twice'⟩ := header_rewritten torn proper
  refine ⟨same (ofText "a") (by decide), ?_, ?_⟩
  · exact (twice (ofText "b c") (by decide) (by decide) (by decide) (by decide) _).trans (by decide)
  · exact (twice' (ofText "b c") (by decide) (by decide) (by decide) (by decide) _).trans (by decide)

/-- An empty value is found again behind all blanks, so the next value gets the blanks behind it too. -/
example : let message : Message := ⟨ofText "GET /\nHost: a \n\n"⟩
    (message.setHeader "Host" []).setHeader "Host" (ofText "b") ≠
      message.setHeader "Host" (ofText "b") := by
  decide

/-- The message ends between the carriage return and the line feed of its start line. -/
def Torn (message : Message) : Prop := lf ∉ message.bytes ∧ message.bytes.getLast? = some cr

instance (message : Message) : Decidable message.Torn := inferInstanceAs (Decidable (_ ∧ _))

theorem lf_mem_of_present (present : message.header? name ≠ none) : lf ∈ message.bytes := by
  by_contra feedless
  apply present
  rw [header?_eq, layout, Layout.ofBytes_of_lf_notMem feedless]
  rfl

theorem lf_mem_of_ended (ended : message.layout.Ended) : lf ∈ message.bytes := by
  obtain ⟨text, -, start⟩ := ended.start
  rw [← Layout.bytes_ofBytes message.bytes, ← layout, Layout.bytes, start]
  simp

theorem start_setHeader_eq (message : Message) (name : String) (value : Bytes) :
    (message.setHeader name value).layout.start =
      if lf ∈ message.bytes then message.layout.start
      else message.bytes ++ newLineEnd message.bytes := by
  by_cases absent : message.header? name = none
  · rw [setHeader_of_absent value absent, insertHeader_eq, layout, ofLayout, Layout.bytes,
      List.append_assoc, List.append_assoc]
    by_cases feed : lf ∈ message.bytes
    · have isLine : IsLine message.layout.start := (Layout.exists_lines_of_lf_mem feed).1
      simp only [feed, isLine.getLast?, if_true]
      exact Layout.start_ofBytes_append isLine _
    · have alone : message.layout = ⟨message.bytes, [], [], []⟩ := Layout.ofBytes_of_lf_notMem feed
      have opened : message.bytes.getLast? ≠ some lf := fun last => feed (List.mem_of_getLast? last)
      simp only [feed, alone, opened, if_false]
      exact Layout.start_ofBytes_append (isLine_newLineEnd feed) _
  · rw [if_pos (lf_mem_of_present absent), start_setHeader value absent]

theorem content_newLineEnd {start : Bytes} (feedless : lf ∉ start) :
    content (start ++ newLineEnd start) =
      if start.getLast? = some cr then content start ++ [cr] else content start := by
  have opened : start.getLast? ≠ some lf := fun last => feedless (List.mem_of_getLast? last)
  have whole : content start = (splitLast cr start).1 := by
    rw [content, splitLast_of_last_ne opened]
  rw [whole, newLineEnd, splitLast_of_last_ne opened]
  by_cases last : start.getLast? = some cr
  · obtain ⟨text, rfl⟩ := List.getLast?_eq_some_iff.1 last
    have both : text ++ [cr] ++ [cr, lf] = text ++ [cr] ++ [cr] ++ [lf] := by simp
    simp only [last, if_true]
    rw [both, content_isLine, splitLast_append_singleton, splitLast_append_singleton]
  · simp only [last, if_false]
    exact content_isLine start

theorem startLine_setHeader (message : Message) (name : String) (value : Bytes) :
    (message.setHeader name value).startLine =
      message.startLine ++ if message.Torn then [cr] else [] := by
  rw [startLine, startLine, start_setHeader_eq]
  by_cases feed : lf ∈ message.bytes
  · simp [Torn, feed]
  · rw [if_neg feed, content_newLineEnd feed, layout, Layout.ofBytes_of_lf_notMem feed]
    by_cases last : message.bytes.getLast? = some cr <;> simp [Torn, feed, last]

theorem isResponse_setHeader (message : Message) (name : String) (value : Bytes) :
    (message.setHeader name value).isResponse = message.isResponse := by
  rw [isResponse, isResponse, startLine_setHeader, Bool.eq_iff_iff, List.isPrefixOf_iff_prefix,
    List.isPrefixOf_iff_prefix]
  split
  · constructor
    · intro begins
      rcases List.prefix_concat_iff.1 begins with whole | begins
      · have last := congrArg List.getLast? whole
        rw [List.getLast?_concat] at last
        exact absurd last (by decide)
      · exact begins
    · exact fun begins => begins.trans (List.prefix_append _ _)
  · rw [List.append_nil]

theorem said_of_startLine {message' : Message} (same : message'.startLine = message.startLine) :
    message'.method? = message.method? ∧ message'.path? = message.path? ∧
      message'.status? = message.status? := by
  have response : message'.isResponse = message.isResponse := by rw [isResponse, isResponse, same]
  have words : message'.words = message.words := by rw [Message.words, Message.words, same]
  refine ⟨?_, ?_, ?_⟩
  · rw [method?, method?, response, words]
  · rw [path?, path?, response, words]
  · rw [status?, status?, response, words]

/-- Whatever header is set, the start line and all that it says are as they were, if and only if the
message does not end within the start line's end. If it does, a carriage return is added to the line. -/
theorem start_line_kept_iff (message : Message) (name : String) (value : Bytes) :
    let edited := message.setHeader name value
    (edited.startLine = message.startLine ∧ edited.method? = message.method? ∧
        edited.path? = message.path? ∧ edited.status? = message.status? ↔ ¬message.Torn) ∧
      edited.startLine = message.startLine ++ (if message.Torn then [cr] else []) ∧
      edited.isResponse = message.isResponse := by
  intro edited
  have line : edited.startLine = message.startLine ++ if message.Torn then [cr] else [] :=
    startLine_setHeader message name value
  refine ⟨⟨fun kept torn => ?_, fun whole => ?_⟩, line, isResponse_setHeader message name value⟩
  · simp [line, torn] at kept
  · rw [if_neg whole, List.append_nil] at line
    exact ⟨line, said_of_startLine line⟩

theorem torn_start_line_gets_return :
    let message : Message := ⟨ofText "GET /a\r"⟩
    let edited := message.setHeader "X-Trace" (ofText "1")
    message.startLine = ofText "GET /a" ∧ edited.startLine = ofText "GET /a\r" ∧
      message.path? = some (ofText "/a") ∧ edited.path? = some (ofText "/a\r") := by
  decide

end Message

end CredentialRelay.Http

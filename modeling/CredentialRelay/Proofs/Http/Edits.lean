import Mathlib
import CredentialRelay.Http.Message
import CredentialRelay.Proofs.Bytes.Utf8
import CredentialRelay.Proofs.Http.Fields

namespace CredentialRelay.Http
open Bytes

/-- Two names that no header line has both. -/
def Apart (name other : String) : Prop := sameName (ofText name) (ofText other) = false

instance (name other : String) : Decidable (Apart name other) :=
  inferInstanceAs (Decidable (_ = false))

theorem Apart.symm {name other : String} (h : Apart name other) : Apart other name := by
  rw [Apart, sameName, beq_eq_false_iff_ne] at *
  exact h.symm

structure Proper (name : String) : Prop where
  colon : colon ∉ ofText name
  lf : lf ∉ ofText name
  trimmed : trimBy isAsciiBlank (ofText name) = ofText name

def fieldNamed? (name : String) (line : Bytes) : Option Field :=
  (Field.ofLine? line).filter (·.isNamed name)

theorem fieldNamed?_eq_some {name : String} {line : Bytes} {field : Field} :
    fieldNamed? name line = some field ↔
      Field.ofLine? line = some field ∧ field.isNamed name = true := by
  rw [fieldNamed?, Option.filter_eq_some_iff]

theorem fieldNamed?_of_apart {name other : String} {line : Bytes} {field : Field}
    (apart : Apart name other) (h : fieldNamed? name line = some field) :
    fieldNamed? other line = none := by
  obtain ⟨read, named⟩ := fieldNamed?_eq_some.1 h
  simp only [Apart, Field.isNamed, sameName, beq_iff_eq, beq_eq_false_iff_ne] at apart named
  simp [fieldNamed?, read, Option.filter, Field.isNamed, sameName, named, apart]

theorem Field.ends_withValue {b line value : Bytes} {field : Field} (inside : line ∈ lines b)
    (read : ofLine? line = some field) (feedless : lf ∉ value) :
    (lf ∈ line → IsLine { field with value }.bytes) ∧
      (lf ∉ line → lf ∉ { field with value }.bytes) ∧ content { field with value }.bytes ≠ [] := by
  have whole := (whole_of_ofLine? inside read).withValue feedless
  obtain ⟨field', read', -⟩ := whole.ofLine?_bytes
  refine ⟨fun feed => ?_, fun none => ?_, content_ne_nil read'⟩
  · have ended : lf ∈ field.trail := lf_mem_trail (isLine_of_mem_lines inside feed) read
    exact whole.isLine ended
  · rw [← bytes_of_ofLine? read] at none
    simp only [bytes, List.mem_append, not_or] at none ⊢
    exact ⟨⟨none.1.1, feedless⟩, none.2⟩

theorem Field.isLine_withValue {line value : Bytes} {field : Field} (h : IsLine line)
    (read : ofLine? line = some field) (feedless : lf ∉ value) :
    IsLine { field with value }.bytes ∧ content { field with value }.bytes ≠ [] := by
  have ends := ends_withValue h.mem_lines read feedless
  obtain ⟨text, -, rfl⟩ := h
  exact ⟨ends.1 (by simp), ends.2.2⟩

theorem fieldNamed?_withValue {b line value : Bytes} {field : Field} (inside : line ∈ lines b)
    (read : Field.ofLine? line = some field) (feedless : lf ∉ value) (name : String) :
    (fieldNamed? name { field with value }.bytes).isSome = (fieldNamed? name line).isSome := by
  have whole := Field.whole_of_ofLine? inside read
  obtain ⟨field', read', same, -⟩ := (whole.withValue feedless).ofLine?_bytes
  have named : field'.isNamed name = field.isNamed name := by
    rw [Field.isNamed, Field.isNamed, same]
  rw [fieldNamed?, fieldNamed?, read, read', Option.filter_some, Option.filter_some, named]
  split <;> rfl

def valueIn? (name : String) (headers : List Bytes) : Option Bytes :=
  headers.findSome? fun line => (fieldNamed? name line).map (·.value)

theorem Message.header?_eq (message : Message) (name : String) :
    message.header? name = valueIn? name message.layout.headers := by
  unfold header? fields valueIn? fieldNamed?
  generalize message.layout.headers = headers
  induction headers with
  | nil => rfl
  | cons line headers ih =>
      rw [List.findSome?_cons, ← ih]
      cases read : Field.ofLine? line with
      | none => simp [read]
      | some field => by_cases named : field.isNamed name <;> simp [read, named, Option.filter]

def fieldsNamed (name : String) (headers : List Bytes) : List Field :=
  headers.filterMap (fieldNamed? name)

theorem valueIn?_eq_head? (name : String) (headers : List Bytes) :
    valueIn? name headers = (fieldsNamed name headers).head?.map (·.value) := by
  rw [valueIn?, fieldsNamed, List.head?_filterMap, List.map_findSome?]
  rfl

theorem replaceValue?_eq_some {name : String} {value : Bytes} {headers headers' : List Bytes}
    (h : Message.replaceValue? name value headers = some headers') :
    ∃ before line after field, headers = before ++ line :: after ∧
      (∀ other ∈ before, fieldNamed? name other = none) ∧ fieldNamed? name line = some field ∧
      headers' = before ++ { field with value }.bytes :: after := by
  induction headers generalizing headers' with
  | nil => cases h
  | cons line headers ih =>
      unfold Message.replaceValue? at h
      split at h
      · next field found =>
        cases h
        exact ⟨[], line, headers, field, rfl, by simp, found, rfl⟩
      · next missing =>
        obtain ⟨rest, hrest, rfl⟩ := Option.map_eq_some_iff.1 h
        obtain ⟨before, line', after, field, rfl, others, found, rfl⟩ := ih hrest
        refine ⟨line :: before, line', after, field, rfl, ?_, found, rfl⟩
        exact List.forall_mem_cons.2 ⟨missing, others⟩

theorem replaceValue?_append_cons {name : String} {before : List Bytes} {line : Bytes}
    {field : Field} (others : ∀ other ∈ before, fieldNamed? name other = none)
    (found : fieldNamed? name line = some field) (value : Bytes) (after : List Bytes) :
    Message.replaceValue? name value (before ++ line :: after) =
      some (before ++ { field with value }.bytes :: after) := by
  rw [fieldNamed?] at found
  induction before with
  | nil => simp [Message.replaceValue?, found]
  | cons first before ih =>
      rw [List.forall_mem_cons, fieldNamed?] at others
      simp [Message.replaceValue?, others.1, ih others.2]

theorem replaceValue?_eq_none {name : String} {headers : List Bytes} (value : Bytes) :
    Message.replaceValue? name value headers = none ↔ valueIn? name headers = none := by
  induction headers with
  | nil => simp [Message.replaceValue?, valueIn?]
  | cons line headers ih =>
      unfold Message.replaceValue? valueIn?
      rw [List.findSome?_cons, ← valueIn?, fieldNamed?]
      cases (Field.ofLine? line).filter (·.isNamed name) with
      | none => simp [ih]
      | some field => simp

theorem valueIn?_append {name : String} {before : List Bytes}
    (others : ∀ other ∈ before, fieldNamed? name other = none) (after : List Bytes) :
    valueIn? name (before ++ after) = valueIn? name after := by
  rw [valueIn?, List.findSome?_append, List.findSome?_eq_none_iff.2, Option.none_or, valueIn?]
  intro other member
  rw [others other member, Option.map_none]

theorem valueIn?_cons_of_none {name : String} {line : Bytes} (h : fieldNamed? name line = none)
    (after : List Bytes) : valueIn? name (line :: after) = valueIn? name after := by
  rw [valueIn?, List.findSome?_cons, h, Option.map_none, valueIn?]

theorem valueIn?_withValue {name : String} {b line value : Bytes} {field : Field}
    (inside : line ∈ lines b) (found : fieldNamed? name line = some field) (feedless : lf ∉ value)
    (last : value.getLast? ≠ some cr) (after : List Bytes) :
    valueIn? name ({ field with value }.bytes :: after) = some (trimBy isPad value) := by
  obtain ⟨read, named⟩ := fieldNamed?_eq_some.1 found
  have whole := (Field.whole_of_ofLine? inside read).withValue feedless
  obtain ⟨field', read', same, back⟩ := whole.ofLine?_bytes
  have named' : field'.isNamed name = true := by
    rwa [Field.isNamed, same, ← Field.isNamed]
  have found' := fieldNamed?_eq_some.2 ⟨read', named'⟩
  rw [valueIn?, List.findSome?_cons, found', Option.map_some]
  exact congrArg some (back last)

namespace Layout

theorem Ended.withHeaders {layout : Layout} (ended : layout.Ended) (headers : List Bytes)
    (h : ∀ line ∈ headers, IsLine line ∧ content line ≠ []) : Ended { layout with headers } :=
  ⟨ended.start, h, ended.blank, ended.empty⟩

theorem Ended.withBody {layout : Layout} (ended : layout.Ended) (body : Bytes) :
    Ended { layout with body } :=
  ⟨ended.start, ended.headers, ended.blank, ended.empty⟩

end Layout

namespace Message

theorem layout_ofLayout {layout : Layout} (ended : layout.Ended) :
    (ofLayout layout).layout = layout :=
  Layout.ofBytes_bytes ended

theorem layout_setBody {message : Message} (ended : message.layout.Ended) (body : Bytes) :
    (message.setBody body).layout = { message.layout with body } :=
  layout_ofLayout (ended.withBody body)

theorem ended_setBody {message : Message} (ended : message.layout.Ended) (body : Bytes) :
    (message.setBody body).layout.Ended :=
  layout_setBody ended body ▸ ended.withBody body

theorem setHeader_of_replaceValue? {message : Message} {name : String} {value : Bytes}
    {headers : List Bytes}
    (replaced : replaceValue? name value message.layout.headers = some headers) :
    message.setHeader name value = ofLayout { message.layout with headers } := by
  simp only [setHeader, replaced]

theorem exists_found {message : Message} {name : String} (present : message.header? name ≠ none) :
    ∃ before line after field, message.layout.headers = before ++ line :: after ∧
      (∀ other ∈ before, fieldNamed? name other = none) ∧ fieldNamed? name line = some field := by
  rw [header?_eq, valueIn?] at present
  obtain ⟨value, first⟩ := Option.ne_none_iff_exists'.1 present
  obtain ⟨before, line, after, whole, named, others⟩ := List.findSome?_eq_some_iff.1 first
  obtain ⟨field, found, -⟩ := Option.map_eq_some_iff.1 named
  exact ⟨before, line, after, field, whole,
    fun other member => Option.map_eq_none_iff.1 (others other member), found⟩

theorem setHeader_of_found {message : Message} {name : String} {before after : List Bytes}
    {line : Bytes} {field : Field} (whole : message.layout.headers = before ++ line :: after)
    (others : ∀ other ∈ before, fieldNamed? name other = none)
    (found : fieldNamed? name line = some field) (value : Bytes) :
    message.setHeader name value =
      ofLayout { message.layout with headers := before ++ { field with value }.bytes :: after } := by
  have replaced := replaceValue?_append_cons others found value after
  rw [← whole] at replaced
  exact setHeader_of_replaceValue? replaced

theorem layout_setHeader {message : Message} {name : String} {value : Bytes} (feedless : lf ∉ value)
    (present : message.header? name ≠ none) :
    ∃ before line after field, message.layout.headers = before ++ line :: after ∧
      (∀ other ∈ before, fieldNamed? name other = none) ∧ fieldNamed? name line = some field ∧
      (message.setHeader name value).layout =
        { message.layout with headers := before ++ { field with value }.bytes :: after } := by
  obtain ⟨before, line, after, field, whole, others, found⟩ := exists_found present
  have inside : line ∈ message.layout.headers := by simp [whole]
  obtain ⟨closed, feedless', full⟩ :=
    Field.ends_withValue (Layout.mem_lines_of_mem_headers inside) (fieldNamed?_eq_some.1 found).1
      feedless
  refine ⟨before, line, after, field, whole, others, found, ?_⟩
  rw [setHeader_of_found whole others found]
  exact Layout.ofBytes_exchange whole closed feedless' full

theorem ended_setHeader {message : Message} (ended : message.layout.Ended) {name : String}
    {value : Bytes} (feedless : lf ∉ value) (present : message.header? name ≠ none) :
    (message.setHeader name value).layout.Ended := by
  obtain ⟨before, line, after, field, whole, others, found, edited⟩ :=
    layout_setHeader feedless present
  have old := ended.headers
  rw [whole] at old
  rw [edited]
  refine ended.withHeaders _ fun other member => ?_
  rcases List.mem_append.1 member with front | back
  · exact old other (by simp [front])
  · rcases List.mem_cons.1 back with rfl | back
    · exact Field.isLine_withValue (old line (by simp)).1 (fieldNamed?_eq_some.1 found).1 feedless
    · exact old other (by simp [back])

def newField (name : String) (value start : Bytes) : Field :=
  ⟨ofText name, [colon, space], value, newLineEnd start⟩

theorem insertHeader_eq (name : String) (value : Bytes) (layout : Layout) :
    insertHeader name value layout =
      { layout with
        start := if layout.start.getLast? = some lf then layout.start
          else layout.start ++ newLineEnd layout.start
        headers := (newField name value layout.start).bytes :: layout.headers } :=
  rfl

theorem newLineEnd_eq (start : Bytes) : newLineEnd start = [cr, lf] ∨ newLineEnd start = [lf] := by
  unfold newLineEnd
  split <;> simp

theorem isLine_newLineEnd {start : Bytes} (feedless : lf ∉ start) :
    IsLine (start ++ newLineEnd start) := by
  rcases newLineEnd_eq start with both | one
  · rw [both]
    exact ⟨start ++ [cr], by simpa [lf, cr] using feedless, by simp⟩
  · rw [one]
    exact ⟨start, feedless, rfl⟩

theorem whole_newField {name : String} (proper : Proper name) {value : Bytes} (feedless : lf ∉ value)
    (start : Bytes) : (newField name value start).Whole := by
  refine ⟨⟨proper.colon, proper.lf⟩, ⟨[space], by simp [isPad], rfl⟩, feedless, ?_⟩
  rcases newLineEnd_eq start with both | one
  · exact ⟨[], [cr], [lf], by simp, .inr rfl, .inr rfl, both⟩
  · exact ⟨[], [], [lf], by simp, .inl rfl, .inr rfl, one⟩

theorem isNamed_newField {name : String} (proper : Proper name) (value start : Bytes) :
    (newField name value start).isNamed name = true := by
  rw [Field.isNamed, newField, proper.trimmed, sameName, beq_self_eq_true]

theorem newField_read {name : String} (proper : Proper name) {value : Bytes} (feedless : lf ∉ value)
    (start : Bytes) :
    IsLine (newField name value start).bytes ∧ content (newField name value start).bytes ≠ [] ∧
      ∃ read, fieldNamed? name (newField name value start).bytes = some read ∧
        (value.getLast? ≠ some cr → read.value = trimBy isPad value) := by
  have whole := whole_newField proper feedless start
  obtain ⟨read, hread, same, back⟩ := whole.ofLine?_bytes
  have named : read.isNamed name = true := by
    rw [Field.isNamed, same, ← Field.isNamed, isNamed_newField proper]
  have ended : lf ∈ newLineEnd start := by
    rcases newLineEnd_eq start with both | one
    · simp [both]
    · simp [one]
  exact ⟨whole.isLine ended, Field.content_ne_nil hread, read,
    fieldNamed?_eq_some.2 ⟨hread, named⟩, back⟩

theorem setHeader_of_absent {message : Message} {name : String} (value : Bytes)
    (absent : message.header? name = none) :
    message.setHeader name value = ofLayout (insertHeader name value message.layout) := by
  rw [header?_eq, ← replaceValue?_eq_none value] at absent
  simp only [setHeader, absent]

theorem layout_setHeader_absent {message : Message} {name : String} (proper : Proper name)
    {value : Bytes} (feedless : lf ∉ value) (absent : message.header? name = none) :
    (message.setHeader name value).layout = insertHeader name value message.layout := by
  let field := newField name value message.layout.start
  have isLine : IsLine field.bytes := (newField_read proper feedless _).1
  have full : content field.bytes ≠ [] := (newField_read proper feedless _).2.1
  rw [setHeader_of_absent value absent, insertHeader_eq]
  by_cases feed : lf ∈ message.bytes
  · have closed : message.layout.start.getLast? = some lf :=
      (Layout.exists_lines_of_lf_mem feed).1.getLast?
    rw [if_pos closed]
    exact Layout.ofBytes_insert feed isLine full
  · have alone : message.layout = ⟨message.bytes, [], [], []⟩ := Layout.ofBytes_of_lf_notMem feed
    have opened : message.bytes.getLast? ≠ some lf := fun last => feed (List.mem_of_getLast? last)
    simp only [field, alone] at isLine full
    simp only [alone, opened, if_false]
    rw [layout, ofLayout, Layout.bytes, List.flatten_singleton, List.append_nil, List.append_nil]
    exact Layout.ofBytes_line_line (isLine_newLineEnd feed) isLine full

theorem lf_notMem_of_header? {message : Message} {name : String} {value : Bytes}
    (h : message.header? name = some value) : lf ∉ value := by
  rw [header?_eq] at h
  obtain ⟨line, member, found⟩ := List.exists_of_findSome?_eq_some h
  obtain ⟨field, named, rfl⟩ := Option.map_eq_some_iff.1 found
  have inside := Layout.mem_lines_of_mem_headers member
  exact (Field.whole_of_ofLine? inside (fieldNamed?_eq_some.1 named).1).value

theorem headerText?_eq_some {message : Message} {name text : String} :
    message.headerText? name = some text ↔ message.header? name = some (ofText text) := by
  rw [headerText?, Option.bind_eq_some_iff]
  constructor
  · rintro ⟨value, found, read⟩
    rwa [ofText_of_text? read]
  · exact fun found => ⟨_, found, text?_ofText text⟩

theorem lf_notMem_of_headerText? {message : Message} {name text : String}
    (h : message.headerText? name = some text) : '\n' ∉ text.toList := by
  rw [← lf_mem_ofText]
  exact lf_notMem_of_header? (headerText?_eq_some.1 h)

theorem header?_ne_none {message : Message} {name text : String}
    (h : message.headerText? name = some text) : message.header? name ≠ none := by
  simp [headerText?_eq_some.1 h]

theorem header?_setHeader_self {message : Message} {name : String} {value : Bytes}
    (feedless : lf ∉ value) (last : value.getLast? ≠ some cr)
    (present : message.header? name ≠ none) :
    (message.setHeader name value).header? name = some (trimBy isPad value) := by
  obtain ⟨before, line, after, field, whole, others, found, edited⟩ :=
    layout_setHeader feedless present
  have inside : line ∈ message.layout.headers := by simp [whole]
  rw [header?_eq, edited, valueIn?_append others,
    valueIn?_withValue (Layout.mem_lines_of_mem_headers inside) found feedless last]

theorem header?_setHeader_of_present {message : Message} {name other : String}
    (apart : Apart name other) {value : Bytes} (feedless : lf ∉ value)
    (present : message.header? name ≠ none) :
    (message.setHeader name value).header? other = message.header? other := by
  obtain ⟨before, line, after, field, whole, others, found, edited⟩ :=
    layout_setHeader feedless present
  have inside : line ∈ message.layout.headers := by simp [whole]
  have old := fieldNamed?_of_apart apart found
  have new : fieldNamed? other { field with value }.bytes = none := by
    have same := fieldNamed?_withValue (Layout.mem_lines_of_mem_headers inside)
      (fieldNamed?_eq_some.1 found).1 feedless other
    rw [old] at same
    exact Option.not_isSome_iff_eq_none.1 (by simp [same])
  rw [header?_eq, header?_eq, edited, whole, valueIn?, valueIn?, List.findSome?_append,
    List.findSome?_append]
  exact congrArg _ ((valueIn?_cons_of_none new after).trans (valueIn?_cons_of_none old after).symm)

theorem header?_setHeader_of_apart {message : Message} {name other : String}
    (apart : Apart name other) {value : Bytes} (feedless : lf ∉ value)
    (known : message.header? name ≠ none ∨ Proper name) :
    (message.setHeader name value).header? other = message.header? other := by
  by_cases absent : message.header? name = none
  · have proper := known.resolve_left (not_not.2 absent)
    obtain ⟨-, -, field, found, -⟩ := newField_read proper feedless message.layout.start
    rw [header?_eq, header?_eq, layout_setHeader_absent proper feedless absent, insertHeader_eq,
      valueIn?_cons_of_none (fieldNamed?_of_apart apart found)]
  · exact header?_setHeader_of_present apart feedless absent

theorem header?_setBody {message : Message} (ended : message.layout.Ended) (body : Bytes)
    (name : String) : (message.setBody body).header? name = message.header? name := by
  rw [header?_eq, header?_eq, layout_setBody ended]

theorem body_setHeader {message : Message} {name : String} (proper : Proper name) {value : Bytes}
    (feedless : lf ∉ value) : (message.setHeader name value).body = message.body := by
  by_cases absent : message.header? name = none
  · rw [body, body, layout_setHeader_absent proper feedless absent]
    rfl
  · obtain ⟨_, _, _, _, -, -, -, edited⟩ := layout_setHeader feedless absent
    rw [body, body, edited]

theorem header?_setHeader {message : Message} {name : String} (proper : Proper name) {value : Bytes}
    (feedless : lf ∉ value) (last : value.getLast? ≠ some cr) :
    (message.setHeader name value).header? name = some (trimBy isPad value) := by
  by_cases absent : message.header? name = none
  · obtain ⟨-, -, field, found, back⟩ := newField_read proper feedless message.layout.start
    rw [header?_eq, layout_setHeader_absent proper feedless absent, insertHeader_eq, valueIn?,
      List.findSome?_cons, found, Option.map_some]
    exact congrArg some (back last)
  · exact header?_setHeader_self feedless last absent

theorem replaceValue?_append {name : String} {last : Bytes} (other : fieldNamed? name last = none)
    (value : Bytes) (headers : List Bytes) :
    replaceValue? name value (headers ++ [last]) =
      (replaceValue? name value headers).map (· ++ [last]) := by
  rw [fieldNamed?] at other
  induction headers with
  | nil => simp [replaceValue?, other]
  | cons line headers ih =>
      rw [List.cons_append, replaceValue?, replaceValue?]
      split
      · rfl
      · rw [ih]
        cases replaceValue? name value headers <;> rfl

theorem layout_setBody_open {message : Message} (closed : message.layout.blank ≠ [])
    (feedless : lf ∉ message.layout.blank) {body : Bytes} (filled : body ≠ []) (plain : lf ∉ body) :
    (message.setBody body).layout =
      ⟨message.layout.start, message.layout.headers ++ [cr :: body], [], []⟩ := by
  have start : IsLine message.layout.start := (Layout.isLine_of_blank closed).1
  have headers : ∀ line ∈ message.layout.headers, IsLine line := (Layout.isLine_of_blank closed).2
  have blank : message.layout.blank = [cr] := (Layout.blank_of_lf_notMem closed feedless).1
  have clean : lf ∉ cr :: body := List.not_mem_cons_of_ne_of_not_mem (by decide) plain
  have last : content (cr :: body) ≠ [] := by
    intro empty
    rcases eq_of_content_eq_nil clean empty with none | one
    · cases none
    · exact filled (List.cons.inj one).2
  have full : ∀ line ∈ message.layout.headers ++ [cr :: body], content line ≠ [] := by
    intro line member
    rcases List.mem_append.1 member with front | back
    · exact Layout.content_of_mem_headers front
    · rwa [List.mem_singleton.1 back]
  have bytes : (message.setBody body).bytes = message.layout.start ++
      (message.layout.headers.flatten ++ (cr :: body)) := by
    show Layout.bytes _ = _
    simp [Layout.bytes, blank]
  have cut : lines (message.setBody body).bytes =
      message.layout.start :: (message.layout.headers ++ [cr :: body] ++ []) := by
    rw [bytes, lines_line_append start, lines_flatten_append headers,
      lines_of_lf_notMem (List.cons_ne_nil _ _) clean, List.append_nil]
  rw [layout, Layout.ofBytes, cut, Layout.ofLines_append full]
  simp [Layout.ofLines]

theorem setHeader_setBody {message : Message} (closed : message.layout.blank ≠ []) {body : Bytes}
    (filled : body ≠ []) (plain : lf ∉ body ∧ colon ∉ body) (name : String) (value : Bytes) :
    (∀ headers, replaceValue? name value message.layout.headers = some headers →
      ((message.setBody body).setHeader name value).bytes =
        Layout.bytes { message.layout with headers, body }) ∧
    (replaceValue? name value message.layout.headers = none →
      ((message.setBody body).setHeader name value).bytes =
        (insertHeader name value { message.layout with body }).bytes) := by
  by_cases feed : lf ∈ message.layout.blank
  · have layout := layout_setBody (Layout.ended_of_lf_mem feed) body
    constructor
    · intro headers replaced
      simp only [setHeader, layout, replaced]
      rfl
    · intro absent
      simp only [setHeader, layout, absent]
      rfl
  · have layout := layout_setBody_open closed feed filled plain.1
    have other : fieldNamed? name (cr :: body) = none := by
      have colonless : colon ∉ cr :: body :=
        List.not_mem_cons_of_ne_of_not_mem (by decide) plain.2
      rw [fieldNamed?, Field.ofLine?_eq_none colonless]
      rfl
    have blank : message.layout.blank = [cr] := (Layout.blank_of_lf_notMem closed feed).1
    constructor
    · intro headers replaced
      simp only [setHeader, layout, replaceValue?_append other, replaced]
      simp [ofLayout, Layout.bytes, blank]
    · intro absent
      simp only [setHeader, layout, replaceValue?_append other, absent]
      simp [ofLayout, Layout.bytes, blank, insertHeader]

end Message

end CredentialRelay.Http

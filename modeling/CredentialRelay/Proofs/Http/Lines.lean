import Mathlib
import CredentialRelay.Http.Layout

namespace CredentialRelay.Http
open Bytes

def IsLine (line : Bytes) : Prop := ∃ text, lf ∉ text ∧ line = text ++ [lf]

theorem IsLine.cons {b : UInt8} {line : Bytes} (h : IsLine line) (plain : b ≠ lf) :
    IsLine (b :: line) := by
  obtain ⟨text, clean, rfl⟩ := h
  exact ⟨b :: text, by simp [clean, plain.symm], rfl⟩

theorem IsLine.getLast? {line : Bytes} (h : IsLine line) : line.getLast? = some lf := by
  obtain ⟨text, -, rfl⟩ := h
  exact List.getLast?_concat

theorem lines_cons (b : UInt8) (rest : Bytes) : lines (b :: rest) = consLine b (lines rest) := rfl

theorem lines_line_append {line : Bytes} (h : IsLine line) (rest : Bytes) :
    lines (line ++ rest) = line :: lines rest := by
  obtain ⟨text, clean, rfl⟩ := h
  induction text with
  | nil => simp [lines_cons, consLine]
  | cons b text ih =>
      simp only [List.mem_cons, not_or] at clean
      rw [List.cons_append, List.cons_append, lines_cons, ih clean.2]
      simp [consLine, Ne.symm clean.1]

theorem IsLine.mem_lines {line : Bytes} (h : IsLine line) : line ∈ lines line := by
  have alone := lines_line_append h []
  rw [List.append_nil] at alone
  simp [alone]

theorem lines_flatten_append {ls : List Bytes} (h : ∀ line ∈ ls, IsLine line) (rest : Bytes) :
    lines (ls.flatten ++ rest) = ls ++ lines rest := by
  induction ls with
  | nil => rfl
  | cons line ls ih =>
      rw [List.forall_mem_cons] at h
      rw [List.flatten_cons, List.append_assoc, lines_line_append h.1, ih h.2, List.cons_append]

theorem isLine_of_lines {b : Bytes} (before : List Bytes) {after : List Bytes} {line : Bytes}
    (h : lines b = before ++ line :: after) (more : after ≠ [] ∨ lf ∈ line) : IsLine line := by
  induction b generalizing before line with
  | nil => simp [lines] at h
  | cons x rest ih =>
      rw [lines_cons] at h
      unfold consLine at h
      split at h
      · next feed =>
        cases before with
        | nil =>
            simp only [List.nil_append, List.cons.injEq] at h
            exact ⟨[], by simp, by rw [← h.1, feed]; rfl⟩
        | cons first before =>
            simp only [List.cons_append, List.cons.injEq] at h
            exact ih before h.2 more
      · next plain =>
        cases tail : lines rest with
        | nil =>
            rw [tail] at h
            cases before with
            | nil =>
                simp only [List.nil_append, List.cons.injEq] at h
                obtain ⟨rfl, rfl⟩ := h
                simp [Ne.symm plain] at more
            | cons first before => simp at h
        | cons line' after' =>
            rw [tail] at h
            cases before with
            | nil =>
                simp only [List.nil_append, List.cons.injEq] at h
                obtain ⟨rfl, rfl⟩ := h
                refine IsLine.cons (ih [] tail ?_) plain
                simpa [Ne.symm plain] using more
            | cons first before =>
                simp only [List.cons_append, List.cons.injEq] at h
                exact ih (line' :: before) (by rw [tail, h.2, List.cons_append]) more

theorem lines_of_lf_notMem {line : Bytes} (filled : line ≠ []) (feedless : lf ∉ line) :
    lines line = [line] := by
  induction line with
  | nil => exact absurd rfl filled
  | cons b rest ih =>
      simp only [List.mem_cons, not_or] at feedless
      rw [lines_cons]
      by_cases last : rest = []
      · subst last
        exact if_neg (Ne.symm feedless.1)
      · rw [ih last feedless.2]
        exact if_neg (Ne.symm feedless.1)

theorem lines_exchange {b line line' : Bytes} {before after : List Bytes}
    (cut : lines b = before ++ line :: after) (closed : lf ∈ line → IsLine line')
    (feedless : lf ∉ line → lf ∉ line') (filled : line' ≠ []) :
    lines (before ++ line' :: after).flatten = before ++ line' :: after := by
  have front : ∀ other ∈ before, IsLine other := by
    intro other member
    obtain ⟨first, second, rfl⟩ := List.append_of_mem member
    have located : lines b = first ++ other :: (second ++ line :: after) := by simpa using cut
    exact isLine_of_lines first located (.inl (by simp))
  have whole : b = before.flatten ++ (line ++ after.flatten) := by
    rw [← flatten_lines b, cut, List.flatten_append, List.flatten_cons]
  rw [whole, lines_flatten_append front, List.append_cancel_left_eq] at cut
  rw [List.flatten_append, List.flatten_cons, lines_flatten_append front,
    List.append_cancel_left_eq]
  by_cases feed : lf ∈ line
  · have isLine := isLine_of_lines [] cut (.inr feed)
    rw [lines_line_append isLine, List.cons_inj_right] at cut
    rw [lines_line_append (closed feed), cut]
  · have last : after = [] := by
      by_contra more
      obtain ⟨text, -, rfl⟩ := isLine_of_lines [] cut (.inl more)
      simp at feed
    rw [last, List.flatten_nil, List.append_nil, lines_of_lf_notMem filled (feedless feed)]

theorem subset_of_splitLast (b : UInt8) (line : Bytes) : (splitLast b line).1 ⊆ line := by
  unfold splitLast
  split
  · exact List.dropLast_subset line
  · exact List.Subset.refl line

theorem splitLast_eq (b : UInt8) (line : Bytes) :
    (splitLast b line).2 = [] ∨ (splitLast b line).2 = [b] := by
  unfold splitLast
  split <;> simp

theorem splitLast_of_last_ne {b : UInt8} {line : Bytes} (h : line.getLast? ≠ some b) :
    splitLast b line = (line, []) := by
  rw [splitLast, if_neg h]

theorem splitLast_append_singleton (b : UInt8) (text : Bytes) :
    splitLast b (text ++ [b]) = (text, [b]) := by
  simp [splitLast]

theorem eq_of_content_eq_nil {line : Bytes} (feedless : lf ∉ line) (empty : content line = []) :
    line = [] ∨ line = [cr] := by
  have last : line.getLast? ≠ some lf := fun same => feedless (List.mem_of_getLast? same)
  rw [content, splitLast_of_last_ne last] at empty
  have whole := append_splitLast cr line
  rw [empty, List.nil_append] at whole
  rw [← whole]
  exact splitLast_eq cr line

theorem content_isLine (text : Bytes) : content (text ++ [lf]) = (splitLast cr text).1 := by
  rw [content, splitLast_append_singleton]

theorem lineEnd_isLine (text : Bytes) : lineEnd (text ++ [lf]) = (splitLast cr text).2 ++ [lf] := by
  rw [lineEnd, splitLast_append_singleton]

theorem isLine_of_mem_lines {b line : Bytes} (h : line ∈ lines b) (inside : lf ∈ line) :
    IsLine line := by
  obtain ⟨before, after, cut⟩ := List.append_of_mem h
  exact isLine_of_lines before cut (.inr inside)

theorem lf_notMem_content {b line : Bytes} (h : line ∈ lines b) : lf ∉ content line := by
  by_cases inside : lf ∈ line
  · obtain ⟨text, clean, rfl⟩ := isLine_of_mem_lines h inside
    rw [content_isLine]
    exact fun member => clean (subset_of_splitLast cr text member)
  · exact fun member => inside (subset_of_splitLast lf line (subset_of_splitLast cr _ member))

namespace Layout

theorem start_ofLines (start : Bytes) (rest : List Bytes) :
    (ofLines (start :: rest)).start = start := by
  rw [ofLines]
  split <;> rfl

theorem headers_ofLines (start : Bytes) (rest : List Bytes) :
    (ofLines (start :: rest)).headers = rest.takeWhile fun line => content line != [] := by
  rw [ofLines]
  split <;> rfl

theorem mem_lines_of_mem_headers {b line : Bytes} (h : line ∈ (ofBytes b).headers) :
    line ∈ lines b := by
  unfold ofBytes at h
  cases cut : lines b with
  | nil => simp [cut, ofLines] at h
  | cons start rest =>
      rw [cut, headers_ofLines] at h
      exact List.mem_cons_of_mem start (List.takeWhile_subset _ h)

theorem isLine_start {b : Bytes} (h : (ofBytes b).headers ≠ []) : IsLine (ofBytes b).start := by
  unfold ofBytes at *
  cases cut : lines b with
  | nil => simp [cut, ofLines] at h
  | cons start rest =>
      rw [cut] at h
      rw [start_ofLines]
      refine isLine_of_lines [] cut (.inl ?_)
      rintro rfl
      exact h rfl

theorem start_ofBytes_append {start : Bytes} (h : IsLine start) (rest : Bytes) :
    (ofBytes (start ++ rest)).start = start := by
  rw [ofBytes, lines_line_append h, start_ofLines]

theorem ofBytes_of_lf_notMem {b : Bytes} (feedless : lf ∉ b) : ofBytes b = ⟨b, [], [], []⟩ := by
  cases b with
  | nil => rfl
  | cons x rest =>
      rw [ofBytes, lines_of_lf_notMem (List.cons_ne_nil x rest) feedless]
      rfl

theorem exists_lines_of_lf_mem {b : Bytes} (feed : lf ∈ b) :
    IsLine (ofBytes b).start ∧ ∃ rest, lines b = (ofBytes b).start :: rest := by
  unfold ofBytes
  cases cut : lines b with
  | nil =>
      rw [← flatten_lines b, cut] at feed
      cases feed
  | cons start rest =>
      rw [start_ofLines]
      refine ⟨?_, rest, rfl⟩
      by_cases last : rest = []
      · have whole : b = start := by
          rw [← flatten_lines b, cut, last]
          simp
        exact isLine_of_lines [] cut (.inr (whole ▸ feed))
      · exact isLine_of_lines [] cut (.inl last)

theorem ofLines_append {headers : List Bytes} (full : ∀ line ∈ headers, content line ≠ [])
    (start : Bytes) (rest : List Bytes) :
    ofLines (start :: (headers ++ rest)) =
      { ofLines (start :: rest) with headers := headers ++ (ofLines (start :: rest)).headers } := by
  have full' : ∀ line ∈ headers, content line != [] := by simpa using full
  rw [ofLines, ofLines, List.takeWhile_append_of_pos full', List.dropWhile_append_of_pos full']
  dsimp only
  split <;> rfl

theorem ofBytes_insert {b line : Bytes} (feed : lf ∈ b) (isLine : IsLine line)
    (full : content line ≠ []) :
    ofBytes (bytes { ofBytes b with headers := line :: (ofBytes b).headers }) =
      { ofBytes b with headers := line :: (ofBytes b).headers } := by
  obtain ⟨start, rest, cut⟩ := exists_lines_of_lf_mem feed
  have below : lines rest.flatten = rest := by
    have whole := cut
    rw [← flatten_lines b, cut, List.flatten_cons, lines_line_append start] at whole
    exact List.tail_eq_of_cons_eq whole
  have edited : { ofBytes b with headers := line :: (ofBytes b).headers } =
      ofLines ((ofBytes b).start :: ([line] ++ rest)) := by
    rw [ofLines_append (List.forall_mem_singleton.2 full), ← cut]
    rfl
  rw [edited, bytes_ofLines, ofBytes, List.flatten_cons, lines_line_append start,
    List.flatten_append, List.flatten_singleton, lines_line_append isLine, below]
  rfl

theorem ofBytes_line_line {start line : Bytes} (first : IsLine start) (second : IsLine line)
    (full : content line ≠ []) : ofBytes (start ++ line) = ⟨start, [line], [], []⟩ := by
  have cut : lines (start ++ line) = [start, line] := by
    rw [lines_line_append first, ← List.append_nil line, lines_line_append second, List.append_nil]
    rfl
  simp [ofBytes, cut, ofLines, full]

theorem content_of_mem_headers {b line : Bytes} (h : line ∈ (ofBytes b).headers) :
    content line ≠ [] := by
  unfold ofBytes at h
  cases cut : lines b with
  | nil => simp [cut, ofLines] at h
  | cons start rest =>
      rw [cut, headers_ofLines] at h
      simpa using List.mem_takeWhile_imp h

theorem exists_rest {b : Bytes} (filled : (ofBytes b).headers ≠ []) :
    ∃ rest, lines b = (ofBytes b).start :: ((ofBytes b).headers ++ rest) ∧
      (ofLines ((ofBytes b).start :: rest)).headers = [] := by
  unfold ofBytes at *
  cases cut : lines b with
  | nil => simp [cut, ofLines] at filled
  | cons start ls =>
      rw [start_ofLines, headers_ofLines]
      refine ⟨ls.dropWhile fun line => content line != [], ?_, ?_⟩
      · rw [List.takeWhile_append_dropWhile]
      · rw [headers_ofLines, List.takeWhile_eq_nil_iff]
        intro inside
        have stop := List.dropWhile_get_zero_not (fun line => content line != []) ls inside
        simpa using stop

theorem ofBytes_exchange {b line line' : Bytes} {before after : List Bytes}
    (cut : (ofBytes b).headers = before ++ line :: after) (closed : lf ∈ line → IsLine line')
    (feedless : lf ∉ line → lf ∉ line') (full : content line' ≠ []) :
    ofBytes (bytes { ofBytes b with headers := before ++ line' :: after }) =
      { ofBytes b with headers := before ++ line' :: after } := by
  obtain ⟨rest, all, stop⟩ := exists_rest (b := b) (by simp [cut])
  have old : ∀ other ∈ before ++ line :: after, content other ≠ [] := fun other member =>
    content_of_mem_headers (cut ▸ member)
  have new : ∀ other ∈ before ++ line' :: after, content other ≠ [] := by
    intro other member
    rcases List.mem_append.1 member with front | back
    · exact old other (List.mem_append_left _ front)
    · rcases List.mem_cons.1 back with rfl | back
      · exact full
      · exact old other (by simp [back])
  have filled : line' ≠ [] := by
    rintro rfl
    exact full rfl
  have edited : { ofBytes b with headers := before ++ line' :: after } =
      ofLines ((ofBytes b).start :: (before ++ line' :: after ++ rest)) := by
    have was := congrArg ofLines all
    rw [cut, ofLines_append old] at was
    rw [ofLines_append new, stop, List.append_nil, Layout.mk.injEq]
    exact ⟨(start_ofLines _ rest).symm, rfl, (congrArg blank was :), (congrArg body was :)⟩
  rw [edited, bytes_ofLines, ofBytes]
  have located : lines b = ((ofBytes b).start :: before) ++ line :: (after ++ rest) := by
    simpa [cut] using all
  have again := lines_exchange located closed feedless filled
  simp only [List.cons_append, List.append_assoc] at again ⊢
  rw [again]

structure Ended (layout : Layout) : Prop where
  start : IsLine layout.start
  headers : ∀ line ∈ layout.headers, IsLine line ∧ content line ≠ []
  blank : IsLine layout.blank
  empty : content layout.blank = []

theorem ofBytes_bytes {layout : Layout} (ended : layout.Ended) :
    ofBytes layout.bytes = layout := by
  have whole : layout.bytes =
      (layout.start :: layout.headers ++ [layout.blank]).flatten ++ layout.body := by
    simp [bytes]
  have cut : lines layout.bytes = layout.start :: layout.headers ++ layout.blank ::
      lines layout.body := by
    rw [whole, lines_flatten_append]
    · simp
    · intro line member
      simp only [List.cons_append, List.mem_cons, List.mem_append, List.not_mem_nil,
        or_false] at member
      rcases member with rfl | member | rfl
      exacts [ended.start, (ended.headers line member).1, ended.blank]
  have full : ∀ line ∈ layout.headers, content line != [] := fun line member => by
    simpa using (ended.headers line member).2
  rw [ofBytes, cut, List.cons_append, ofLines, List.takeWhile_append_of_pos full,
    List.dropWhile_append_of_pos full]
  simp [ended.empty]

theorem exists_lines_of_blank {b : Bytes} (closed : (ofBytes b).blank ≠ []) :
    ∃ rest, lines b = (ofBytes b).start :: ((ofBytes b).headers ++ (ofBytes b).blank :: rest) ∧
      content (ofBytes b).blank = [] ∧ (ofBytes b).body = rest.flatten := by
  unfold ofBytes at *
  cases cut : lines b with
  | nil => simp [cut, ofLines] at closed
  | cons start ls =>
      rw [cut] at closed
      have parts := List.takeWhile_append_dropWhile (p := fun line => content line != []) (l := ls)
      simp only [ofLines] at closed ⊢
      split at closed
      · simp at closed
      · next blank body stop =>
        rw [stop] at parts
        have empty := List.head?_dropWhile_not (fun line => content line != []) ls
        rw [stop] at empty
        exact ⟨body, by rw [parts], by simpa using empty, rfl⟩

theorem isLine_of_blank {b : Bytes} (closed : (ofBytes b).blank ≠ []) :
    IsLine (ofBytes b).start ∧ ∀ line ∈ (ofBytes b).headers, IsLine line := by
  obtain ⟨rest, cut, -⟩ := exists_lines_of_blank closed
  refine ⟨isLine_of_lines [] cut (.inl (by simp)), fun line member => ?_⟩
  obtain ⟨before, after, eq⟩ := List.append_of_mem member
  rw [eq] at cut
  have located : lines b =
      ((ofBytes b).start :: before) ++ line :: (after ++ (ofBytes b).blank :: rest) := by
    simpa using cut
  exact isLine_of_lines _ located (.inl (by simp))

theorem ended_of_lf_mem {b : Bytes} (h : lf ∈ (ofBytes b).blank) : (ofBytes b).Ended := by
  have closed := List.ne_nil_of_mem h
  obtain ⟨rest, cut, empty, -⟩ := exists_lines_of_blank closed
  obtain ⟨start, headers⟩ := isLine_of_blank closed
  rw [← List.cons_append] at cut
  exact ⟨start, fun line member => ⟨headers line member, content_of_mem_headers member⟩,
    isLine_of_lines _ cut (.inr h), empty⟩

theorem blank_of_lf_notMem {b : Bytes} (closed : (ofBytes b).blank ≠ [])
    (feedless : lf ∉ (ofBytes b).blank) : (ofBytes b).blank = [cr] ∧ (ofBytes b).body = [] := by
  obtain ⟨rest, cut, empty, body⟩ := exists_lines_of_blank closed
  have last : rest = [] := by
    by_contra more
    rw [← List.cons_append] at cut
    obtain ⟨text, -, same⟩ := isLine_of_lines _ cut (.inl more)
    rw [same] at feedless
    simp at feedless
  refine ⟨?_, by rw [body, last, List.flatten_nil]⟩
  exact (eq_of_content_eq_nil feedless empty).resolve_left closed

end Layout

end CredentialRelay.Http

import Mathlib
import CredentialRelay.Proofs.Http.Headers

namespace CredentialRelay.Http
open Bytes

theorem nil_notMem_lines (b : Bytes) : [] ∉ lines b := by
  induction b with
  | nil => simp [lines]
  | cons x rest ih =>
      rw [lines_cons]
      unfold consLine
      split
      · simp [ih]
      · cases cut : lines rest with
        | nil => simp
        | cons line more =>
            rw [cut] at ih
            simp [List.not_mem_of_not_mem_cons ih]

namespace Layout

theorem closed_of_body {b : Bytes} (filled : (ofBytes b).body ≠ []) : (ofBytes b).blank ≠ [] := by
  have proper := nil_notMem_lines b
  unfold ofBytes at *
  cases cut : lines b with
  | nil => simp [cut, ofLines] at filled
  | cons start rest =>
      rw [cut] at filled proper
      simp only [ofLines] at filled ⊢
      split at filled
      · simp at filled
      · next blank body stop =>
        rintro rfl
        have inside : [] ∈ rest.dropWhile fun line => content line != [] := by simp [stop]
        exact proper (List.mem_cons_of_mem start (List.dropWhile_subset _ inside))

theorem ended_of_body {b : Bytes} (filled : (ofBytes b).body ≠ []) : (ofBytes b).Ended := by
  refine ended_of_lf_mem ?_
  by_contra feedless
  exact filled (blank_of_lf_notMem (closed_of_body filled) feedless).2

end Layout

namespace Message

variable {message : Message}

theorem body_of_open (opened : ¬message.layout.Ended) : message.body = [] := by
  by_contra filled
  exact opened (Layout.ended_of_body filled)

theorem bytes_setBody_of_open (opened : ¬message.layout.Ended) (body : Bytes) :
    (message.setBody body).bytes = message.bytes ++ body := by
  have none : message.layout.body = [] := body_of_open opened
  have whole : message.layout.bytes = message.bytes := Layout.bytes_ofBytes message.bytes
  rw [Layout.bytes, none, List.append_nil] at whole
  rw [setBody, ofLayout, Layout.bytes, whole]

theorem ended_of_body_setBody {body : Bytes} (filled : body ≠ [])
    (read : (message.setBody body).body = body) : message.layout.Ended := by
  by_contra opened
  have ended : (message.setBody body).layout.Ended := Layout.ended_of_body (by rwa [← read] at filled)
  have parts : (message.setBody body).layout.bytes = (message.setBody body).bytes :=
    Layout.bytes_ofBytes _
  rw [bytes_setBody_of_open opened, Layout.bytes, ← Message.body, read] at parts
  -- All before the body that is read is the old message, so that ended its headers by itself.
  have front := List.append_cancel_right parts
  have old : Layout.bytes { (message.setBody body).layout with body := [] } = message.bytes := by
    rw [Layout.bytes, List.append_nil, front]
  apply opened
  rw [layout, ← old, Layout.ofBytes_bytes (ended.withBody [])]
  exact ended.withBody []

/-- A body that is set is read back, with the start line and all headers as they were, if and only if
an empty line ends the headers or the body is empty. Without that line the message is only prolonged. -/
theorem body_set_iff (message : Message) (body : Bytes) :
    let edited := message.setBody body
    (edited.body = body ∧ edited.startLine = message.startLine ∧
        (∀ name, edited.header? name = message.header? name) ↔
      message.layout.Ended ∨ body = []) ∧
      (edited.body = body ↔ message.layout.Ended ∨ body = []) ∧
      (¬message.layout.Ended → edited.bytes = message.bytes ++ body) := by
  intro edited
  have kept (given : message.layout.Ended ∨ body = []) : edited.body = body ∧
      edited.startLine = message.startLine ∧
      ∀ name, edited.header? name = message.header? name := by
    by_cases ended : message.layout.Ended
    · have layout : edited.layout = { message.layout with body } := layout_setBody ended body
      exact ⟨by rw [Message.body, layout], by rw [startLine, layout, startLine],
        header?_setBody ended body⟩
    · obtain rfl := given.resolve_left ended
      have same : edited = message :=
        congrArg Message.mk ((bytes_setBody_of_open ended []).trans (List.append_nil _))
      rw [same]
      exact ⟨body_of_open ended, rfl, fun _ => rfl⟩
  have needed (read : edited.body = body) : message.layout.Ended ∨ body = [] := by
    by_cases filled : body = []
    · exact .inr filled
    · exact .inl (ended_of_body_setBody filled read)
  exact ⟨⟨fun all => needed all.1, kept⟩, ⟨needed, fun given => (kept given).1⟩,
    fun opened => bytes_setBody_of_open opened body⟩

theorem body_runs_into_headers :
    let torn : Message := ⟨ofText "GET /\r\nHost: a\r\n\r"⟩
    let unended : Message := ⟨ofText "GET /\r\nHost: a"⟩
    let body := ofText "x=1"
    (torn.setBody body).body ≠ body ∧ (unended.setBody body).body ≠ body ∧
      unended.header? "Host" = some (ofText "a") ∧
      (unended.setBody body).header? "Host" = some (ofText "ax=1") := by
  decide

end Message

end CredentialRelay.Http

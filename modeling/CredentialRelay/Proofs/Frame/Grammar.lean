import Mathlib
import CredentialRelay.Frame
import CredentialRelay.Proofs.Bytes.Cut

namespace CredentialRelay
open Bytes

theorem EventKind.ofTag?_eq_some {tag : UInt8} {kind : EventKind} :
    ofTag? tag = some kind ↔ tag = kind.tag := by
  unfold ofTag?
  cases kind <;> grind [EventKind.tag]

theorem EventKind.tag_ne_space (kind : EventKind) : kind.tag ≠ space := by
  cases kind <;> decide

theorem Bytes.lossyText_ne_empty {b : Bytes} (filled : b ≠ []) : lossyText b ≠ "" := by
  obtain ⟨first, rest, rfl⟩ := List.exists_cons_of_ne_nil filled
  have some : lossyFrom 0 (first :: rest) ≠ [] := by
    unfold lossyFrom
    dsimp only
    split
    · simp
    · split <;> simp
  rw [lossyText, ne_eq, ← String.toList_inj, String.toList_ofList]
  exact some

namespace Frame

structure Headed (frame : Frame) : Prop where
  tagged : frame.header.head? = some frame.kind.tag
  feedless : lf ∉ frame.header
  identified : (fieldsOf frame.header)[1]?.getD [] ≠ []

theorem Headed.withMessage {frame : Frame} (headed : frame.Headed) (message : Http.Message) :
    Headed { frame with message } :=
  ⟨headed.tagged, headed.feedless, headed.identified⟩

theorem ofBytes_bytes {frame : Frame} (headed : frame.Headed) : ofBytes frame.bytes = .ok frame := by
  obtain ⟨rest, header⟩ := List.head?_eq_some_iff.1 headed.tagged
  have first : frame.bytes = frame.kind.tag :: (rest ++ lf :: frame.message.bytes) := by
    rw [bytes, header, List.cons_append]
  have cut : cutAt? lf frame.bytes = some (frame.header, frame.message.bytes) :=
    cutAt?_append headed.feedless _
  unfold ofBytes
  split
  · next empty =>
    rw [first] at empty
    cases empty
  · next tag rest whole =>
    rw [first] at whole
    cases whole
    rw [EventKind.ofTag?_eq_some.2 rfl, cut]
    exact if_neg headed.identified

theorem ofBytes_eq_ok {raw : Bytes} {frame : Frame} :
    ofBytes raw = .ok frame ↔ frame.Headed ∧ raw = frame.bytes := by
  constructor
  · intro read
    unfold ofBytes at read
    split at read
    · cases read
    · next tag rest =>
      split at read
      · cases read
      · next kind known =>
        split at read
        · cases read
        · next header message cut =>
          split at read
          · cases read
          · next identified =>
            cases read
            obtain ⟨feedless, whole⟩ := cutAt?_eq_some.1 cut
            have filled : header ≠ [] := by
              rintro rfl
              exact identified rfl
            obtain ⟨first, more, rfl⟩ := List.exists_cons_of_ne_nil filled
            rw [List.cons_append, List.cons.injEq] at whole
            refine ⟨⟨?_, feedless, identified⟩, ?_⟩
            · rw [← EventKind.ofTag?_eq_some.1 known, whole.1]
              rfl
            · rw [whole.1, whole.2]
              rfl
  · rintro ⟨headed, rfl⟩
    exact ofBytes_bytes headed

/-- The bytes are spelled by these fields, between single spaces, and the message of the frame. -/
structure Spells (raw first id : Bytes) (rest : List Bytes) (frame : Frame) : Prop where
  clean : ∀ field ∈ first :: id :: rest, space ∉ field ∧ lf ∉ field
  tagged : first.head? = some frame.kind.tag
  identified : id ≠ []
  header : frame.header = [space].intercalate (first :: id :: rest)
  whole : raw = frame.header ++ lf :: frame.message.bytes

section Spells
variable {raw first id : Bytes} {rest : List Bytes} {frame : Frame}

theorem Spells.fieldsOf_header (spells : Spells raw first id rest frame) :
    fieldsOf frame.header = first :: id :: rest := by
  rw [spells.header, fieldsOf, List.splitOn_intercalate space
    (fun field member => (spells.clean field member).1) (List.cons_ne_nil _ _)]

theorem Spells.headed (spells : Spells raw first id rest frame) : frame.Headed := by
  obtain ⟨more, front⟩ := List.head?_eq_some_iff.1 spells.tagged
  refine ⟨?_, ?_, ?_⟩
  · rw [spells.header, front, List.intercalate_cons_cons]
    rfl
  · intro member
    rw [spells.header] at member
    rcases mem_intercalate member with same | ⟨field, inside, here⟩
    · cases same
    · exact (spells.clean field inside).2 here
  · rw [spells.fieldsOf_header]
    exact spells.identified

theorem Headed.exists_spells (headed : frame.Headed) :
    ∃ first id rest, Spells frame.bytes first id rest frame := by
  have joined : [space].intercalate (fieldsOf frame.header) = frame.header :=
    List.intercalate_splitOn space
  have identified := headed.identified
  have clean : ∀ field ∈ fieldsOf frame.header, space ∉ field ∧ lf ∉ field := by
    intro field member
    obtain ⟨spaceless, inside⟩ := mem_splitOn member
    exact ⟨spaceless, fun feed => headed.feedless (inside feed)⟩
  -- An empty first field would leave a space in front, which is no tag.
  generalize fieldsOf frame.header = fields at joined identified clean
  match fields with
  | [] => exact absurd rfl identified
  | [_] => exact absurd rfl identified
  | first :: id :: rest =>
    refine ⟨first, id, rest, clean, ?_, identified, joined.symm, rfl⟩
    have tagged := headed.tagged
    rw [← joined, List.intercalate_cons_cons, List.append_assoc, List.head?_append] at tagged
    cases front : first.head? with
    | some tag =>
        rw [front] at tagged
        exact tagged
    | none =>
        rw [front] at tagged
        exact absurd (Option.some.inj tagged).symm (EventKind.tag_ne_space frame.kind)

theorem ofBytes_eq_ok_iff_spells :
    ofBytes raw = .ok frame ↔ ∃ first id rest, Spells raw first id rest frame := by
  rw [ofBytes_eq_ok]
  constructor
  · rintro ⟨headed, rfl⟩
    exact headed.exists_spells
  · rintro ⟨first, id, rest, spells⟩
    exact ⟨spells.headed, spells.whole⟩

/-- Bytes are read as a frame if and only if fields spell them, and the frame has these fields. The
first field begins with the tag: of the bytes whose first field is the tag alone, all are read, and
they are the ones whose frame has the tag alone in the first place. -/
theorem accepted_iff_spelled (raw : Bytes) :
    (∀ frame, ofBytes raw = .ok frame ↔ ∃ first id rest, Spells raw first id rest frame) ∧
    (∀ first id rest frame, Spells raw first id rest frame →
      frame.metaFields = (first :: id :: rest).map lossyText ∧
        frame.correlationId = lossyText id ∧ frame.correlationId ≠ "") ∧
    ((∃ id rest frame, Spells raw [frame.kind.tag] id rest frame) ↔
      ∃ frame, ofBytes raw = .ok frame ∧
        (fieldsOf frame.header).head? = some [frame.kind.tag]) := by
  refine ⟨fun frame => ofBytes_eq_ok_iff_spells, ?_, ?_⟩
  · intro first id rest frame spells
    have fields : frame.metaFields = (first :: id :: rest).map lossyText :=
      congrArg (List.map lossyText) spells.fieldsOf_header
    have own : frame.correlationId = lossyText id := by
      rw [correlationId, fields]
      rfl
    exact ⟨fields, own, own ▸ lossyText_ne_empty spells.identified⟩
  · constructor
    · rintro ⟨id, rest, frame, spells⟩
      refine ⟨frame, ofBytes_eq_ok_iff_spells.2 ⟨_, id, rest, spells⟩, ?_⟩
      rw [spells.fieldsOf_header]
      rfl
    · rintro ⟨frame, accepted, tagged⟩
      obtain ⟨first, id, rest, spells⟩ := ofBytes_eq_ok_iff_spells.1 accepted
      rw [spells.fieldsOf_header] at tagged
      cases tagged
      exact ⟨id, rest, frame, spells⟩

/-- A first field that goes on after the tag is read all the same. -/
theorem longer_tag_accepted :
    let raw := ofText "1x id\n"
    ofBytes raw = .ok ⟨.request, ofText "1x id", ⟨[]⟩⟩ ∧
      ¬∃ id rest frame, Spells raw [frame.kind.tag] id rest frame := by
  intro raw
  have accepted : ofBytes raw = .ok ⟨.request, ofText "1x id", ⟨[]⟩⟩ := by decide +kernel
  refine ⟨accepted, ?_⟩
  rintro ⟨id, rest, frame, spells⟩
  cases accepted.symm.trans (ofBytes_eq_ok_iff_spells.2 ⟨_, id, rest, spells⟩)
  have first : (fieldsOf (ofText "1x id")).head? = some [EventKind.request.tag] :=
    congrArg List.head? spells.fieldsOf_header
  exact absurd first (by decide +kernel)

end Spells

end Frame

end CredentialRelay

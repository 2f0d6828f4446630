import Mathlib
import CredentialRelay.Proofs.Frame.Wire
import CredentialRelay.Proofs.Http.Lines
import CredentialRelay.Proofs.Relay.Steps

namespace CredentialRelay.Relay
open Bytes Cache Http

variable {σ : Type} [CredentialCaches σ]
variable {rules : Rules} {order : CookieMap.Order} {room : Option Nat} {line : Bytes}
variable {rest : List Bytes} {caches : σ}

def Passed (line : Bytes) : Prop :=
  ∀ frame, Frame.ofLine line = .ok frame → frame.kind = .recordedResponse

def request? (line : Bytes) : Option Frame :=
  (Frame.ofLine line).toOption.filter (·.kind = .request)

def Echoes (frame : Frame) (line : Bytes) : Prop :=
  ∃ read, Frame.ofLine line = .ok read ∧ read.kind = frame.kind ∧ read.header = frame.header

theorem processLine_passed (passed : Passed line) :
    processLine rules order line caches = (.ok none, caches) := by
  unfold processLine
  cases read : Frame.ofLine line with
  | error fault => rfl
  | ok frame =>
      dsimp only
      rw [process, passed frame read]
      rfl

theorem process_cases (rules : Rules) (order : CookieMap.Order) (frame : Frame) (caches : σ) :
    ∃ outcome message, (process rules order frame caches).1 = (recover outcome).map fun _ =>
      if frame.kind = .request then some { frame with message } else none := by
  unfold process
  cases frame.kind with
  | request =>
      obtain ⟨message, outcome, caches'⟩ := renewRequest rules order frame.message caches
      exact ⟨outcome, message, rfl⟩
  | recordedResponse => exact ⟨.ok (), frame.message, rfl⟩
  | replayedResponse =>
      obtain ⟨outcome, caches'⟩ := learn rules frame.message caches
      exact ⟨outcome, frame.message, rfl⟩

theorem isFatal_of_processLine {error : RelayError}
    (h : (processLine rules order line caches).1 = .error error) : error.isFatal = true := by
  unfold processLine at h
  split at h
  · cases h
  · next frame read =>
    obtain ⟨outcome, message, processed⟩ := process_cases rules order frame caches
    dsimp only at h
    rw [processed] at h
    cases recovered : recover outcome with
    | error fatal =>
        rw [recovered] at h
        cases h
        exact (recover_eq_error.1 recovered).2
    | ok _ =>
        rw [recovered] at h
        cases h

theorem processLine_ok {frame : Frame} {result : Option Bytes}
    (read : Frame.ofLine line = .ok frame)
    (h : (processLine rules order line caches).1 = .ok result) :
    ∃ message, result = if frame.kind = .request then some (Frame.line { frame with message })
      else none := by
  obtain ⟨outcome, message, processed⟩ := process_cases rules order frame caches
  rw [processLine, read] at h
  dsimp only at h
  rw [processed] at h
  refine ⟨message, ?_⟩
  cases recovered : recover outcome with
  | error fatal =>
      rw [recovered] at h
      cases h
  | ok _ =>
      rw [recovered] at h
      cases h
      split <;> rfl

theorem processLine_echoes {result : Option Bytes}
    (h : (processLine rules order line caches).1 = .ok result) :
    Option.Rel Echoes (request? line) result := by
  cases read : Frame.ofLine line with
  | error fault =>
      rw [processLine, read] at h
      cases h
      rw [request?, read]
      exact .none
  | ok frame =>
      obtain ⟨message, rfl⟩ := processLine_ok read h
      rw [request?, read]
      by_cases request : frame.kind = .request
      · have headed := (Frame.ofLine_eq_ok.1 read).1.withMessage message
        rw [if_pos request, Except.toOption, Option.filter_some, if_pos (decide_eq_true request)]
        exact .some ⟨_, Frame.ofLine_line headed, rfl, rfl⟩
      · rw [if_neg request, Except.toOption, Option.filter_some,
          if_neg (by rwa [decide_eq_true_eq])]
        exact .none

abbrev Result := Except RelayError (Option Bytes)

def results (rules : Rules) (order : CookieMap.Order) (lines : List Bytes) (caches : σ) :
    List Result × σ :=
  lines.foldl (fun (done, caches) line =>
    let (result, caches) := processLine rules order line caches
    (done ++ [result], caches)) ([], caches)

def written (results : List Result) : List Bytes :=
  results.filterMap fun result => result.toOption.join

structure Undisturbed (rules : Rules) (order : CookieMap.Order) (room : Option Nat)
    (lines : List Bytes) (caches : σ) : Prop where
  ok : ∀ result ∈ (results rules order lines caches).1, ∃ out, result = .ok out
  room : ∀ n ∈ room, (written (results rules order lines caches).1).length ≤ n

inductive Halts (rules : Rules) (order : CookieMap.Order) (room : Option Nat)
    (before : List Bytes) (line : Bytes) (caches : σ) : RelayError → Prop
  | failed {error : RelayError} (fatal : error.isFatal = true)
      (h : (processLine rules order line (results rules order before caches).2).1 = .error error) :
      Halts rules order room before line caches error
  | unwritten {out : Bytes}
      (h : (processLine rules order line (results rules order before caches).2).1 = .ok (some out))
      (full : room = some (written (results rules order before caches).1).length) :
      Halts rules order room before line caches writeFailure

theorem results_cons (rules : Rules) (order : CookieMap.Order) (line : Bytes) (rest : List Bytes)
    (caches : σ) :
    results rules order (line :: rest) caches =
      ((processLine rules order line caches).1 ::
          (results rules order rest (processLine rules order line caches).2).1,
        (results rules order rest (processLine rules order line caches).2).2) := by
  have shift (done : List Result) (lines : List Bytes) (caches : σ) :
      lines.foldl (fun (done, caches) line =>
        let (result, caches) := processLine rules order line caches
        (done ++ [result], caches)) (done, caches) =
      (done ++ (results rules order lines caches).1, (results rules order lines caches).2) := by
    induction lines generalizing done caches with
    | nil => simp [results]
    | cons line lines ih =>
        rw [List.foldl_cons, results, List.foldl_cons, ih, ih]
        simp
  rw [results, List.foldl_cons, shift]
  rfl

theorem written_some (out : Bytes) (rest : List Result) :
    written (.ok (some out) :: rest) = out :: written rest := rfl

theorem undisturbed_cons_none {caches' : σ}
    (processed : processLine rules order line caches = (.ok none, caches')) :
    Undisturbed rules order room (line :: rest) caches ↔ Undisturbed rules order room rest caches' := by
  constructor
  · rintro ⟨ok, enough⟩
    rw [results_cons, processed] at ok enough
    exact ⟨fun result member => ok result (List.mem_cons_of_mem _ member), enough⟩
  · rintro ⟨ok, enough⟩
    refine ⟨?_, ?_⟩
    · rw [results_cons, processed]
      exact List.forall_mem_cons.2 ⟨⟨none, rfl⟩, ok⟩
    · rw [results_cons, processed]
      exact enough

theorem undisturbed_cons_some {out : Bytes} {caches' : σ} (space : room ≠ some 0)
    (processed : processLine rules order line caches = (.ok (some out), caches')) :
    Undisturbed rules order room (line :: rest) caches ↔
      Undisturbed rules order (room.map (· - 1)) rest caches' := by
  have enough (count : Nat) : (∀ n ∈ room, count + 1 ≤ n) ↔ ∀ n ∈ room.map (· - 1), count ≤ n := by
    cases room with
    | none => simp
    | some n =>
        have positive : n ≠ 0 := fun zero => space (congrArg some zero)
        simp only [Option.mem_def, Option.map_some, Option.some.injEq, forall_eq']
        omega
  constructor
  · rintro ⟨ok, fits⟩
    rw [results_cons, processed] at ok fits
    exact ⟨fun result member => ok result (List.mem_cons_of_mem _ member), (enough _).1 fits⟩
  · rintro ⟨ok, fits⟩
    refine ⟨?_, ?_⟩
    · rw [results_cons, processed]
      exact List.forall_mem_cons.2 ⟨⟨some out, rfl⟩, ok⟩
    · rw [results_cons, processed]
      exact (enough _).2 fits

theorem runLines_of_undisturbed {lines : List Bytes} (calm : Undisturbed rules order room lines caches) :
    runLines rules order room lines caches =
      ⟨lines.length, written (results rules order lines caches).1, none,
        (results rules order lines caches).2⟩ := by
  induction lines generalizing room caches with
  | nil => rfl
  | cons line rest ih =>
      rcases processed : processLine rules order line caches with ⟨result, caches'⟩
      rw [results_cons, runLines, processed]
      cases result with
      | error error =>
          have first := calm.ok (.error error)
          rw [results_cons, processed] at first
          obtain ⟨out, same⟩ := first List.mem_cons_self
          cases same
      | ok out =>
          cases out with
          | none =>
              dsimp only
              rw [ih ((undisturbed_cons_none processed).1 calm)]
              rfl
          | some out =>
              have space : room ≠ some 0 := by
                rintro rfl
                have count := calm.room 0 rfl
                rw [results_cons, processed, written_some] at count
                exact absurd count (Nat.not_succ_le_zero _)
              dsimp only
              rw [if_neg space, ih ((undisturbed_cons_some space processed).1 calm)]
              rfl

theorem undisturbed_nil (rules : Rules) (order : CookieMap.Order) (room : Option Nat) (caches : σ) :
    Undisturbed rules order room [] caches :=
  ⟨fun _ member => (List.not_mem_nil member).elim, fun n _ => Nat.zero_le n⟩

theorem Halts.cons_none {before : List Bytes} {last : Bytes} {caches' : σ} {error : RelayError}
    (processed : processLine rules order line caches = (.ok none, caches'))
    (halts : Halts rules order room before last caches' error) :
    Halts rules order room (line :: before) last caches error := by
  cases halts with
  | failed fatal h => exact .failed fatal (by rwa [results_cons, processed])
  | unwritten h full =>
      refine .unwritten (by rw [results_cons, processed]; exact h) ?_
      rw [results_cons, processed]
      exact full

theorem Halts.cons_some {before : List Bytes} {last out : Bytes} {caches' : σ} {error : RelayError}
    (space : room ≠ some 0) (processed : processLine rules order line caches = (.ok (some out), caches'))
    (halts : Halts rules order (room.map (· - 1)) before last caches' error) :
    Halts rules order room (line :: before) last caches error := by
  cases halts with
  | failed fatal h => exact .failed fatal (by rwa [results_cons, processed])
  | unwritten h full =>
      refine .unwritten (by rw [results_cons, processed]; exact h) ?_
      rw [results_cons, processed]
      obtain ⟨n, rfl, less⟩ := Option.map_eq_some_iff.1 full
      have positive : n ≠ 0 := fun zero => space (congrArg some zero)
      rw [written_some, List.length_cons, ← less]
      exact congrArg some (by omega)

theorem runLines_of_disturbed {lines : List Bytes}
    (disturbed : ¬Undisturbed rules order room lines caches) :
    ∃ before line rest error, lines = before ++ line :: rest ∧
      Undisturbed rules order room before caches ∧ Halts rules order room before line caches error ∧
      runLines rules order room lines caches =
        ⟨before.length + 1, written (results rules order before caches).1, some error,
          (processLine rules order line (results rules order before caches).2).2⟩ := by
  induction lines generalizing room caches with
  | nil => exact absurd (undisturbed_nil rules order room caches) disturbed
  | cons line rest ih =>
      rcases processed : processLine rules order line caches with ⟨result, caches'⟩
      rw [runLines, processed]
      cases result with
      | error error =>
          have failed : (processLine rules order line caches).1 = .error error := by rw [processed]
          refine ⟨[], line, rest, error, rfl, undisturbed_nil rules order room caches,
            .failed (isFatal_of_processLine failed) failed, ?_⟩
          simp [results, written, processed]
      | ok out =>
          cases out with
          | none =>
              rw [undisturbed_cons_none processed] at disturbed
              obtain ⟨before, last, rest, error, rfl, calm, halts, run⟩ := ih disturbed
              refine ⟨line :: before, last, rest, error, rfl,
                (undisturbed_cons_none processed).2 calm, halts.cons_none processed, ?_⟩
              dsimp only
              rw [run, results_cons, processed]
              rfl
          | some out =>
              by_cases full : room = some 0
              · subst full
                have taken : (processLine rules order line caches).1 = .ok (some out) := by rw [processed]
                refine ⟨[], line, rest, writeFailure, rfl, undisturbed_nil rules order _ caches,
                  .unwritten taken rfl, ?_⟩
                simp [results, written, processed]
              · rw [undisturbed_cons_some full processed] at disturbed
                obtain ⟨before, last, rest, error, rfl, calm, halts, run⟩ := ih disturbed
                refine ⟨line :: before, last, rest, error, rfl,
                  (undisturbed_cons_some full processed).2 calm, halts.cons_some full processed, ?_⟩
                dsimp only
                rw [if_neg full, run, results_cons, processed]
                rfl

theorem forall₂_echoes {lines : List Bytes}
    (ok : ∀ result ∈ (results rules order lines caches).1, ∃ out, result = .ok out) :
    List.Forall₂ Echoes (lines.filterMap request?) (written (results rules order lines caches).1) := by
  induction lines generalizing caches with
  | nil => exact .nil
  | cons line rest ih =>
      rw [results_cons, List.forall_mem_cons] at ok
      obtain ⟨⟨result, processed⟩, later⟩ := ok
      have echoes := processLine_echoes processed
      rw [results_cons, processed]
      cases result with
      | none =>
          cases asked : request? line with
          | none =>
              rw [List.filterMap_cons_none asked]
              exact ih later
          | some frame =>
              rw [asked] at echoes
              cases echoes
      | some out =>
          cases asked : request? line with
          | none =>
              rw [asked] at echoes
              cases echoes
          | some frame =>
              rw [asked] at echoes
              cases echoes with
              | some echoes =>
                  rw [List.filterMap_cons_some asked]
                  exact .cons echoes (ih later)

def heard? (line : Bytes) : Option Frame :=
  (Frame.ofLine line).toOption.filter (·.kind ≠ .recordedResponse)

def Report.effect (report : Report σ) : List Bytes × Option RelayError × σ :=
  (report.written, report.failure, report.caches)

theorem heard?_eq_none : heard? line = none ↔ Passed line := by
  unfold heard? Passed
  cases Frame.ofLine line with
  | error fault => simp [Except.toOption]
  | ok frame => simp [Except.toOption, Option.filter]

theorem heard?_eq_some {frame : Frame} (h : heard? line = some frame) :
    Frame.ofLine line = .ok frame := by
  unfold heard? at h
  cases read : Frame.ofLine line with
  | error fault => simp [read, Except.toOption] at h
  | ok found =>
      rw [read] at h
      obtain ⟨same, -⟩ := Option.filter_eq_some_iff.1 h
      cases same
      rfl

theorem processLine_congr {line' : Bytes} (same : Frame.ofLine line' = Frame.ofLine line) :
    processLine rules order line' caches = processLine rules order line caches := by
  rw [processLine, processLine, same]

theorem effect_heard (rules : Rules) (order : CookieMap.Order) (room : Option Nat)
    (lines : List Bytes) (caches : σ) :
    (runLines rules order room ((lines.filterMap heard?).map Frame.line) caches).effect =
      (runLines rules order room lines caches).effect := by
  induction lines generalizing room caches with
  | nil => rfl
  | cons line rest ih =>
      cases found : heard? line with
      | none =>
          rw [List.filterMap_cons_none found, ih, runLines.eq_2,
            processLine_passed (heard?_eq_none.1 found)]
          rfl
      | some frame =>
          have read := heard?_eq_some found
          have back := Frame.ofLine_line (Frame.ofLine_eq_ok.1 read).1
          rw [List.filterMap_cons_some found, List.map_cons, runLines, runLines,
            processLine_congr (back.trans read.symm)]
          obtain ⟨result, caches'⟩ := processLine rules order line caches
          cases result with
          | error error => rfl
          | ok out =>
              cases out with
              | none => exact ih room caches'
              | some out =>
                  dsimp only
                  split
                  · rfl
                  · have later := ih (room.map (· - 1)) caches'
                    simp only [Report.effect, Prod.mk.injEq] at later ⊢
                    exact ⟨congrArg (out :: ·) later.1, later.2⟩

theorem lines_texts {texts : List Bytes} {last : Bytes} (clean : ∀ text ∈ texts, lf ∉ text)
    (open_ : lf ∉ last) :
    lines ((texts.map (· ++ [lf])).flatten ++ last) =
      texts.map (· ++ [lf]) ++ if last = [] then [] else [last] := by
  rw [Http.lines_flatten_append]
  · split
    · next empty => rw [empty]; rfl
    · next filled => rw [Http.lines_of_lf_notMem filled open_]
  · intro line member
    obtain ⟨text, inside, rfl⟩ := List.mem_map.1 member
    exact ⟨text, clean text inside, rfl⟩

theorem heard?_text (text : Bytes) : heard? (text ++ [lf]) = heard? text := by
  have blank : ∀ b ∈ [lf], isAsciiBlank b = true := by simp [isAsciiBlank]
  have same : Frame.ofLine (text ++ [lf]) = Frame.ofLine text := by
    rw [Frame.ofLine, Frame.ofLine, trimBy_append_right blank]
  rw [heard?, heard?, same]

theorem heard_intercalate {texts : List Bytes} (clean : ∀ text ∈ texts, lf ∉ text) :
    (lines ([lf].intercalate texts)).filterMap heard? = texts.filterMap heard? := by
  rcases List.eq_nil_or_concat' texts with rfl | ⟨front, last, rfl⟩
  · rfl
  · rw [List.forall_mem_append, List.forall_mem_singleton] at clean
    rw [intercalate_concat, lines_texts clean.1 clean.2, List.filterMap_append,
      List.filterMap_append, List.filterMap_map]
    congr 1
    · exact congrArg (front.filterMap ·) (funext heard?_text)
    · split
      · next empty => rw [empty]; rfl
      · rfl

theorem effect_intercalate {texts : List Bytes} (clean : ∀ text ∈ texts, lf ∉ text) :
    (run rules order room ([lf].intercalate texts) caches).effect =
      (runLines rules order room ((texts.filterMap heard?).map Frame.line) caches).effect := by
  rw [run, ← effect_heard, heard_intercalate clean]

theorem exists_texts (input : Bytes) :
    ∃ (texts : List Bytes) (last : Bytes), (∀ text ∈ texts, lf ∉ text) ∧ lf ∉ last ∧
      input = (texts.map (· ++ [lf])).flatten ++ last := by
  obtain ⟨texts, last, cut⟩ := (List.eq_nil_or_concat' (input.splitOn lf)).resolve_left
    (List.splitOn_ne_nil lf input)
  have clean (text : Bytes) (member : text ∈ texts ++ [last]) : lf ∉ text :=
    (mem_splitOn (cut ▸ member)).1
  refine ⟨texts, last, fun text member => clean text (List.mem_append_left _ member),
    clean last (by simp), ?_⟩
  rw [← intercalate_concat, ← cut, List.intercalate_splitOn]

/-- The stream is the lines between line feeds, a last one without a line feed included, one after
another. It goes to its end, or to the first line that fails or that the writer does not take. What was
written by then is one line for each request, in order, with the kind and the header line of that
request. Lines that are passed over can be put anywhere. -/
theorem stream_processed_in_order (rules : Rules) (order : CookieMap.Order)
    (room : Option Nat) (input : Bytes) (caches : σ) :
    let all := lines input
    (∃ (texts : List Bytes) (last : Bytes), (∀ text ∈ texts, lf ∉ text) ∧ lf ∉ last ∧
      input = (texts.map (· ++ [lf])).flatten ++ last ∧
      all = texts.map (· ++ [lf]) ++ if last = [] then [] else [last]) ∧
    (Undisturbed rules order room all caches →
      run rules order room input caches =
        ⟨all.length, written (results rules order all caches).1, none,
          (results rules order all caches).2⟩ ∧
      (run rules order room input caches).written.length = (all.filterMap request?).length) ∧
    (¬Undisturbed rules order room all caches →
      ∃ before line rest error, all = before ++ line :: rest ∧
        Undisturbed rules order room before caches ∧
        Halts rules order room before line caches error ∧
        run rules order room input caches =
          ⟨before.length + 1, written (results rules order before caches).1, some error,
            (processLine rules order line (results rules order before caches).2).2⟩) ∧
    (∀ before, before <+: all → Undisturbed rules order room before caches →
      List.Forall₂ Echoes (before.filterMap request?)
        (written (results rules order before caches).1)) ∧
    (∀ front passed back : List Bytes, (∀ text ∈ front ++ passed ++ back, lf ∉ text) →
      (∀ text ∈ passed, Passed text) → input = [lf].intercalate (front ++ back) →
      (run rules order room ([lf].intercalate (front ++ passed ++ back)) caches).effect =
        (run rules order room input caches).effect) := by
  intro all
  refine ⟨?_, fun calm => ?_, runLines_of_disturbed, fun before _ calm => forall₂_echoes calm.ok, ?_⟩
  · obtain ⟨texts, last, clean, open_, whole⟩ := exists_texts input
    exact ⟨texts, last, clean, open_, whole, by rw [← lines_texts clean open_, ← whole]⟩
  · have report : run rules order room input caches = _ := runLines_of_undisturbed calm
    exact ⟨report, by rw [report, (forall₂_echoes calm.ok).length_eq]⟩
  · rintro front passed back clean unheard rfl
    have silent : passed.filterMap heard? = [] :=
      List.filterMap_eq_nil_iff.2 fun text member => heard?_eq_none.2 (unheard text member)
    have clean' : ∀ text ∈ front ++ back, lf ∉ text := by
      intro text member
      refine clean text ?_
      rcases List.mem_append.1 member with first | second
      · exact List.mem_append_left _ (List.mem_append_left _ first)
      · exact List.mem_append_right _ second
    rw [effect_intercalate clean, effect_intercalate clean', List.filterMap_append,
      List.filterMap_append, List.filterMap_append, silent, List.append_nil]

theorem passed_lines_leave_no_trace :
    let caches := LocalCaches.empty 1000
    let input := ofText "3120610a\n\nzz\n3220610a\n3120620a"
    (run {} .arrival none input caches).written = [ofText "3120610a\n", ofText "3120620a\n"] ∧
      (run {} .arrival (some 1) input caches).written = [ofText "3120610a\n"] ∧
      (run {} .arrival (some 1) input caches).failure = some writeFailure := by
  intro caches input
  have passed : ∀ text ∈ [[], ofText "zz", ofText "3220610a"], Passed text := by
    have silent : ∀ text ∈ [[], ofText "zz", ofText "3220610a"], heard? text = none := by
      decide +kernel
    exact fun text member => heard?_eq_none.1 (silent text member)
  have effect (room : Option Nat) : (run {} .arrival room input caches).effect =
      (run {} .arrival room (ofText "3120610a\n3120620a") caches).effect := by
    obtain ⟨-, -, -, -, spare⟩ :=
      stream_processed_in_order {} .arrival room (ofText "3120610a\n3120620a") caches
    exact spare [ofText "3120610a"] _ [ofText "3120620a"] (by decide +kernel) passed
      (by decide +kernel)
  have written (room : Option Nat) := congrArg Prod.fst (effect room)
  have failure := congrArg (fun effect => effect.2.1) (effect (some 1))
  simp only [Report.effect] at written failure
  rw [written, written, failure]
  decide +kernel

end CredentialRelay.Relay

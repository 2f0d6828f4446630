import Mathlib
import CredentialRelay.CommandLine
import CredentialRelay.Proofs.Bytes.Utf8

namespace CredentialRelay

namespace Settings

structure Usable (settings : Settings) : Prop where
  ttl : settings.ttlSeconds ≠ 0
  sweep : settings.sweepMillis ≠ 0
  address : settings.backend = .redis → ∃ address, settings.address = some address ∧ address ≠ ""
  names : ∀ name ∈ [settings.rules.sessionCookie, settings.rules.accessTokenHeader,
    settings.rules.problemEndpoint, settings.rules.lessonClaim], Text.trim name ≠ ""
  paths : ∀ path ∈ [settings.rules.accessTokenPath, settings.rules.problemsPath],
    path ≠ [] ∧ "" ∉ path

variable {settings : Settings}

theorem isBadPath_eq_false {path : List String} :
    isBadPath path = false ↔ path ≠ [] ∧ "" ∉ path := by
  rw [isBadPath, Bool.or_eq_false_iff, List.isEmpty_eq_false_iff, List.any_eq_false]
  simp only [decide_eq_true_eq]
  exact and_congr_right' ⟨fun all member => all "" member rfl,
    fun absent name member same => absent (same ▸ member)⟩

theorem all_empty_eq_false {address : Option String} :
    address.all (· = "") = false ↔ ∃ given, address = some given ∧ given ≠ "" := by
  cases address <;> simp

theorem fault?_eq_none : settings.fault? = none ↔ settings.Usable := by
  simp only [fault?, checks, Option.map_eq_none_iff, List.find?_eq_none, List.forall_mem_cons,
    Bool.not_eq_true, Bool.and_eq_false_imp, decide_eq_false_iff_not, decide_eq_true_eq,
    isBlankText, isBadPath_eq_false, all_empty_eq_false]
  constructor
  · rintro ⟨ttl, sweep, address, cookie, header, endpoint, claim, token, problems, -⟩
    exact
      { ttl, sweep, address
        names := by simp [cookie, header, endpoint, claim]
        paths := by simp [token, problems] }
  · rintro ⟨ttl, sweep, address, names, paths⟩
    simp only [List.forall_mem_cons] at names paths
    obtain ⟨cookie, header, endpoint, claim, -⟩ := names
    exact ⟨ttl, sweep, address, cookie, header, endpoint, claim, paths.1, paths.2.1, by simp⟩

theorem validate_eq_ok (usable : settings.Usable) : settings.validate = .ok settings := by
  rw [validate, fault?_eq_none.2 usable]

theorem validate_eq_error (unusable : ¬settings.Usable) :
    ∃ fault, settings.fault? = some fault ∧
      settings.validate = .error (.badSettings fault.message) := by
  obtain ⟨fault, found⟩ := Option.ne_none_iff_exists'.1 (mt fault?_eq_none.1 unusable)
  exact ⟨fault, found, by rw [validate, found]⟩

end Settings

namespace CommandLine

variable {options : Options} {environment : Option String} {file : String → Option Bytes}
  {parsed merged : Settings}

inductive Source (options : Options) (environment : Option String) (file : String → Option Bytes) :
    Settings → Prop where
  | unset (plain : options.config = none) : Source options environment file (.default environment)
  | file {name : String} {bytes : Bytes} {text : String} {document : Toml} {parsed : Settings}
      (named : options.config = some name) (held : file name = some bytes)
      (decoded : Bytes.text? bytes = some text) (read : Toml.ofText? text = some document)
      (said : Settings.ofToml? environment document = some parsed) :
      Source options environment file parsed

/-- The settings with what the options replace. An empty address replaces nothing. -/
structure Merged (options : Options) (environment : Option String) (parsed merged : Settings) :
    Prop where
  ttlSeconds : merged.ttlSeconds = options.ttlSeconds.getD parsed.ttlSeconds
  backend : merged.backend = options.backend.getD parsed.backend
  address : ∀ url, options.address.or environment = some url → url ≠ "" →
    merged.address = some (Settings.normalizeAddress url)
  address_kept : (∀ url, options.address.or environment = some url → url = "") →
    merged.address = parsed.address
  sweepMillis : merged.sweepMillis = parsed.sweepMillis
  rules : merged.rules = parsed.rules

theorem merged_apply (options : Options) (environment : Option String) (parsed : Settings) :
    Merged options environment parsed (options.apply environment parsed) where
  ttlSeconds := rfl
  backend := rfl
  address := by
    intro url given filled
    simp [Options.apply, given, filled]
  address_kept := by
    intro empty
    have none : (options.address.or environment).filter (· ≠ "") = none := by
      simpa [Option.filter_eq_none_iff] using empty
    show (Option.map _ _).or _ = _
    rw [none, Option.map_none, Option.none_or]
  sweepMillis := rfl
  rules := rfl

theorem Merged.eq_apply (replaced : Merged options environment parsed merged) :
    merged = options.apply environment parsed := by
  have other := merged_apply options environment parsed
  have address : merged.address = (options.apply environment parsed).address := by
    by_cases empty : ∀ url, options.address.or environment = some url → url = ""
    · rw [replaced.address_kept empty, other.address_kept empty]
    · push Not at empty
      obtain ⟨url, given, filled⟩ := empty
      rw [replaced.address url given filled, other.address url given filled]
  calc
    merged = ⟨merged.ttlSeconds, merged.sweepMillis, merged.backend, merged.address, merged.rules⟩ :=
      rfl
    _ = options.apply environment parsed := by
      rw [replaced.ttlSeconds, replaced.sweepMillis, replaced.backend, address, replaced.rules]
      rfl

theorem startingSettings_of_usable (source : Source options environment file parsed)
    (usable : options.config = none ∨ parsed.Usable) :
    startingSettings options environment file = .ok parsed := by
  cases source with
  | unset plain => rw [startingSettings, plain]
  | file named held decoded read said =>
      have usable := usable.resolve_left (by simp [named])
      simp only [startingSettings, named, held, Settings.ofFile, decoded, read, Option.bind_some, said,
        Settings.validate_eq_ok usable]
      rfl

theorem startingSettings_of_unusable (source : Source options environment file parsed)
    {name : String} (named : options.config = some name) (unusable : ¬parsed.Usable) :
    startingSettings options environment file = .error (.loading name) := by
  cases source with
  | unset plain => cases named.symm.trans plain
  | file named' held decoded read said =>
      cases named'.symm.trans named
      obtain ⟨fault, -, refused⟩ := Settings.validate_eq_error unusable
      simp only [startingSettings, named, held, Settings.ofFile, decoded, read, Option.bind_some, said,
        refused]
      rfl

theorem load_of_usable (source : Source options environment file parsed)
    (replaced : Merged options environment parsed merged)
    (usable : options.config = none ∨ parsed.Usable) :
    load options environment file = merged.validate.mapError .settings := by
  rw [load, startingSettings_of_usable source usable, replaced.eq_apply]
  rfl

theorem load_of_unusable (source : Source options environment file parsed) {name : String}
    (named : options.config = some name) (unusable : ¬parsed.Usable) :
    load options environment file = .error (.loading name) := by
  rw [load, startingSettings_of_unusable source named unusable]
  rfl

theorem Merged.unusable_iff (replaced : Merged options environment parsed merged)
    (usable : merged.Usable) :
    ¬parsed.Usable ↔ parsed.ttlSeconds = 0 ∨
      parsed.backend = .redis ∧ ∀ address, parsed.address = some address → address = "" := by
  rw [not_iff_comm]
  constructor
  · intro sound
    simp only [not_or, not_and, not_forall] at sound
    exact
      { ttl := sound.1
        sweep := replaced.sweepMillis ▸ usable.sweep
        address := fun redis =>
          let ⟨address, given, filled⟩ := sound.2 redis
          ⟨address, given, filled⟩
        names := replaced.rules ▸ usable.names
        paths := replaced.rules ▸ usable.paths }
  · rintro sound (zero | ⟨redis, empty⟩)
    · exact sound.ttl zero
    · obtain ⟨address, given, filled⟩ := sound.address redis
      exact filled (empty address given)

/-- Merged settings are loaded if they are usable, and with a file only if its own are usable too.
Where only those of the file are not, an option stands in for the time or the address at fault. -/
theorem load_judges_twice (source : Source options environment file parsed)
    (replaced : Merged options environment parsed merged) :
    (load options environment file = .ok merged ↔
      merged.Usable ∧ (options.config = none ∨ parsed.Usable)) ∧
    (options.config = none ∨ parsed.Usable →
      load options environment file = merged.validate.mapError .settings) ∧
    (∀ name, options.config = some name → ¬parsed.Usable →
      load options environment file = .error (.loading name)) ∧
    (merged.Usable → (¬parsed.Usable ↔ parsed.ttlSeconds = 0 ∨
      parsed.backend = .redis ∧ ∀ address, parsed.address = some address → address = "")) := by
  refine ⟨⟨fun loaded => ?_, fun ⟨usable, judged⟩ => ?_⟩, load_of_usable source replaced,
    fun name => load_of_unusable source, replaced.unusable_iff⟩
  · have judged : options.config = none ∨ parsed.Usable := by
      by_contra unusable
      obtain ⟨named, unusable⟩ := not_or.1 unusable
      obtain ⟨name, named⟩ := Option.ne_none_iff_exists'.1 named
      cases loaded.symm.trans (load_of_unusable source named unusable)
    refine ⟨?_, judged⟩
    by_contra unusable
    obtain ⟨fault, -, refused⟩ := Settings.validate_eq_error unusable
    rw [load_of_usable source replaced judged, refused] at loaded
    cases loaded
  · rw [load_of_usable source replaced judged, Settings.validate_eq_ok usable]
    rfl

theorem redis_file_loaded :
    let options : Options := { config := some "f", ttlSeconds := some 5, address := some "" }
    let file : String → Option Bytes :=
      fun _ => some (Bytes.ofText "backend = \"redis\"\nredis_url = \"a\"")
    let parsed : Settings :=
      { Settings.default (some "b:1") with backend := .redis, address := some "a" }
    Source options (some "b:1") file parsed ∧
      load options (some "b:1") file = .ok { parsed with ttlSeconds := 5 } := by
  intro options file parsed
  have read : Toml.ofText? "backend = \"redis\"\nredis_url = \"a\"" =
      some (.table .header [("backend", .string "redis"), ("redis_url", .string "a")]) := by
    cbv
  have said : Settings.ofToml? (some "b:1")
      (.table .header [("backend", .string "redis"), ("redis_url", .string "a")]) =
        some parsed := by
    cbv
  have source : Source options (some "b:1") file parsed :=
    .file rfl rfl (Bytes.text?_ofText _) read said
  have usable : parsed.Usable := Settings.fault?_eq_none.1 (by decide +kernel)
  have usable' : ({ parsed with ttlSeconds := 5 } : Settings).Usable :=
    Settings.fault?_eq_none.1 (by decide +kernel)
  exact ⟨source, (load_judges_twice source (merged_apply options (some "b:1") parsed)).1.2
    ⟨usable', .inr usable⟩⟩

theorem zero_ttl_refused :
    let options : Options := { config := some "f", ttlSeconds := some 5 }
    let file : String → Option Bytes := fun _ => some (Bytes.ofText "ttl_secs = 0\n")
    let merged : Settings := { Settings.default none with ttlSeconds := 5 }
    Source options none file { merged with ttlSeconds := 0 } ∧
      Merged options none { merged with ttlSeconds := 0 } merged ∧
      merged.validate = .ok merged ∧ load options none file = .error (.loading "f") := by
  intro options file merged
  have read : Toml.ofText? "ttl_secs = 0\n" = some (.table .header [("ttl_secs", .integer 0)]) := by
    cbv
  have said : Settings.ofToml? none (.table .header [("ttl_secs", .integer 0)]) =
      some { merged with ttlSeconds := 0 } := by
    cbv
  have source : Source options none file { merged with ttlSeconds := 0 } :=
    .file rfl rfl (Bytes.text?_ofText _) read said
  have replaced : Merged options none { merged with ttlSeconds := 0 } merged := merged_apply _ _ _
  exact ⟨source, replaced, by decide +kernel,
    load_of_unusable source rfl fun usable => usable.ttl rfl⟩

end CommandLine

end CredentialRelay

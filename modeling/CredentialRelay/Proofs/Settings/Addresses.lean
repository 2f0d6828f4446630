import Mathlib
import CredentialRelay.Proofs.Settings.Precedence
import CredentialRelay.Proofs.Toml.Texts

namespace CredentialRelay

namespace Settings

variable {address : String} {environment : Option String} {parsed : Settings}

def IsUrl (address : String) : Prop := ∃ before after, address = before ++ "://" ++ after

theorem isInfixOf_iff {part cs : List Char} : isInfixOf part cs = true ↔ part <:+: cs := by
  induction cs with
  | nil => rw [isInfixOf, List.isEmpty_iff, List.infix_nil]
  | cons c cs ih =>
      rw [isInfixOf, Bool.or_eq_true, List.isPrefixOf_iff_prefix, ih, List.infix_cons_iff]

theorem isUrl_iff : IsUrl address ↔ "://".toList <:+: address.toList := by
  constructor
  · rintro ⟨before, after, rfl⟩
    exact ⟨before.toList, after.toList, by simp⟩
  · rintro ⟨before, after, whole⟩
    refine ⟨String.ofList before, String.ofList after, String.toList_inj.1 ?_⟩
    rw [← whole]
    simp

theorem normalizeAddress_of_isUrl (url : IsUrl address) : normalizeAddress address = address :=
  if_pos (isInfixOf_iff.2 (isUrl_iff.1 url))

theorem normalizeAddress_of_bare (bare : ¬IsUrl address) :
    normalizeAddress address = "redis://" ++ address :=
  if_neg fun inside => bare (isUrl_iff.2 (isInfixOf_iff.1 inside))

theorem normalizeAddress_eq_self_iff : normalizeAddress address = address ↔ IsUrl address := by
  refine ⟨fun same => ?_, normalizeAddress_of_isUrl⟩
  by_contra bare
  rw [normalizeAddress_of_bare bare] at same
  have length := congrArg String.length same
  simp at length

theorem normalizeAddress_ne_empty (filled : address ≠ "") : normalizeAddress address ≠ "" := by
  by_cases url : IsUrl address
  · rwa [normalizeAddress_of_isUrl url]
  · rw [normalizeAddress_of_bare url]
    intro empty
    have length := congrArg String.length empty
    simp at length

theorem addressFromEnvironment_eq (filled : address ≠ "") :
    addressFromEnvironment (some address) = some (normalizeAddress address) := by
  simp [addressFromEnvironment, filled]

theorem Node.lookup_ofTomlEntries (name : String) (entries : Toml.Entries) :
    (ofTomlEntries entries).lookup name = (entries.lookup name).map ofToml := by
  induction entries with
  | nil => rfl
  | cons entry entries ih =>
      rw [ofTomlEntries, ofTomlEntry, List.lookup_cons, List.lookup_cons, ih]
      split <;> rfl

theorem address_ofToml? {entries : Toml.Entries} {origin : Toml.Origin}
    (said : ofToml? environment (.table origin entries) = some parsed) :
    Node.field? Node.optionalText? (Node.ofTomlEntries entries) "redis_url"
      (addressFromEnvironment environment) = some parsed.address := by
  simp only [ofToml?, Node.ofToml, Node.settings?, Node.fields?, Option.bind_eq_bind,
    Option.bind_some, Option.bind_eq_some_iff] at said
  obtain ⟨_, -, _, -, _, -, address, read, _, -, same⟩ := said
  cases same
  exact read

theorem address_of_entry {entries : Toml.Entries} {origin : Toml.Origin}
    (said : ofToml? environment (.table origin entries) = some parsed)
    (entry : entries.lookup "redis_url" = some (.string address)) : parsed.address = some address := by
  have read := address_ofToml? said
  rw [Node.field?, Node.lookup_ofTomlEntries, entry] at read
  exact (Option.some.inj read).symm

theorem address_of_silent {entries : Toml.Entries} {origin : Toml.Origin}
    (said : ofToml? environment (.table origin entries) = some parsed)
    (silent : entries.lookup "redis_url" = none) :
    parsed.address = addressFromEnvironment environment := by
  have read := address_ofToml? said
  rw [Node.field?, Node.lookup_ofTomlEntries, silent] at read
  exact (Option.some.inj read).symm

theorem eq_of_validate {validated : Settings} (judged : parsed.validate = .ok validated) :
    validated = parsed := by
  rw [validate] at judged
  split at judged
  · cases judged
  · exact (Except.ok.inj judged).symm

theorem exists_document {bytes : Bytes} (read : ofFile environment bytes = .ok parsed) :
    ∃ text document, Bytes.text? bytes = some text ∧ Toml.ofText? text = some document ∧
      ofToml? environment document = some parsed := by
  rw [ofFile] at read
  split at read
  · cases read
  · next text decoded =>
    split at read
    · cases read
    · next settings said =>
      obtain ⟨document, shaped, said⟩ := Option.bind_eq_some_iff.1 said
      exact ⟨text, document, decoded, shaped, eq_of_validate read ▸ said⟩

theorem ofToml?_entry (environment : Option String) (address : String) :
    ofToml? environment (.table .header [("redis_url", .string address)]) =
      some { Settings.default environment with address := some address } :=
  rfl

end Settings

namespace CommandLine

inductive Way where
  | option
  | environment
  | file
deriving DecidableEq

def Way.meaning (address : String) : Way → String
  | option => Settings.normalizeAddress address
  | environment => Settings.normalizeAddress address
  | file => address

def fileAddress? (options : Options) (file : String → Option Bytes) : Option Toml := do
  let bytes ← file (← options.config)
  match ← Toml.ofText? (← Bytes.text? bytes) with
  | .table _ entries => entries.lookup "redis_url"
  | _ => none

variable {options : Options} {environment : Option String} {file : String → Option Bytes}
  {parsed merged settings : Settings} {way : Way} {address : String}

/-- The ways to give an address with nothing that goes before it. The environment stands in for an option
that is missing; where the option is empty it stands in for an entry that the file does not have. -/
inductive Given (options : Options) (environment : Option String) (file : String → Option Bytes) :
    Way → String → Prop where
  | option {address : String} (given : options.address = some address) :
      Given options environment file .option address
  | environment {address : String} (unset : options.address = none)
      (given : environment = some address) : Given options environment file .environment address
  | default {address : String} (empty : options.address = some "")
      (silent : fileAddress? options file = none) (given : environment = some address) :
      Given options environment file .environment address
  | file {address : String} (nothing : ∀ url, options.address.or environment = some url → url = "")
      (given : fileAddress? options file = some (.string address)) :
      Given options environment file .file address

theorem ofText?_eq_table {text : String} {document : Toml} (read : Toml.ofText? text = some document) :
    ∃ entries, document = .table .header entries := by
  obtain ⟨parts, -, assembled⟩ := Option.bind_eq_some_iff.1 read
  simp only [Toml.assemble?, Option.bind_eq_bind, Option.bind_eq_some_iff] at assembled
  obtain ⟨_, -, entries, -, same⟩ := assembled
  cases same
  exact ⟨entries, rfl⟩

theorem Source.fileAddress?_eq (source : Source options environment file parsed) :
    fileAddress? options file = none ∧ parsed = .default environment ∨
      ∃ entries, fileAddress? options file = entries.lookup "redis_url" ∧
        Settings.ofToml? environment (.table .header entries) = some parsed := by
  cases source with
  | unset plain =>
      refine .inl ⟨?_, rfl⟩
      rw [fileAddress?, plain]
      rfl
  | file named held decoded read said =>
      obtain ⟨entries, rfl⟩ := ofText?_eq_table read
      refine .inr ⟨entries, ?_, said⟩
      simp only [fileAddress?, named, held, decoded, read, Option.bind_eq_bind, Option.bind_some]

theorem Source.address_of_entry (source : Source options environment file parsed)
    (given : fileAddress? options file = some (.string address)) : parsed.address = some address := by
  obtain ⟨silent, -⟩ | ⟨entries, same, said⟩ := source.fileAddress?_eq
  · cases silent.symm.trans given
  · exact Settings.address_of_entry said (same.symm.trans given)

theorem Source.address_of_silent (source : Source options environment file parsed)
    (silent : fileAddress? options file = none) :
    parsed.address = Settings.addressFromEnvironment environment := by
  obtain ⟨-, rfl⟩ | ⟨entries, same, said⟩ := source.fileAddress?_eq
  · rfl
  · exact Settings.address_of_silent said (same.symm.trans silent)

theorem Given.address_eq (given : Given options environment file way address) (filled : address ≠ "")
    (source : Source options environment file parsed)
    (replaced : Merged options environment parsed merged) :
    merged.address = some (way.meaning address) := by
  cases given with
  | option given => exact replaced.address address (by rw [given, Option.some_or]) filled
  | environment unset given =>
      exact replaced.address address (by rw [unset, given, Option.none_or]) filled
  | default empty silent given =>
      have nothing : ∀ url, options.address.or environment = some url → url = "" := by
        intro url same
        rw [empty, Option.some_or] at same
        exact (Option.some.inj same).symm
      rw [replaced.address_kept nothing, source.address_of_silent silent, given,
        Settings.addressFromEnvironment_eq filled]
      rfl
  | file nothing given => rw [replaced.address_kept nothing, source.address_of_entry given]; rfl

theorem mapError_eq_ok {ε ε' α : Type} {convert : ε → ε'} {outcome : Except ε α} {value : α} :
    outcome.mapError convert = .ok value ↔ outcome = .ok value := by
  cases outcome <;> simp [Except.mapError]

theorem source_of_started (started : startingSettings options environment file = .ok parsed) :
    Source options environment file parsed := by
  rw [startingSettings] at started
  split at started
  · next plain =>
    cases started
    exact .unset plain
  · next name named =>
    split at started
    · cases started
    · next bytes held =>
      obtain ⟨text, document, decoded, read, said⟩ :=
        Settings.exists_document (mapError_eq_ok.1 started)
      exact .file named held decoded read said

theorem exists_source (loaded : load options environment file = .ok settings) :
    ∃ parsed, Source options environment file parsed ∧ Merged options environment parsed settings := by
  cases started : startingSettings options environment file with
  | error fault =>
      rw [load, started] at loaded
      cases loaded
  | ok parsed =>
      rw [load, started] at loaded
      have judged := Settings.eq_of_validate (mapError_eq_ok.1 loaded)
      exact ⟨parsed, source_of_started started, judged ▸ merged_apply options environment parsed⟩

theorem meaning_ne_empty (filled : address ≠ "") (way : Way) : way.meaning address ≠ "" := by
  cases way
  · exact Settings.normalizeAddress_ne_empty filled
  · exact Settings.normalizeAddress_ne_empty filled
  · exact filled

theorem meaning_of_isUrl (url : Settings.IsUrl address) (way : Way) :
    way.meaning address = Settings.normalizeAddress address := by
  cases way
  · rfl
  · rfl
  · exact (Settings.normalizeAddress_of_isUrl url).symm

theorem Given.usable (given : Given options environment file way address) (filled : address ≠ "")
    (source : Source options environment file parsed)
    (replaced : Merged options environment parsed merged)
    (others : Settings.Usable { merged with address := some address }) :
    merged.Usable ∧ merged = { merged with address := some (way.meaning address) } := by
  have same := given.address_eq filled source replaced
  refine ⟨?_, by rw [← same]⟩
  exact
    { ttl := others.ttl
      sweep := others.sweep
      address := fun _ => ⟨_, same, meaning_ne_empty filled way⟩
      names := others.names
      paths := others.paths }

theorem usable_default (environment address : Option String) :
    Settings.Usable { Settings.default environment with address } := by
  have bare : (Settings.default none).Usable := Settings.fault?_eq_none.1 (by decide +kernel)
  exact
    { ttl := bare.ttl
      sweep := bare.sweep
      address := fun redis => nomatch redis
      names := bare.names
      paths := bare.paths }

theorem loaded_from_file {text : String}
    (read : Toml.ofText? text = some (.table .header [("redis_url", .string address)])) :
    let options : Options := { config := some "f" }
    let file : String → Option Bytes := fun _ => some (Bytes.ofText text)
    Given options none file .file address ∧
      load options none file = .ok { Settings.default none with address := some address } := by
  intro options file
  have decoded := Bytes.text?_ofText text
  have source : Source options none file _ :=
    .file rfl rfl decoded read (Settings.ofToml?_entry none address)
  have given : fileAddress? options file = some (.string address) := by
    simp [fileAddress?, options, file, decoded, read]
  refine ⟨.file (fun _ nothing => nomatch nothing) given, ?_⟩
  have usable := usable_default none (some address)
  rw [load_of_usable source (merged_apply options none _) (.inr usable)]
  exact congrArg (Except.mapError Fault.settings) (Settings.validate_eq_ok usable)

def Agrees (address : String) : Prop :=
  ∀ options environment file way settings, Given options environment file way address →
    load options environment file = .ok settings →
    settings.address = some (Settings.normalizeAddress address)

/-- An address that is given with usable settings is loaded, from a file as it is and completed
otherwise, unless the file by itself is refused. So all ways agree on it exactly if it is a whole URL. -/
theorem address_agrees_iff (filled : address ≠ "") :
    (∀ options environment file way parsed merged, Given options environment file way address →
      Source options environment file parsed → Merged options environment parsed merged →
      Settings.Usable { merged with address := some address } →
        (options.config = none ∨ parsed.Usable → load options environment file =
          .ok { merged with address := some (way.meaning address) }) ∧
        ∀ name, options.config = some name → ¬parsed.Usable →
          load options environment file = .error (.loading name)) ∧
    (Agrees address ↔ Settings.IsUrl address) := by
  refine ⟨fun options environment file way parsed merged given source replaced others =>
    ⟨fun judged => ?_, fun name => load_of_unusable source⟩, fun agrees => ?_, fun url => ?_⟩
  · obtain ⟨usable, same⟩ := given.usable filled source replaced others
    rw [load_of_usable source replaced judged, Settings.validate_eq_ok usable, ← same]
    rfl
  · -- There is a file for every text, so the ways only agree where nothing is completed.
    have bare : ∀ c ∈ "redis_url".toList, Toml.isBare c := by simp [Toml.isBare]
    obtain ⟨given, loaded⟩ := loaded_from_file (Toml.ofText?_lineOf (by decide) bare address)
    have same := agrees _ _ _ _ _ given loaded
    exact Settings.normalizeAddress_eq_self_iff.1 (Option.some.inj same).symm
  · intro options environment file way settings given loaded
    obtain ⟨parsed, source, replaced⟩ := exists_source loaded
    rw [given.address_eq filled source replaced, meaning_of_isUrl url]

theorem bare_address_not_url : ¬Settings.IsUrl "cache:6379" := by
  rw [Settings.isUrl_iff, ← Settings.isInfixOf_iff]
  decide

theorem bare_address_completed_by_option :
    let options : Options := { address := some "cache:6379" }
    "cache:6379" ≠ "" ∧ load options none (fun _ => none) =
        .ok { Settings.default none with address := some "redis://cache:6379" } ∧
      ¬Agrees "cache:6379" := by
  intro options
  have filled : "cache:6379" ≠ "" := by decide
  obtain ⟨outcome, agrees⟩ := address_agrees_iff filled
  refine ⟨filled, ?_, mt agrees.1 bare_address_not_url⟩
  have source : Source options none (fun _ => none) (.default none) := .unset rfl
  have loaded := (outcome _ _ _ _ _ _ (.option rfl) source (merged_apply options none _)
    (usable_default none _)).1 (.inl rfl)
  have completed : Way.meaning "cache:6379" .option = "redis://cache:6379" :=
    Settings.normalizeAddress_of_bare bare_address_not_url
  rw [completed] at loaded
  exact loaded

theorem bare_address_kept_from_file :
    let options : Options := { config := some "f" }
    let file : String → Option Bytes :=
      fun _ => some (Bytes.ofText "redis_url = \"cache:6379\"")
    Given options none file .file "cache:6379" ∧
      load options none file =
        .ok { Settings.default none with address := some "cache:6379" } ∧
      Settings.normalizeAddress "cache:6379" = "redis://cache:6379" := by
  have read : Toml.ofText? "redis_url = \"cache:6379\"" =
      some (.table .header [("redis_url", .string "cache:6379")]) := by
    cbv
  obtain ⟨given, loaded⟩ := loaded_from_file read
  exact ⟨given, loaded, Settings.normalizeAddress_of_bare bare_address_not_url⟩

end CommandLine

end CredentialRelay

import Exclave.Unit

/-! `ScenarioDescription::from_path`: the unit name of the path, the file read and parsed by
`systemd_parser`, and then a loop over the entries of its `Scenario` section.  The loop reads
each `Solo` directive by its key and skips every other entry, so a key given several times, which
the parser groups into one `Many` entry, sets nothing.  For the `Solo` directives the last one of
each key wins, and the call fails exactly when `from_list` rejects the value of a `Jigs`, `Tests`
or `Assume` directive. -/

namespace Exclave

/-- `ScenarioDescription`, with the fields that the scheduling code reads. -/
structure ScenarioDescription where
  id : UnitName
  name : String
  description : String
  jigs : List UnitName
  tests : List UnitName
  assumptions : List UnitName
  deriving DecidableEq, Repr

/-- A directive of a unit file, as `systemd_parser` gives it: its key, and its value if any. -/
structure UnitDirective where
  key : String
  value : Option String
  deriving DecidableEq, Repr

/-- An entry of a section, as `systemd_parser` gives it: one directive, or the directives of one
key grouped together. -/
inductive DirectiveEntry where
  | solo (directive : UnitDirective)
  | many (directives : List UnitDirective)
  deriving DecidableEq, Repr

/-- The directive view of a parsed unit file: whether it has a section, and a section's entries
in order. -/
structure UnitFile where
  hasCategory : String → Bool
  lookupByCategory : String → List DirectiveEntry

/-- What `from_path` calls outside this repository, each failing with the error `?` makes of it:
opening and reading the file, and `systemd_parser::parse_string`. -/
structure UnitFileSource where
  readToString : String → Except UnitDescriptionError String
  parseString : String → Except UnitDescriptionError UnitFile

/-- The value of a directive whose key names a list of units: `UnitName::from_list` of the value
with the default kind `kind`, or no names when there is no value. -/
def listValue (names : UnitNames) (kind : String) :
    Option String → Except UnitDescriptionError (List UnitName)
  | some s => names.fromList s kind
  | none => pure []

/-- The `match directive.key()` of `from_path`, for one `Solo` directive. -/
def applyDirective (names : UnitNames) (sd : ScenarioDescription) (directive : UnitDirective) :
    Except UnitDescriptionError ScenarioDescription :=
  match directive.key with
  | "Name" => pure { sd with name := directive.value.getD "" }
  | "Description" => pure { sd with description := directive.value.getD "" }
  | "Jigs" => do
    let jigs ← listValue names "jig" directive.value
    pure { sd with jigs }
  | "Tests" => do
    let tests ← listValue names "test" directive.value
    pure { sd with tests }
  | "Assume" => do
    let assumptions ← listValue names "test" directive.value
    pure { sd with assumptions }
  | _ => pure sd

/-- The loop of `from_path` over the entries of the `Scenario` section: each `Solo` directive in
turn, stopping at the first error, and every other entry skipped. -/
def applyEntries (names : UnitNames) :
    ScenarioDescription → List DirectiveEntry → Except UnitDescriptionError ScenarioDescription
  | sd, [] => pure sd
  | sd, .solo directive :: entries => do
    applyEntries names (← applyDirective names sd directive) entries
  | sd, .many _ :: entries => applyEntries names sd entries

/-- `ScenarioDescription::from_path`. -/
def fromPath (names : UnitNames) (source : UnitFileSource) (path : String) :
    Except UnitDescriptionError ScenarioDescription := do
  let unitName ← names.fromPath path
  let contents ← source.readToString path
  let unitFile ← source.parseString contents
  if !unitFile.hasCategory "Scenario" then
    throw (.missingSection "Scenario")
  applyEntries names
    { id := unitName, name := "", description := "", jigs := [], tests := [], assumptions := [] }
    (unitFile.lookupByCategory "Scenario")

/-- `ScenarioDescription::supports_jig`. -/
def supportsJig (sd : ScenarioDescription) (name : UnitName) : Bool :=
  sd.jigs.contains name

/-! ### One directive -/

/-- What one `Solo` directive does when the loop goes on: it sets the field its key names, or
nothing when the key names none. -/
theorem applyDirective_ok {names : UnitNames} {sd sd' : ScenarioDescription}
    {d : UnitDirective} (h : applyDirective names sd d = .ok sd') :
    d.key = "Name" ∧ sd' = { sd with name := d.value.getD "" } ∨
    d.key = "Description" ∧ sd' = { sd with description := d.value.getD "" } ∨
    (∃ jigs, d.key = "Jigs" ∧ listValue names "jig" d.value = .ok jigs ∧
      sd' = { sd with jigs }) ∨
    (∃ tests, d.key = "Tests" ∧ listValue names "test" d.value = .ok tests ∧
      sd' = { sd with tests }) ∨
    (∃ assumptions, d.key = "Assume" ∧ listValue names "test" d.value = .ok assumptions ∧
      sd' = { sd with assumptions }) ∨
    d.key ∉ ["Name", "Description", "Jigs", "Tests", "Assume"] ∧ sd' = sd := by
  unfold applyDirective at h
  split at h
  · exact .inl ⟨‹_›, (Except.ok.inj h).symm⟩
  · exact .inr (.inl ⟨‹_›, (Except.ok.inj h).symm⟩)
  · obtain ⟨v, hv, hp⟩ := bind_eq_ok.mp h
    exact .inr (.inr (.inl ⟨v, ‹_›, hv, (Except.ok.inj hp).symm⟩))
  · obtain ⟨v, hv, hp⟩ := bind_eq_ok.mp h
    exact .inr (.inr (.inr (.inl ⟨v, ‹_›, hv, (Except.ok.inj hp).symm⟩)))
  · obtain ⟨v, hv, hp⟩ := bind_eq_ok.mp h
    exact .inr (.inr (.inr (.inr (.inl ⟨v, ‹_›, hv, (Except.ok.inj hp).symm⟩))))
  · refine .inr (.inr (.inr (.inr (.inr ⟨?_, (Except.ok.inj h).symm⟩))))
    simp only [List.mem_cons, List.mem_singleton, List.not_mem_nil, or_false, not_or]
    exact ⟨‹_›, ‹_›, ‹_›, ‹_›, ‹_›⟩

/-- Each field after one directive: set from the directive when its key names the field, and
unchanged otherwise. -/
theorem applyDirective_fields {names : UnitNames} {sd sd' : ScenarioDescription}
    {d : UnitDirective} (h : applyDirective names sd d = .ok sd') :
    (if d.key = "Name" then sd'.name = d.value.getD "" else sd'.name = sd.name) ∧
    (if d.key = "Description" then sd'.description = d.value.getD ""
      else sd'.description = sd.description) ∧
    (if d.key = "Jigs" then listValue names "jig" d.value = .ok sd'.jigs
      else sd'.jigs = sd.jigs) ∧
    (if d.key = "Tests" then listValue names "test" d.value = .ok sd'.tests
      else sd'.tests = sd.tests) ∧
    (if d.key = "Assume" then listValue names "test" d.value = .ok sd'.assumptions
      else sd'.assumptions = sd.assumptions) := by
  rcases applyDirective_ok h with ⟨hk, rfl⟩ | ⟨hk, rfl⟩ | ⟨v, hk, hv, rfl⟩ | ⟨v, hk, hv, rfl⟩ |
    ⟨v, hk, hv, rfl⟩ | ⟨hk, rfl⟩
  all_goals simp_all

/-- `listValue` fails exactly when there is a value and `from_list` rejects it. -/
theorem listValue_error {names : UnitNames} {kind : String} {v : Option String}
    {e : UnitDescriptionError} :
    listValue names kind v = .error e ↔ ∃ s, v = some s ∧ names.fromList s kind = .error e := by
  cases v <;> simp [listValue, pure, Except.pure]

/-- `from_list` rejects the value of `d`, a directive of key `Jigs`, `Tests` or `Assume`. -/
def Rejects (names : UnitNames) (d : UnitDirective) : Prop :=
  ∃ e s, d.value = some s ∧
    (d.key = "Jigs" ∧ names.fromList s "jig" = .error e ∨
      d.key = "Tests" ∧ names.fromList s "test" = .error e ∨
      d.key = "Assume" ∧ names.fromList s "test" = .error e)

theorem applyDirective_error {names : UnitNames} {sd : ScenarioDescription}
    {d : UnitDirective} : (∃ e, applyDirective names sd d = .error e) ↔ Rejects names d := by
  unfold applyDirective Rejects
  split <;> simp_all [bind_eq_error, listValue_error, pure, Except.pure]

/-! ### The loop -/

/-- The `Solo` directives among `entries`, in order. -/
def soloDirectives : List DirectiveEntry → List UnitDirective
  | [] => []
  | .solo d :: entries => d :: soloDirectives entries
  | .many _ :: entries => soloDirectives entries

/-- The last `Solo` directive of key `key` among `entries`. -/
def lastSolo (key : String) : List DirectiveEntry → Option UnitDirective
  | [] => none
  | .solo d :: entries => (lastSolo key entries).or (if d.key = key then some d else none)
  | .many _ :: entries => lastSolo key entries

/-- The value of the last `Solo` directive of key `key`, if it has one. -/
def lastValue (key : String) (entries : List DirectiveEntry) : Option String :=
  (lastSolo key entries).bind (·.value)

/-- The loop fails exactly when some `Solo` directive is one that `from_list` rejects, whatever
the description it starts from. -/
theorem applyEntries_error (names : UnitNames) (sd : ScenarioDescription)
    (entries : List DirectiveEntry) :
    (∃ e, applyEntries names sd entries = .error e) ↔
      ∃ d ∈ soloDirectives entries, Rejects names d := by
  induction entries generalizing sd with
  | nil => simp [applyEntries, soloDirectives, pure, Except.pure]
  | cons entry entries ih =>
    cases entry with
    | many ds => exact ih sd
    | solo d =>
      cases h : applyDirective names sd d with
      | error e =>
        have hd : Rejects names d := (@applyDirective_error names sd d).mp ⟨e, h⟩
        simp [applyEntries, soloDirectives, h, bind, Except.bind, hd]
      | ok sd1 =>
        have hd : ¬Rejects names d := by rw [← @applyDirective_error names sd d, h]; simp
        simp [applyEntries, soloDirectives, h, bind, Except.bind, hd, ih sd1]

section LastWins

variable {α : Type} {names : UnitNames} {key : String} {F : ScenarioDescription → α}
  {P : Option String → α → Prop}

/-- The loop leaves the field `F` as the last `Solo` directive of key `key` sets it, or as it
was when there is none, given what one directive does to the field. -/
theorem applyEntries_field
    (hfield : ∀ {sd sd' d}, applyDirective names sd d = .ok sd' →
      if d.key = key then P d.value (F sd') else F sd' = F sd)
    {sd sd' : ScenarioDescription} {entries : List DirectiveEntry}
    (h : applyEntries names sd entries = .ok sd') :
    match lastSolo key entries with
    | some d => P d.value (F sd')
    | none => F sd' = F sd := by
  induction entries generalizing sd with
  | nil => cases h; simp [lastSolo]
  | cons entry entries ih =>
    cases entry with
    | many ds => exact ih h
    | solo d =>
      obtain ⟨sd1, h1, h2⟩ := bind_eq_ok.mp h
      have ih1 := ih h2
      simp only [lastSolo]
      cases hl : lastSolo key entries with
      | some d' => simpa [hl] using ih1
      | none =>
        simp only [hl] at ih1
        by_cases hk : d.key = key <;> simpa [hk, ih1] using hfield h1

theorem applyEntries_lastValue
    (hfield : ∀ {sd sd' d}, applyDirective names sd d = .ok sd' →
      if d.key = key then P d.value (F sd') else F sd' = F sd)
    {sd sd' : ScenarioDescription} {entries : List DirectiveEntry}
    (h : applyEntries names sd entries = .ok sd') (hinit : P none (F sd)) :
    P (lastValue key entries) (F sd') := by
  have hlast := applyEntries_field hfield h
  unfold lastValue
  cases hl : lastSolo key entries with
  | some d => simpa [hl] using hlast
  | none =>
    simp only [hl, Option.none_bind] at hlast ⊢
    rw [hlast]
    exact hinit

end LastWins

/-- `from_path` once the file is read and parsed and has a `Scenario` section: the loop over its
entries, from the empty description. -/
theorem fromPath_eq {names : UnitNames} {source : UnitFileSource} {path contents : String}
    {unitName : UnitName} {unitFile : UnitFile} (hname : names.fromPath path = .ok unitName)
    (hread : source.readToString path = .ok contents)
    (hparse : source.parseString contents = .ok unitFile)
    (hcat : unitFile.hasCategory "Scenario" = true) :
    fromPath names source path = applyEntries names
      { id := unitName, name := "", description := "", jigs := [], tests := [], assumptions := [] }
      (unitFile.lookupByCategory "Scenario") := by
  simp [fromPath, hname, hread, hparse, hcat, bind, Except.bind, pure, Except.pure]

/-- `from_path` on a file with a `Scenario` section: it fails exactly when `from_list` rejects
the value of a `Solo` directive of key `Jigs`, `Tests` or `Assume`, and otherwise each field is
the value of the last `Solo` directive of its key, read by `from_list` for the lists, and empty
when there is no such directive or it has no value.  Grouped entries are skipped. -/
theorem fromPath_fields {names : UnitNames} {source : UnitFileSource} {path contents : String}
    {unitName : UnitName} {unitFile : UnitFile} (hname : names.fromPath path = .ok unitName)
    (hread : source.readToString path = .ok contents)
    (hparse : source.parseString contents = .ok unitFile)
    (hcat : unitFile.hasCategory "Scenario" = true) :
    ((∃ e, fromPath names source path = .error e) ↔
      ∃ d ∈ soloDirectives (unitFile.lookupByCategory "Scenario"), Rejects names d) ∧
    ∀ sd, fromPath names source path = .ok sd →
      sd.name = (lastValue "Name" (unitFile.lookupByCategory "Scenario")).getD "" ∧
      sd.description = (lastValue "Description" (unitFile.lookupByCategory "Scenario")).getD "" ∧
      listValue names "jig" (lastValue "Jigs" (unitFile.lookupByCategory "Scenario")) =
        .ok sd.jigs ∧
      listValue names "test" (lastValue "Tests" (unitFile.lookupByCategory "Scenario")) =
        .ok sd.tests ∧
      listValue names "test" (lastValue "Assume" (unitFile.lookupByCategory "Scenario")) =
        .ok sd.assumptions := by
  rw [fromPath_eq hname hread hparse hcat]
  refine ⟨applyEntries_error names _ _, fun sd h => ⟨?_, ?_, ?_, ?_, ?_⟩⟩
  · exact applyEntries_lastValue (P := fun v x => x = v.getD "")
      (fun h => (applyDirective_fields h).1) h rfl
  · exact applyEntries_lastValue (P := fun v x => x = v.getD "")
      (fun h => (applyDirective_fields h).2.1) h rfl
  · exact applyEntries_lastValue (P := fun v x => listValue names "jig" v = .ok x)
      (fun h => (applyDirective_fields h).2.2.1) h rfl
  · exact applyEntries_lastValue (P := fun v x => listValue names "test" v = .ok x)
      (fun h => (applyDirective_fields h).2.2.2.1) h rfl
  · exact applyEntries_lastValue (P := fun v x => listValue names "test" v = .ok x)
      (fun h => (applyDirective_fields h).2.2.2.2) h rfl

/-- A `Scenario` section of single directives, `Tests` among them twice. -/
def soloTests : UnitFile where
  hasCategory _ := true
  lookupByCategory _ :=
    [.solo ⟨"Name", some "demo"⟩, .solo ⟨"Tests", some "a"⟩, .solo ⟨"Tests", some "b"⟩]

/-- Read from `soloTests`, the scenario loads, is named `demo` and runs the test of the last
`Tests` directive. -/
theorem fromPath_solo_tests :
    (∀ e, fromPath UnitNames.plain ⟨fun _ => .ok "", fun _ => .ok soloTests⟩ "s" ≠ .error e) ∧
    ∀ sd, fromPath UnitNames.plain ⟨fun _ => .ok "", fun _ => .ok soloTests⟩ "s" = .ok sd →
      sd.name = "demo" ∧ sd.tests = [⟨"test", "b"⟩] := by
  have h := @fromPath_fields UnitNames.plain ⟨fun _ => .ok "", fun _ => .ok soloTests⟩ "s" ""
    _ soloTests rfl rfl rfl rfl
  refine ⟨fun e he => ?_, fun sd hsd => ?_⟩
  · obtain ⟨d, -, e', s, -, ⟨-, hr⟩ | ⟨-, hr⟩ | ⟨-, hr⟩⟩ := h.1.mp ⟨e, he⟩ <;> cases hr
  · obtain ⟨hname, -, -, htests, -⟩ := h.2 sd hsd
    exact ⟨hname, (Except.ok.inj htests).symm⟩

/-- A `Scenario` section that gives `Tests` twice, which the parser groups into one entry. -/
def groupedTests : UnitFile where
  hasCategory _ := true
  lookupByCategory _ := [.many [⟨"Tests", some "a"⟩, ⟨"Tests", some "b"⟩]]

/-- The last `Tests` directive of the file names test `b`, but `from_path` returns no tests. -/
theorem fromPath_skips_grouped :
    (fromPath UnitNames.plain ⟨fun _ => .ok "", fun _ => .ok groupedTests⟩ "s").map
        ScenarioDescription.tests = .ok [] ∧
      UnitNames.plain.fromList "b" "test" = .ok [⟨"test", "b"⟩] :=
  ⟨rfl, rfl⟩

end Exclave

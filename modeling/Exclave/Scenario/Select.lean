import Mathlib.Data.List.Forall2
import Exclave.Scenario.Order

/-! `ScenarioDescription::select` and `Scenario::new`: the order that `is_compatible` computes,
each test in it checked out of the registry into the execution sequence and into the map of
tests by name.  Both views agree with the order: the sequence is the registry's handles in the
order's order, and the map's names are the order's names. -/

namespace Exclave

variable {H : Type}

/-- `Scenario`: its name, the handles of its tests in execution order, and the same handles by
test name. -/
structure Scenario (H : Type) where
  name : UnitName
  testSequence : List H
  tests : AList fun _ : UnitName => H

/-- The loop of `Scenario::new`: each test of the order checked out of the registry, with a panic
when it is missing, pushed onto the sequence and inserted into the map. -/
def Scenario.checkOut (manager : UnitManager H) :
    List UnitName → List H → (AList fun _ : UnitName => H) →
      Except Failure (List H × AList fun _ : UnitName => H)
  | [], testSequence, tests => pure (testSequence, tests)
  | testName :: rest, testSequence, tests =>
    match manager.getTest testName with
    | none => throw (.panic "Unable to check out requested test from library")
    | some test => checkOut manager rest (testSequence ++ [test]) (tests.insert testName test)

/-- `Scenario::new`. -/
def Scenario.new (desc : ScenarioDescription) (testOrder : List UnitName)
    (manager : UnitManager H) : Except Failure (Scenario H) := do
  let (testSequence, tests) ← Scenario.checkOut manager testOrder [] ∅
  pure { name := desc.id, testSequence, tests }

/-- `Scenario::uses_test`. -/
def Scenario.usesTest (scenario : Scenario H) (testName : UnitName) : Bool :=
  (scenario.tests.lookup testName).isSome

/-- `ScenarioDescription::select`. -/
def select (names : UnitNames)
    (resolve : List Dependency → List String → Except String (List String))
    (sd : ScenarioDescription) (manager : UnitManager H) : Except Failure (Scenario H) := do
  let testOrder ← isCompatible names resolve sd manager
  Scenario.new sd testOrder manager

/-! ### Checking tests out -/

/-- A name and its handle in the registry. -/
def UnitManager.Holds (manager : UnitManager H) (testName : UnitName) (test : H) : Prop :=
  manager.getTest testName = some test

/-- A name has one handle, and a handle one name: each test has its own `Arc`. -/
theorem UnitManager.holds_biUnique (manager : UnitManager H) : Relator.BiUnique manager.Holds := by
  refine ⟨fun a b t ha hb => ?_, fun a t t' ha hb => Option.some.inj (ha.symm.trans hb)⟩
  have hsame := List.inj_on_of_nodup_map manager.handles_nodup
    (AList.mem_lookup_iff.mp ha) (AList.mem_lookup_iff.mp hb) rfl
  exact congrArg Sigma.fst hsame

theorem checkOut_ok {manager : UnitManager H} {order : List UnitName}
    {seq seq' : List H} {tests tests' : AList fun _ : UnitName => H}
    (h : Scenario.checkOut manager order seq tests = .ok (seq', tests')) :
    ∃ handles, List.Forall₂ manager.Holds order handles ∧ seq' = seq ++ handles ∧
      ∀ testName, tests'.lookup testName =
        if testName ∈ order then manager.getTest testName else tests.lookup testName := by
  induction order generalizing seq tests with
  | nil =>
    cases h
    exact ⟨[], List.Forall₂.nil, by simp, by simp⟩
  | cons n rest ih =>
    simp only [Scenario.checkOut] at h
    cases hn : manager.getTest n with
    | none => simp [hn, throw, throwThe, MonadExceptOf.throw] at h
    | some t =>
      rw [hn] at h
      obtain ⟨handles, hfor, rfl, hlookup⟩ := ih h
      refine ⟨t :: handles, List.Forall₂.cons hn hfor, by simp, fun k => ?_⟩
      rw [hlookup]
      by_cases hk : k ∈ rest
      · simp [hk]
      · by_cases hkn : k = n
        · subst hkn
          simp [hk, hn, AList.lookup_insert]
        · simp [hk, hkn, AList.lookup_insert_ne hkn]

theorem Scenario.new_ok {desc : ScenarioDescription} {order : List UnitName}
    {manager : UnitManager H} {scenario : Scenario H}
    (h : Scenario.new desc order manager = .ok scenario) :
    List.Forall₂ manager.Holds order scenario.testSequence ∧
      ∀ testName, scenario.tests.lookup testName =
        if testName ∈ order then manager.getTest testName else none := by
  obtain ⟨⟨seq, tests⟩, hc, hp⟩ := bind_eq_ok.mp h
  cases Except.ok.inj hp
  obtain ⟨handles, hfor, rfl, hlookup⟩ := checkOut_ok hc
  exact ⟨by simpa using hfor, fun k => by simp [hlookup, AList.lookup_empty]⟩

/-- The loop of `Scenario::new` fails only by its `expect`, exactly when a name of the order is
not registered. -/
theorem checkOut_error {manager : UnitManager H} {order : List UnitName} {seq : List H}
    {tests : AList fun _ : UnitName => H} {e : Failure} :
    Scenario.checkOut manager order seq tests = .error e ↔
      e = .panic "Unable to check out requested test from library" ∧
        ∃ testName ∈ order, manager.getTest testName = none := by
  induction order generalizing seq tests with
  | nil => simp [Scenario.checkOut, pure, Except.pure]
  | cons n rest ih =>
    simp only [Scenario.checkOut]
    cases hn : manager.getTest n with
    | none =>
      simp only [throw, throwThe, MonadExceptOf.throw, Except.error.injEq]
      exact ⟨fun h => ⟨h.symm, n, List.mem_cons_self _ _, hn⟩, fun h => h.1.symm⟩
    | some t => simp [hn, ih]

theorem checkOut_isOk {manager : UnitManager H} {order : List UnitName}
    (h : ∀ testName ∈ order, (manager.getTest testName).isSome) (seq : List H)
    (tests : AList fun _ : UnitName => H) :
    ∃ r, Scenario.checkOut manager order seq tests = .ok r := by
  cases hc : Scenario.checkOut manager order seq tests with
  | error e =>
    obtain ⟨-, testName, hin, hnone⟩ := checkOut_error.mp hc
    simpa [hnone] using h testName hin
  | ok r => exact ⟨r, rfl⟩

theorem forall₂_exists_right {α β : Type} {R : α → β → Prop} {l₁ : List α} {l₂ : List β}
    (h : List.Forall₂ R l₁ l₂) {a : α} (ha : a ∈ l₁) : ∃ b ∈ l₂, R a b := by
  induction h with
  | nil => simp at ha
  | cons hr _ ih =>
    rcases List.mem_cons.mp ha with rfl | ha
    · exact ⟨_, List.mem_cons_self _ _, hr⟩
    · obtain ⟨b, hb, hab⟩ := ih ha
      exact ⟨b, List.mem_cons_of_mem _ hb, hab⟩

theorem forall₂_exists_left {α β : Type} {R : α → β → Prop} {l₁ : List α} {l₂ : List β}
    (h : List.Forall₂ R l₁ l₂) {b : β} (hb : b ∈ l₂) : ∃ a ∈ l₁, R a b := by
  induction h with
  | nil => simp at hb
  | cons hr _ ih =>
    rcases List.mem_cons.mp hb with rfl | hb
    · exact ⟨_, List.mem_cons_self _ _, hr⟩
    · obtain ⟨a, ha, hab⟩ := ih hb
      exact ⟨a, List.mem_cons_of_mem _ ha, hab⟩

section New

variable {desc : ScenarioDescription} {order : List UnitName} {manager : UnitManager H}
  {scenario : Scenario H} (h : Scenario.new desc order manager = .ok scenario)
include h

/-- Each name of the order has in the map its registry handle, which is in the sequence. -/
theorem Scenario.new_lookup {testName : UnitName} (hin : testName ∈ order) :
    ∃ test ∈ scenario.testSequence, scenario.tests.lookup testName = some test := by
  obtain ⟨hfor, hlookup⟩ := Scenario.new_ok h
  obtain ⟨test, hmem, htest⟩ := forall₂_exists_right hfor hin
  exact ⟨test, hmem, by rw [hlookup, if_pos hin]; exact htest⟩

theorem Scenario.new_usesTest (testName : UnitName) :
    scenario.usesTest testName = true ↔ testName ∈ order := by
  refine ⟨fun hu => by_contra fun hin => ?_, fun hin => ?_⟩
  · simp [Scenario.usesTest, (Scenario.new_ok h).2, hin] at hu
  · obtain ⟨test, -, htest⟩ := Scenario.new_lookup h hin
    simp [Scenario.usesTest, htest]

theorem Scenario.new_sequence {test : H} (ht : test ∈ scenario.testSequence) :
    ∃ testName, scenario.tests.lookup testName = some test := by
  obtain ⟨hfor, hlookup⟩ := Scenario.new_ok h
  obtain ⟨testName, hin, htest⟩ := forall₂_exists_left hfor ht
  exact ⟨testName, by rw [hlookup, if_pos hin]; exact htest⟩

end New

/-- What `select` builds when it returns a scenario: the resolver's names all read back as test
names; the order is those names without the assumed ones, in the resolver's order; the sequence
holds, position by position, the registry's handle of each name of the order; the scenario uses
exactly the names of the order, so no assumed test; each handle of the sequence is the handle of
a name of the map, and each name of the map has its handle in the sequence; and the sequence
repeats no handle when the names read back repeat none.  When the jig phase passes and the
resolver fails, `select` returns the resolver's reason and builds no scenario. -/
theorem select_spec (names : UnitNames)
    (resolve : List Dependency → List String → Except String (List String))
    (sd : ScenarioDescription) (manager : UnitManager H) :
    (∀ scenario, select names resolve sd manager = .ok scenario →
      ∃ out testNames order,
        resolve (testGraph names sd manager) (sd.tests.map names.toString) = .ok out ∧
        ReadBack names out testNames ∧
        order = testNames.filter (fun testName => testName ∉ sd.assumptions) ∧
        List.Forall₂ manager.Holds order scenario.testSequence ∧
        (∀ testName, scenario.usesTest testName = true ↔ testName ∈ order) ∧
        (∀ testName ∈ sd.assumptions, scenario.usesTest testName = false) ∧
        (∀ test ∈ scenario.testSequence, ∃ testName, scenario.tests.lookup testName = some test) ∧
        (∀ testName ∈ scenario.tests, ∃ test,
          scenario.tests.lookup testName = some test ∧ test ∈ scenario.testSequence) ∧
        (testNames.Nodup → scenario.testSequence.Nodup)) ∧
    (∀ reason, (sd.jigs = [] ∨ ∃ jig ∈ sd.jigs, manager.jigIsLoaded jig = true) →
      resolve (testGraph names sd manager) (sd.tests.map names.toString) = .error reason →
      select names resolve sd manager = .error (.err (.dependencyError reason))) := by
  refine ⟨fun scenario h => ?_, fun reason hjigs hr => ?_⟩
  · obtain ⟨order, hc, hnew⟩ := bind_eq_ok.mp h
    rw [isCompatible_eq] at hc
    split_ifs at hc
    obtain ⟨out, testNames, hr, hback, rfl⟩ := getTestOrder_ok hc
    have hfor := (Scenario.new_ok hnew).1
    refine ⟨out, testNames, _, hr, hback, rfl, hfor, Scenario.new_usesTest hnew,
      fun testName ha => ?_, fun test ht => Scenario.new_sequence hnew ht, fun testName hn => ?_,
      fun hnd => (List.rel_nodup manager.holds_biUnique hfor).mp (hnd.filter _)⟩
    · simpa [ha] using Scenario.new_usesTest hnew testName
    · have hin := (Scenario.new_usesTest hnew testName).mp (AList.lookup_isSome.mpr hn)
      obtain ⟨test, hmem, htest⟩ := Scenario.new_lookup hnew hin
      exact ⟨test, htest, hmem⟩
  · have herr := (getTestOrder_err names resolve sd manager reason).mpr hr
    simp [select, isCompatible_of_jigs hjigs, herr, bind, Except.bind]

/-- A `from_str` that takes a name with or without its kind after a dot, as `A` and `A.test`;
`to_string` gives the base name. -/
def UnitNames.dotted : UnitNames :=
  { UnitNames.plain with
    fromStr := fun s kind =>
      .ok ⟨kind, if ("." ++ kind).toList.isSuffixOf s.toList then
        String.mk (s.toList.take (s.length - (kind.length + 1))) else s⟩ }

/-- The resolver's names `A` and `A.test` differ, but `from_str` reads both back as test `A`,
so the scenario that `select` builds holds `A`'s handle twice. -/
theorem select_repeats_handle :
    ["A", "A.test"].Nodup ∧
      ∃ scenario, select UnitNames.dotted (fun _ _ => .ok ["A", "A.test"]) capScenario
        capManager = .ok scenario ∧ scenario.testSequence = [0, 0] :=
  ⟨by decide, _, rfl, rfl⟩

/-- `select` builds a scenario, named after the description, when the jig phase passes, the
resolver succeeds, its names read back, and each of them that the scenario does not assume is
registered: then neither `expect` of the two loops panics. -/
theorem select_succeeds {names : UnitNames}
    {resolve : List Dependency → List String → Except String (List String)}
    {sd : ScenarioDescription} {manager : UnitManager H} {out : List String}
    {testNames : List UnitName}
    (hjigs : sd.jigs = [] ∨ ∃ jig ∈ sd.jigs, manager.jigIsLoaded jig = true)
    (hr : resolve (testGraph names sd manager) (sd.tests.map names.toString) = .ok out)
    (hback : ReadBack names out testNames)
    (hreg : ∀ testName ∈ testNames, testName ∉ sd.assumptions →
      (manager.getTest testName).isSome) :
    ∃ scenario, select names resolve sd manager = .ok scenario ∧ scenario.name = sd.id := by
  have hall : ∀ testName ∈ testNames.filter fun testName => testName ∉ sd.assumptions,
      (manager.getTest testName).isSome := fun testName hn => by
    simp only [List.mem_filter, decide_eq_true_eq] at hn
    exact hreg _ hn.1 hn.2
  obtain ⟨⟨seq, tests⟩, hc⟩ := checkOut_isOk hall [] ∅
  refine ⟨⟨sd.id, seq, tests⟩, ?_, rfl⟩
  rw [select, isCompatible_of_jigs hjigs, getTestOrder_of_readBack hr hback]
  simp only [bind, Except.bind, Scenario.new, hc, pure, Except.pure]

end Exclave

import Mathlib.Data.List.AList
import Exclave.Scenario.Description

/-! `get_test_order` and `is_compatible`.  The test order is what the dependency resolver of the
`dependy` crate makes of a graph with one node per registered test, an assumed test standing as
an `AssumptionDependency` with nothing but its name; the resolved names are read back as test
names and the assumed ones dropped.  `dependy` is outside this repository, so the resolver
`resolve` is a parameter: a function of the graph's nodes, in the order they are added, and of the
roots. -/

namespace Exclave

/-- A node of the dependency graph, as the `Dependency` trait of `dependy` shows it: its name, the
names it requires, those it suggests, and the names it provides. -/
structure Dependency where
  name : String
  requirements : List String
  suggestions : List String
  provides : List String
  deriving DecidableEq, Repr

/-- `AssumptionDependency::new`: a node named after an assumed test, with nothing else. -/
def AssumptionDependency.new (name : String) : Dependency := ⟨name, [], [], []⟩

/-- What `scenario.rs` reads of the `UnitManager`: the test registry of `get_tests`, from each
test's name to its shared handle, in the map's iteration order; the test behind a handle, as the
dependency graph sees it; and `jig_is_loaded`.  Each test has its own `Arc`, so no two names
share a handle. -/
structure UnitManager (H : Type) where
  tests : AList fun _ : UnitName => H
  lock : H → Dependency
  jigIsLoaded : UnitName → Bool
  handles_nodup : (tests.entries.map fun test => test.2).Nodup

variable {H : Type}

/-- `UnitManager::get_test`. -/
def UnitManager.getTest (manager : UnitManager H) (name : UnitName) : Option H :=
  manager.tests.lookup name

/-- The graph of `get_test_order`: each registered test in iteration order, as its own node, or
as an `AssumptionDependency` when the scenario assumes it. -/
def testGraph (names : UnitNames) (sd : ScenarioDescription) (manager : UnitManager H) :
    List Dependency :=
  manager.tests.entries.map fun test =>
    if test.1 ∈ sd.assumptions then AssumptionDependency.new (names.toString test.1)
    else manager.lock test.2

/-- The loop of `get_test_order` over the resolved names: each one read back as a test name,
kept unless the scenario assumes it; when that fails, `expect` panics with its message followed
by the `Debug` text of the error. -/
def trimOrder (names : UnitNames) (assumptions : List UnitName) :
    List String → List UnitName → Except Failure (List UnitName)
  | [], testOrder => pure testOrder
  | s :: rest, testOrder =>
    match names.fromStr s "test" with
    | .error err => throw (.panic ("Invalid test name generated: " ++ err))
    | .ok testName => trimOrder names assumptions rest
      (if testName ∈ assumptions then testOrder else testOrder ++ [testName])

/-- `ScenarioDescription::get_test_order`. -/
def getTestOrder (names : UnitNames)
    (resolve : List Dependency → List String → Except String (List String))
    (sd : ScenarioDescription) (manager : UnitManager H) : Except Failure (List UnitName) :=
  match resolve (testGraph names sd manager) (sd.tests.map names.toString) with
  | .error reason => throw (.err (.dependencyError reason))
  | .ok testSequenceStrings => trimOrder names sd.assumptions testSequenceStrings []

/-- `ScenarioDescription::is_compatible`: when the scenario names jigs, one of them must be
loaded; then the test order must resolve. -/
def isCompatible (names : UnitNames)
    (resolve : List Dependency → List String → Except String (List String))
    (sd : ScenarioDescription) (manager : UnitManager H) : Except Failure (List UnitName) := do
  if 0 < sd.jigs.length then
    let loaded := sd.jigs.foldl
      (fun loaded jigName => if manager.jigIsLoaded jigName then true else loaded) false
    if !loaded then
      throw (.err .incompatibleJig)
  getTestOrder names resolve sd manager

/-! ### Reading back the resolved names -/

/-- The names `out`, each read back as a test name. -/
def ReadBack (names : UnitNames) (out : List String) (testNames : List UnitName) : Prop :=
  List.Forall₂ (fun s testName => names.fromStr s "test" = .ok testName) out testNames

theorem trimOrder_ok {names : UnitNames} {assumptions : List UnitName} {out : List String}
    {acc order : List UnitName} (h : trimOrder names assumptions out acc = .ok order) :
    ∃ testNames, ReadBack names out testNames ∧
      order = acc ++ testNames.filter fun testName => testName ∉ assumptions := by
  induction out generalizing acc with
  | nil => exact ⟨[], List.Forall₂.nil, by cases h; simp⟩
  | cons s rest ih =>
    simp only [trimOrder] at h
    cases hs : names.fromStr s "test" with
    | error err => simp [hs, throw, throwThe, MonadExceptOf.throw] at h
    | ok testName =>
      rw [hs] at h
      obtain ⟨testNames, hback, rfl⟩ := ih h
      refine ⟨testName :: testNames, List.Forall₂.cons hs hback, ?_⟩
      by_cases ha : testName ∈ assumptions <;> simp [ha]

theorem trimOrder_of_readBack {names : UnitNames} {assumptions : List UnitName}
    {out : List String} {testNames : List UnitName} (h : ReadBack names out testNames)
    (acc : List UnitName) :
    trimOrder names assumptions out acc =
      .ok (acc ++ testNames.filter fun testName => testName ∉ assumptions) := by
  induction h generalizing acc with
  | nil => simp [trimOrder, pure, Except.pure]
  | cons hs _ ih =>
    rw [trimOrder, hs]
    dsimp only
    rw [ih]
    split_ifs <;> simp [*]

/-- With `UnitNames.plain`, every resolved name reads back, as a test of that base name. -/
theorem readBack_plain (out : List String) :
    ReadBack UnitNames.plain out (out.map fun s => ⟨"test", s⟩) :=
  List.forall₂_map_right_iff.mpr (List.forall₂_same.mpr fun _ _ => rfl)

/-- Names that all read back as test names read back as a list. -/
theorem ReadBack.exists {names : UnitNames} {out : List String}
    (h : ∀ s ∈ out, ∃ testName, names.fromStr s "test" = .ok testName) :
    ∃ testNames, ReadBack names out testNames := by
  induction out with
  | nil => exact ⟨[], .nil⟩
  | cons s rest ih =>
    obtain ⟨m, hm⟩ := h s (List.mem_cons_self _ _)
    obtain ⟨testNames, hback⟩ := ih fun s' hs' => h s' (List.mem_cons_of_mem _ hs')
    exact ⟨m :: testNames, .cons hm hback⟩

/-- When each resolved name that reads back renders to itself, the names read back render to the
resolver's names. -/
theorem ReadBack.map_toString {names : UnitNames} {out : List String}
    {testNames : List UnitName} (h : ReadBack names out testNames)
    (hround : ∀ s ∈ out, ∀ testName, names.fromStr s "test" = .ok testName →
      names.toString testName = s) :
    testNames.map names.toString = out := by
  induction h with
  | nil => rfl
  | cons hs _ ih =>
    rw [List.map_cons, hround _ (List.mem_cons_self _ _) _ hs,
      ih fun s hs' => hround s (List.mem_cons_of_mem _ hs')]

theorem trimOrder_ne_err (names : UnitNames) (assumptions : List UnitName) (out : List String)
    (acc : List UnitName) (reason : UnitIncompatibleReason) :
    trimOrder names assumptions out acc ≠ .error (.err reason) := by
  induction out generalizing acc with
  | nil => simp [trimOrder, pure, Except.pure]
  | cons s rest ih =>
    simp only [trimOrder]
    cases names.fromStr s "test" with
    | error err => simp [throw, throwThe, MonadExceptOf.throw]
    | ok testName => exact ih _

/-- `get_test_order` returns `Err` exactly when the resolver fails, with its reason. -/
theorem getTestOrder_err (names : UnitNames)
    (resolve : List Dependency → List String → Except String (List String))
    (sd : ScenarioDescription) (manager : UnitManager H) (reason : String) :
    getTestOrder names resolve sd manager = .error (.err (.dependencyError reason)) ↔
      resolve (testGraph names sd manager) (sd.tests.map names.toString) = .error reason := by
  unfold getTestOrder
  cases resolve (testGraph names sd manager) (sd.tests.map names.toString) with
  | error r => simp [throw, throwThe, MonadExceptOf.throw]
  | ok out => simpa using trimOrder_ne_err names sd.assumptions out [] _

/-- When `get_test_order` returns an order, the resolver gave names that all read back as test
names, and the order is those names without the assumed ones, in the resolver's order. -/
theorem getTestOrder_ok {names : UnitNames}
    {resolve : List Dependency → List String → Except String (List String)}
    {sd : ScenarioDescription} {manager : UnitManager H} {order : List UnitName}
    (h : getTestOrder names resolve sd manager = .ok order) :
    ∃ out testNames,
      resolve (testGraph names sd manager) (sd.tests.map names.toString) = .ok out ∧
      ReadBack names out testNames ∧
      order = testNames.filter fun testName => testName ∉ sd.assumptions := by
  unfold getTestOrder at h
  cases hr : resolve (testGraph names sd manager) (sd.tests.map names.toString) with
  | error r => simp [hr, throw, throwThe, MonadExceptOf.throw] at h
  | ok out =>
    rw [hr] at h
    obtain ⟨testNames, hback, rfl⟩ := trimOrder_ok h
    exact ⟨out, testNames, rfl, hback, by simp⟩

/-- When the resolver returns names that all read back as test names, `get_test_order` returns
those names without the assumed ones. -/
theorem getTestOrder_of_readBack {names : UnitNames}
    {resolve : List Dependency → List String → Except String (List String)}
    {sd : ScenarioDescription} {manager : UnitManager H} {out : List String}
    {testNames : List UnitName}
    (hr : resolve (testGraph names sd manager) (sd.tests.map names.toString) = .ok out)
    (hback : ReadBack names out testNames) :
    getTestOrder names resolve sd manager =
      .ok (testNames.filter fun testName => testName ∉ sd.assumptions) := by
  rw [getTestOrder, hr]
  simpa using trimOrder_of_readBack hback []

/-- `get_test_order` panics only when the resolver succeeds and one of its names does not read
back as a test name. -/
theorem getTestOrder_panic_unread {names : UnitNames}
    {resolve : List Dependency → List String → Except String (List String)}
    {sd : ScenarioDescription} {manager : UnitManager H} {message : String}
    (h : getTestOrder names resolve sd manager = .error (.panic message)) :
    ∃ out, resolve (testGraph names sd manager) (sd.tests.map names.toString) = .ok out ∧
      ∃ s ∈ out, ∀ testName, names.fromStr s "test" ≠ .ok testName := by
  unfold getTestOrder at h
  cases hr : resolve (testGraph names sd manager) (sd.tests.map names.toString) with
  | error r => simp [hr, throw, throwThe, MonadExceptOf.throw] at h
  | ok out =>
    replace h : trimOrder names sd.assumptions out [] = .error (.panic message) := by
      rwa [hr] at h
    refine ⟨out, rfl, ?_⟩
    by_cases hall : ∀ s ∈ out, ∃ testName, names.fromStr s "test" = .ok testName
    · obtain ⟨testNames, hback⟩ := ReadBack.exists hall
      rw [trimOrder_of_readBack hback] at h
      cases h
    · simpa using hall

theorem getTestOrder_ne_incompatibleJig (names : UnitNames)
    (resolve : List Dependency → List String → Except String (List String))
    (sd : ScenarioDescription) (manager : UnitManager H) :
    getTestOrder names resolve sd manager ≠ .error (.err .incompatibleJig) := by
  unfold getTestOrder
  cases resolve (testGraph names sd manager) (sd.tests.map names.toString) with
  | error r => simp [throw, throwThe, MonadExceptOf.throw]
  | ok out => exact trimOrder_ne_err names sd.assumptions out [] _

/-! ### The jig phase -/

/-- The loop of `is_compatible` over the jigs: `loaded` ends true when it started true or some
jig is loaded. -/
theorem jigLoop_eq (jigIsLoaded : UnitName → Bool) (jigs : List UnitName) (b : Bool) :
    jigs.foldl (fun loaded jigName => if jigIsLoaded jigName then true else loaded) b =
      (b || jigs.any jigIsLoaded) := by
  induction jigs generalizing b with
  | nil => simp
  | cons jig rest ih =>
    rw [List.foldl_cons, ih]
    cases hj : jigIsLoaded jig <;> simp [hj]

theorem isCompatible_eq (names : UnitNames)
    (resolve : List Dependency → List String → Except String (List String))
    (sd : ScenarioDescription) (manager : UnitManager H) :
    isCompatible names resolve sd manager =
      if sd.jigs ≠ [] ∧ ∀ jig ∈ sd.jigs, manager.jigIsLoaded jig = false then
        .error (.err .incompatibleJig)
      else getTestOrder names resolve sd manager := by
  unfold isCompatible
  rw [jigLoop_eq]
  by_cases hc : sd.jigs ≠ [] ∧ ∀ jig ∈ sd.jigs, manager.jigIsLoaded jig = false
  · have hl : sd.jigs.any manager.jigIsLoaded = false := by simpa using hc.2
    simp [if_pos hc, List.length_pos.mpr hc.1, hl, bind, Except.bind, throw, throwThe,
      MonadExceptOf.throw]
  · rw [if_neg hc]
    by_cases hj : sd.jigs = []
    · simp [hj, bind, Except.bind, pure, Except.pure]
    · have hl : sd.jigs.any manager.jigIsLoaded = true := by simpa [hj] using hc
      simp [List.length_pos.mpr hj, hl, bind, Except.bind, pure, Except.pure]

/-- When the scenario names no jig or a loaded one, `is_compatible` is `get_test_order`. -/
theorem isCompatible_of_jigs {names : UnitNames}
    {resolve : List Dependency → List String → Except String (List String)}
    {sd : ScenarioDescription} {manager : UnitManager H}
    (hjigs : sd.jigs = [] ∨ ∃ jig ∈ sd.jigs, manager.jigIsLoaded jig = true) :
    isCompatible names resolve sd manager = getTestOrder names resolve sd manager := by
  rw [isCompatible_eq, if_neg]
  rintro ⟨hne, hall⟩
  rcases hjigs with hnil | ⟨jig, hjig, hl⟩
  · exact hne hnil
  · simp [hall jig hjig] at hl

/-- `is_compatible` rejects a scenario on jig grounds exactly when it names jigs and none of them
is loaded, and then it reads neither the test registry nor the resolver; otherwise it returns
what `get_test_order` returns. -/
theorem isCompatible_jigs (names : UnitNames)
    (resolve : List Dependency → List String → Except String (List String))
    (sd : ScenarioDescription) (manager : UnitManager H) :
    (isCompatible names resolve sd manager = .error (.err .incompatibleJig) ↔
      sd.jigs ≠ [] ∧ ∀ jig ∈ sd.jigs, manager.jigIsLoaded jig = false) ∧
    ((sd.jigs ≠ [] ∧ ∀ jig ∈ sd.jigs, manager.jigIsLoaded jig = false) →
      ∀ {H' : Type} (resolve' : List Dependency → List String → Except String (List String))
        (manager' : UnitManager H'), manager'.jigIsLoaded = manager.jigIsLoaded →
        isCompatible names resolve' sd manager' = .error (.err .incompatibleJig)) ∧
    (¬(sd.jigs ≠ [] ∧ ∀ jig ∈ sd.jigs, manager.jigIsLoaded jig = false) →
      isCompatible names resolve sd manager = getTestOrder names resolve sd manager) := by
  refine ⟨?_, fun hc H' resolve' manager' hl => ?_, fun hc => ?_⟩
  · rw [isCompatible_eq]
    split_ifs with hc
    · simpa using hc
    · simpa [hc] using getTestOrder_ne_incompatibleJig names resolve sd manager
  · rw [isCompatible_eq, hl, if_pos hc]
  · rw [isCompatible_eq, if_neg hc]

/-! ### Assumed tests -/

/-- Two lists of registry entries with the same names in the same order map to the same nodes
when each pair of entries with one name does. -/
theorem map_entries_eq {H₁ H₂ : Type} {f₁ : (Σ _ : UnitName, H₁) → Dependency}
    {f₂ : (Σ _ : UnitName, H₂) → Dependency} :
    ∀ {l₁ : List (Σ _ : UnitName, H₁)} {l₂ : List (Σ _ : UnitName, H₂)},
      l₁.map (·.1) = l₂.map (·.1) →
      (∀ e₁ ∈ l₁, ∀ e₂ ∈ l₂, e₁.1 = e₂.1 → f₁ e₁ = f₂ e₂) → l₁.map f₁ = l₂.map f₂
  | [], [], _, _ => rfl
  | e₁ :: l₁, e₂ :: l₂, hk, hf => by
    simp only [List.map_cons, List.cons.injEq] at hk ⊢
    exact ⟨hf e₁ (List.mem_cons_self _ _) e₂ (List.mem_cons_self _ _) hk.1,
      map_entries_eq hk.2 fun a ha b hb => hf a (List.mem_cons_of_mem _ ha) b
        (List.mem_cons_of_mem _ hb)⟩

/-- Two registries with the same names in the same iteration order, whose tests agree wherever
the scenario does not assume them, give `get_test_order` the same graph, so it returns the same
result on both, whatever the resolver: the declarations of an assumed test play no part. -/
theorem getTestOrder_ignores_assumed {H₁ H₂ : Type} (names : UnitNames)
    (resolve : List Dependency → List String → Except String (List String))
    (sd : ScenarioDescription) (m₁ : UnitManager H₁) (m₂ : UnitManager H₂)
    (hkeys : m₁.tests.keys = m₂.tests.keys)
    (hsame : ∀ name ∉ sd.assumptions,
      (m₁.getTest name).map m₁.lock = (m₂.getTest name).map m₂.lock) :
    getTestOrder names resolve sd m₁ = getTestOrder names resolve sd m₂ := by
  have hgraph : testGraph names sd m₁ = testGraph names sd m₂ := by
    refine map_entries_eq hkeys fun e₁ he₁ e₂ he₂ hk => ?_
    by_cases ha : e₁.1 ∈ sd.assumptions
    · simp [ha, ← hk]
    · have h₁ : m₁.getTest e₁.1 = some e₁.2 := AList.mem_lookup_iff.mpr he₁
      have h₂ : m₂.getTest e₁.1 = some e₂.2 := hk ▸ AList.mem_lookup_iff.mpr he₂
      have hlock : m₁.lock e₁.2 = m₂.lock e₂.2 := by simpa [h₁, h₂] using hsame e₁.1 ha
      simp [ha, ← hk, hlock]
  rw [getTestOrder, getTestOrder, hgraph]

/-- A registry of two tests: `A` requires `cap`, which `T` provides. -/
def capManager : UnitManager Nat where
  tests := ⟨[⟨⟨"test", "A"⟩, 0⟩, ⟨⟨"test", "T"⟩, 1⟩], by unfold List.NodupKeys; decide⟩
  lock test := if test = 0 then ⟨"A", ["cap"], [], []⟩ else ⟨"T", [], [], ["cap"]⟩
  jigIsLoaded _ := false
  handles_nodup := by decide

/-- The same registry, with `T` declaring a requirement nothing meets. -/
def capManagerStrict : UnitManager Nat :=
  { capManager with
    lock := fun test => if test = 0 then ⟨"A", ["cap"], [], []⟩ else ⟨"T", ["x"], [], ["cap"]⟩ }

/-- A scenario that runs `A` and assumes `T`. -/
def capAssumed : ScenarioDescription :=
  ⟨⟨"scenario", "s"⟩, "", "", [], [⟨"test", "A"⟩], [⟨"test", "T"⟩]⟩

/-- The scenario of `capAssumed`, assuming nothing. -/
def capScenario : ScenarioDescription :=
  { capAssumed with assumptions := [] }

/-- A resolver that fails on any node with requirements. -/
def requireNothing (nodes : List Dependency) (roots : List String) :
    Except String (List String) :=
  if nodes.all fun node => node.requirements.isEmpty then .ok roots else .error "unresolved"

/-- The two registries differ only in the assumed test `T`, and `get_test_order` does not see
it. -/
theorem capManager_ignores_assumed :
    capManager.lock 1 ≠ capManagerStrict.lock 1 ∧
      getTestOrder UnitNames.plain requireNothing capAssumed capManager =
        getTestOrder UnitNames.plain requireNothing capAssumed capManagerStrict := by
  refine ⟨by decide, getTestOrder_ignores_assumed UnitNames.plain requireNothing capAssumed
    capManager capManagerStrict rfl fun name hname => ?_⟩
  show (capManager.getTest name).map _ = (capManager.getTest name).map _
  cases h : capManager.getTest name with
  | none => rfl
  | some test =>
    have hmem := AList.mem_lookup_iff.mp h
    simp only [capManager, List.mem_cons, Sigma.mk.inj_iff, heq_eq_eq,
      List.mem_nil_iff, or_false] at hmem
    rcases hmem with ⟨rfl, rfl⟩ | ⟨rfl, rfl⟩
    · rfl
    · exact absurd (List.mem_singleton_self _) hname

end Exclave

import Exclave.Scenario.Order

/-! The dependency resolver by its contract: `resolve_named_dependencies` succeeds exactly when
some list of node names, none twice, holds every root and lists each node after what it
requires, a requirement being met by a node's name or by what it provides.  Assuming a test
replaces its node by an `AssumptionDependency`, which requires nothing but also provides nothing,
so assuming a test that provides what others require can turn a resolvable scenario into an
unresolvable one.  When the assumed test's node bears the test's name and no other test that the
scenario does not assume requires what it provides, every requirement keeps what met it, and the
scenario stays resolvable. -/

namespace Exclave

/-- `requirement` is met by the nodes named in `placed`: it is one of their names, or among the
provides of a node so named. -/
def Satisfied (nodes : List Dependency) (placed : List String) (requirement : String) : Prop :=
  requirement ∈ placed ∨ ∃ p ∈ nodes, p.name ∈ placed ∧ requirement ∈ p.provides

/-- The names `order`, listed after `placed`, each new, each the name of a node, and each with
the requirements of every node of that name met by the names listed before it. -/
def ResolvesFrom (nodes : List Dependency) : List String → List String → Prop
  | _, [] => True
  | placed, name :: rest => name ∉ placed ∧ (∃ d ∈ nodes, d.name = name) ∧
    (∀ d ∈ nodes, d.name = name → ∀ r ∈ d.requirements, Satisfied nodes placed r) ∧
    ResolvesFrom nodes (placed ++ [name]) rest

/-- `order` resolves `roots` over the graph `nodes`. -/
def ValidOrder (nodes : List Dependency) (roots order : List String) : Prop :=
  ResolvesFrom nodes [] order ∧ ∀ root ∈ roots, root ∈ order

instance Satisfied.instDecidable (nodes : List Dependency) (placed : List String) (r : String) :
    Decidable (Satisfied nodes placed r) :=
  inferInstanceAs (Decidable (_ ∨ _))

instance ResolvesFrom.instDecidable (nodes : List Dependency) :
    ∀ placed order, Decidable (ResolvesFrom nodes placed order)
  | _, [] => isTrue trivial
  | placed, name :: rest =>
    haveI := ResolvesFrom.instDecidable nodes (placed ++ [name]) rest
    inferInstanceAs (Decidable (_ ∧ _ ∧ _ ∧ _))

instance ValidOrder.instDecidable (nodes : List Dependency) (roots order : List String) :
    Decidable (ValidOrder nodes roots order) :=
  inferInstanceAs (Decidable (_ ∧ _))

/-- A node listed by a resolving order has each requirement named by a node or provided by one,
when all the names placed before the order are node names. -/
theorem ResolvesFrom.requirement_known {nodes : List Dependency} {placed order : List String}
    (h : ResolvesFrom nodes placed order) (hplaced : ∀ y ∈ placed, ∃ d ∈ nodes, d.name = y)
    {d : Dependency} (hd : d ∈ nodes) (hdo : d.name ∈ order) {r : String}
    (hr : r ∈ d.requirements) :
    (∃ p ∈ nodes, p.name = r) ∨ ∃ p ∈ nodes, r ∈ p.provides := by
  induction order generalizing placed with
  | nil => simp at hdo
  | cons name rest ih =>
    obtain ⟨-, hex, hreq, hrest⟩ := h
    rcases List.mem_cons.mp hdo with hdn | hdo
    · rcases hreq d hd hdn r hr with hp | ⟨p, hp, -, hprov⟩
      · exact .inl (hplaced r hp)
      · exact .inr ⟨p, hp, hprov⟩
    · refine ih hrest (fun y hy => ?_) hdo
      rcases List.mem_append.mp hy with hy | hy
      · exact hplaced y hy
      · rw [List.mem_singleton.mp hy]
        exact hex

/-- The contract of `resolve_named_dependencies`: it succeeds exactly when an order resolves the
roots. -/
def ResolverContract
    (resolve : List Dependency → List String → Except String (List String)) : Prop :=
  ∀ nodes roots, (∃ out, resolve nodes roots = .ok out) ↔ ∃ order, ValidOrder nodes roots order

/-- Some resolver meets the contract. -/
theorem exists_resolverContract :
    ∃ resolve : List Dependency → List String → Except String (List String),
      ResolverContract resolve := by
  classical
  exact ⟨fun nodes roots => if ∃ order, ValidOrder nodes roots order then .ok [] else .error "",
    fun nodes roots => by dsimp only; split_ifs with h <;> simp [h]⟩

/-! ### Relaxing a graph -/

/-- `nodes'` relaxes `nodes`: every node name of `nodes` is a node name of `nodes'`, and each
requirement of a node of `nodes'` is a requirement of a node of its name in `nodes`, and is
provided in `nodes'` by a node of the name of each node of `nodes` that provides it. -/
structure Relaxes (nodes' nodes : List Dependency) : Prop where
  names : ∀ d ∈ nodes, ∃ d' ∈ nodes', d'.name = d.name
  requires : ∀ d' ∈ nodes', ∀ r ∈ d'.requirements, ∃ d ∈ nodes, d.name = d'.name ∧
    r ∈ d.requirements ∧
      ∀ p ∈ nodes, r ∈ p.provides → ∃ p' ∈ nodes', p'.name = p.name ∧ r ∈ p'.provides

section Relaxes

variable {nodes nodes' : List Dependency} (h : Relaxes nodes' nodes)
include h

theorem Relaxes.resolvesFrom {placed order : List String} :
    ResolvesFrom nodes placed order → ResolvesFrom nodes' placed order := by
  induction order generalizing placed with
  | nil => exact id
  | cons name rest ih =>
    rintro ⟨hnew, ⟨d, hd, hdn⟩, hreq, hrest⟩
    refine ⟨hnew, ?_, fun d' hd' hdn' r hr => ?_, ih hrest⟩
    · obtain ⟨d', hd', hname⟩ := h.names d hd
      exact ⟨d', hd', hname.trans hdn⟩
    · obtain ⟨d, hd, hname, hrd, hprov⟩ := h.requires d' hd' r hr
      rcases hreq d hd (hname.trans hdn') r hrd with hp | ⟨p, hp, hpn, hpr⟩
      · exact .inl hp
      · obtain ⟨p', hp', hname', hpr'⟩ := hprov p hp hpr
        exact .inr ⟨p', hp', hname' ▸ hpn, hpr'⟩

theorem Relaxes.validOrder {roots order : List String} :
    ValidOrder nodes roots order → ValidOrder nodes' roots order :=
  fun ⟨hres, hroots⟩ => ⟨h.resolvesFrom hres, hroots⟩

end Relaxes

/-! ### Assuming one more test -/

variable {H : Type}

/-- Assuming a registered test whose node bears its name relaxes the graph of `get_test_order`
when no other test that the scenario does not assume requires a name the test provides: its node
keeps its name and loses its requirements, and what it provided was required by no other node. -/
theorem testGraph_assume_relaxes {names : UnitNames} {sd : ScenarioDescription}
    {manager : UnitManager H} {assumed : UnitName} {test : H}
    (htest : manager.getTest assumed = some test)
    (hname : (manager.lock test).name = names.toString assumed)
    (hprov : ∀ testName other, manager.getTest testName = some other → testName ≠ assumed →
      testName ∉ sd.assumptions → ∀ r ∈ (manager.lock other).requirements,
        r ∉ (manager.lock test).provides) :
    Relaxes (testGraph names { sd with assumptions := sd.assumptions ++ [assumed] } manager)
      (testGraph names sd manager) := by
  have hsame : ∀ e ∈ manager.tests.entries, e.1 = assumed → e.2 = test := fun e he hk =>
    Option.some.inj ((AList.mem_lookup_iff.mpr he).symm.trans (hk ▸ htest))
  unfold testGraph
  constructor
  · simp only [List.mem_map]
    rintro _ ⟨e, he, rfl⟩
    refine ⟨_, ⟨e, he, rfl⟩, ?_⟩
    by_cases hk : e.1 = assumed
    · by_cases ha : e.1 ∈ sd.assumptions
      · simp [ha]
      · have ha' : assumed ∉ sd.assumptions := hk ▸ ha
        simp [ha', hk, hsame e he hk, hname, AssumptionDependency.new]
    · simp [hk]
  · simp only [List.mem_map, List.mem_append, List.mem_singleton]
    rintro _ ⟨e, he, rfl⟩ r hr
    by_cases hkA : e.1 ∈ sd.assumptions ∨ e.1 = assumed
    · simp [hkA, AssumptionDependency.new] at hr
    · rw [if_neg hkA] at hr ⊢
      obtain ⟨ha, hk⟩ := not_or.mp hkA
      refine ⟨_, ⟨e, he, rfl⟩, by rw [if_neg ha], by rwa [if_neg ha], ?_⟩
      rintro _ ⟨p, hp, rfl⟩ hrp
      by_cases hpk : p.1 = assumed
      · have hfree := hprov e.1 e.2 (AList.mem_lookup_iff.mpr he) hk ha r hr
        by_cases hpa : p.1 ∈ sd.assumptions
        · simp [hpa, AssumptionDependency.new] at hrp
        · rw [if_neg hpa, hsame p hp hpk] at hrp
          exact absurd hrp hfree
      · exact ⟨_, ⟨p, hp, rfl⟩, by simp [hpk], by simpa [hpk] using hrp⟩

/-- Under the resolver's contract, when `get_test_order` returns an order, assuming one more
registered test whose node bears its name never makes it return `Err`, when no other test that the
scenario does not assume requires a name the test provides: the resolver still succeeds on the
relaxed graph. -/
theorem getTestOrder_assume_resolves {names : UnitNames}
    {resolve : List Dependency → List String → Except String (List String)}
    (hres : ResolverContract resolve) {sd : ScenarioDescription} {manager : UnitManager H}
    {assumed : UnitName} {test : H} (htest : manager.getTest assumed = some test)
    (hname : (manager.lock test).name = names.toString assumed)
    (hprov : ∀ testName other, manager.getTest testName = some other → testName ≠ assumed →
      testName ∉ sd.assumptions → ∀ r ∈ (manager.lock other).requirements,
        r ∉ (manager.lock test).provides)
    (hok : ∃ order, getTestOrder names resolve sd manager = .ok order)
    (reason : UnitIncompatibleReason) :
    getTestOrder names resolve { sd with assumptions := sd.assumptions ++ [assumed] } manager ≠
      .error (.err reason) := by
  obtain ⟨order, hord⟩ := hok
  obtain ⟨out, -, hr, -⟩ := getTestOrder_ok hord
  obtain ⟨valid, hvalid⟩ := (hres _ _).mp ⟨out, hr⟩
  obtain ⟨out', hr'⟩ := (hres _ _).mpr
    ⟨valid, (testGraph_assume_relaxes htest hname hprov).validOrder hvalid⟩
  cases reason with
  | incompatibleJig => exact getTestOrder_ne_incompatibleJig _ _ _ _
  | dependencyError r =>
    rw [Ne, getTestOrder_err]
    intro herr
    rw [herr] at hr'
    cases hr'

/-- A registry of three tests in a chain: `A` requires `B`, which requires `C`. -/
def chainManager : UnitManager Nat where
  tests := ⟨[⟨⟨"test", "A"⟩, 0⟩, ⟨⟨"test", "B"⟩, 1⟩, ⟨⟨"test", "C"⟩, 2⟩],
    by unfold List.NodupKeys; decide⟩
  lock
    | 0 => ⟨"A", ["B"], [], []⟩
    | 1 => ⟨"B", ["C"], [], []⟩
    | _ => ⟨"C", [], [], []⟩
  jigIsLoaded _ := false
  handles_nodup := by decide

/-- A scenario that runs `A` and assumes nothing. -/
def chainScenario : ScenarioDescription :=
  ⟨⟨"scenario", "s"⟩, "", "", [], [⟨"test", "A"⟩], []⟩

/-- A registry where `A` requires `B`, and `B` provides `log`, which no test requires. -/
def logManager : UnitManager Nat where
  tests := ⟨[⟨⟨"test", "A"⟩, 0⟩, ⟨⟨"test", "B"⟩, 1⟩], by unfold List.NodupKeys; decide⟩
  lock test := if test = 0 then ⟨"A", ["B"], [], []⟩ else ⟨"B", [], [], ["log"]⟩
  jigIsLoaded _ := false
  handles_nodup := by decide

/-- `B`, `A` resolves the scenario that runs `A`; `B` provides `log`, which `A` does not
require, so assuming `B` keeps the scenario resolvable. -/
theorem provider_assume_resolves :
    ∃ resolve : List Dependency → List String → Except String (List String),
      ResolverContract resolve ∧ ∀ reason,
        getTestOrder UnitNames.plain resolve
          { chainScenario with assumptions := chainScenario.assumptions ++ [⟨"test", "B"⟩] }
          logManager ≠ .error (.err reason) := by
  obtain ⟨resolve, hc⟩ := exists_resolverContract
  obtain ⟨out, hout⟩ := (hc (testGraph UnitNames.plain chainScenario logManager) ["A"]).mpr
    ⟨["B", "A"], by decide⟩
  have hfree : ∀ e ∈ logManager.tests.entries, e.1 ≠ ⟨"test", "B"⟩ →
      ∀ r ∈ (logManager.lock e.2).requirements, r ∉ (logManager.lock 1).provides := by decide
  exact ⟨resolve, hc, getTestOrder_assume_resolves hc
    (show logManager.getTest ⟨"test", "B"⟩ = some 1 from rfl) rfl
    (fun testName other h hne _ => hfree ⟨testName, other⟩ (AList.mem_lookup_iff.mp h) hne)
    ⟨_, getTestOrder_of_readBack hout (readBack_plain out)⟩⟩

/-- Assuming the only provider of a requirement: under a resolver that meets the contract,
`get_test_order` returns an order for a scenario that runs `A`, and returns `Err` once `T`, which
provides the `cap` that `A` requires, is assumed. -/
theorem assume_provider_fails :
    ∃ resolve : List Dependency → List String → Except String (List String),
      ResolverContract resolve ∧ capManager.getTest ⟨"test", "T"⟩ = some 1 ∧
      (∃ order, getTestOrder UnitNames.plain resolve capScenario capManager = .ok order) ∧
      ∃ reason, getTestOrder UnitNames.plain resolve
        { capScenario with assumptions := capScenario.assumptions ++ [⟨"test", "T"⟩] } capManager =
          .error (.err (.dependencyError reason)) := by
  obtain ⟨resolve, hc⟩ := exists_resolverContract
  refine ⟨resolve, hc, rfl, ?_, ?_⟩
  · obtain ⟨out, hout⟩ := (hc (testGraph UnitNames.plain capScenario capManager) ["A"]).mpr
      ⟨["T", "A"], by decide⟩
    exact ⟨_, getTestOrder_of_readBack hout (readBack_plain out)⟩
  · cases hr : resolve (testGraph UnitNames.plain
        { capScenario with assumptions := capScenario.assumptions ++ [⟨"test", "T"⟩] }
        capManager) ["A"] with
    | error reason => exact ⟨reason, (getTestOrder_err _ _ _ _ reason).mpr hr⟩
    | ok out =>
      obtain ⟨order, hres, hroots⟩ := (hc _ _).mp ⟨out, hr⟩
      have hknown := hres.requirement_known (by simp)
        (show ⟨"A", ["cap"], [], []⟩ ∈ _ from by decide) (hroots "A" (by simp))
        (show "cap" ∈ ["cap"] from by simp)
      exact absurd hknown (by decide)

end Exclave

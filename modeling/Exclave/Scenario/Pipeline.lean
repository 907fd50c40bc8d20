import Mathlib.Data.List.Permutation
import Mathlib.Data.List.Sublists
import Exclave.Scenario.Select
import Exclave.Scenario.Resolver

/-! The scheduling code as a whole.  `get_test_order` reads the resolved names back with
`expect("Invalid test name generated")`, on the ground, its comment says, that the names are
internally generated, and `Scenario::new` checks each test out with `expect("Unable to check out
requested test from library")`.  Neither fires when the resolver returns only names of the nodes
it was given and each registered test's node bears its name, which reads back to it: `select`
then returns a scenario or `Err`, and a scenario exactly when the jig check passes and some order
resolves the description's tests, if the resolver meets its contract.  A scenario that `select`
builds runs every test its description lists and does not assume, and when the resolver's order
resolves the roots, the scenario is a schedule: it runs no test twice, and each test after what it
requires. -/

namespace Exclave

variable {H : Type}

/-- The resolver returns only names of the nodes it was given. -/
def EmitsNodeNames (resolve : List Dependency → List String → Except String (List String)) :
    Prop :=
  ∀ nodes roots out, resolve nodes roots = .ok out → ∀ s ∈ out, ∃ d ∈ nodes, d.name = s

/-- Each registered test's node bears the test's name, and that name reads back to the test. -/
structure NamesRoundTrip (names : UnitNames) (manager : UnitManager H) : Prop where
  node_name : ∀ testName test, manager.getTest testName = some test →
    (manager.lock test).name = names.toString testName
  read_back : ∀ testName ∈ manager.tests,
    names.fromStr (names.toString testName) "test" = .ok testName

section RoundTrip

variable {names : UnitNames} {manager : UnitManager H} (hn : NamesRoundTrip names manager)
include hn

/-- Every node of the graph is named after a registered test, assumed or not. -/
theorem NamesRoundTrip.testGraph_name {sd : ScenarioDescription} {d : Dependency}
    (hd : d ∈ testGraph names sd manager) :
    ∃ testName ∈ manager.tests, d.name = names.toString testName := by
  obtain ⟨e, he, rfl⟩ := List.mem_map.mp hd
  refine ⟨e.1, List.mem_keys_of_mem he, ?_⟩
  split_ifs
  · rfl
  · exact hn.node_name _ _ (AList.mem_lookup_iff.mpr he)

/-- Under the resolver's promise, each resolved name reads back to a registered test. -/
theorem NamesRoundTrip.resolved
    {resolve : List Dependency → List String → Except String (List String)}
    (hemit : EmitsNodeNames resolve) {sd : ScenarioDescription} {roots out : List String}
    (hr : resolve (testGraph names sd manager) roots = .ok out) {s : String} (hs : s ∈ out) :
    ∃ testName ∈ manager.tests, names.fromStr s "test" = .ok testName := by
  obtain ⟨d, hd, rfl⟩ := hemit _ _ _ hr s hs
  obtain ⟨testName, hmem, hname⟩ := hn.testGraph_name hd
  exact ⟨testName, hmem, hname ▸ hn.read_back testName hmem⟩

/-- Under the resolver's promise, a resolved name reads back only to a registered test. -/
theorem NamesRoundTrip.mem_of_resolved
    {resolve : List Dependency → List String → Except String (List String)}
    (hemit : EmitsNodeNames resolve) {sd : ScenarioDescription} {roots out : List String}
    (hr : resolve (testGraph names sd manager) roots = .ok out) {s : String} (hs : s ∈ out)
    {testName : UnitName} (hread : names.fromStr s "test" = .ok testName) :
    testName ∈ manager.tests := by
  obtain ⟨m, hm, hread'⟩ := hn.resolved hemit hr hs
  rw [hread] at hread'
  cases hread'
  exact hm

end RoundTrip

/-- With `UnitNames.plain`, the names round trip when each registered test is of kind `test` and
its node bears the test's base name. -/
theorem namesRoundTrip_plain {manager : UnitManager H}
    (h : ∀ e ∈ manager.tests.entries, e.1.kind = "test" ∧ (manager.lock e.2).name = e.1.id) :
    NamesRoundTrip UnitNames.plain manager := by
  refine ⟨fun testName test ht => (h _ (AList.mem_lookup_iff.mp ht)).2, fun testName hmem => ?_⟩
  obtain ⟨test, he⟩ := List.mem_keys.mp hmem
  obtain ⟨kind, id⟩ := testName
  obtain rfl : kind = "test" := (h _ he).1
  rfl

theorem Scenario.new_error {desc : ScenarioDescription} {order : List UnitName}
    {manager : UnitManager H} {e : Failure} (h : Scenario.new desc order manager = .error e) :
    Scenario.checkOut manager order [] ∅ = .error e := by
  rcases bind_eq_error.mp h with hc | ⟨⟨seq, tests⟩, -, hp⟩
  · exact hc
  · cases hp

/-- When the resolver returns only names of the nodes it was given, and each registered test's
node bears its name, which reads back to it, `select` never panics: neither `expect` of
`get_test_order` and `Scenario::new` fires, whatever the scenario, and `select` returns a scenario
or `Err`. -/
theorem select_never_panics (names : UnitNames)
    (resolve : List Dependency → List String → Except String (List String))
    (sd : ScenarioDescription) (manager : UnitManager H) (hemit : EmitsNodeNames resolve)
    (hn : NamesRoundTrip names manager) (message : String) :
    select names resolve sd manager ≠ .error (.panic message) := by
  intro h
  rcases bind_eq_error.mp h with hc | ⟨order, hc, hnew⟩ <;> rw [isCompatible_eq] at hc <;>
    split_ifs at hc
  · cases hc
  · obtain ⟨out, hr, s, hs, hunread⟩ := getTestOrder_panic_unread hc
    obtain ⟨testName, -, hread⟩ := hn.resolved hemit hr hs
    exact hunread testName hread
  · obtain ⟨out, testNames, hr, hback, rfl⟩ := getTestOrder_ok hc
    obtain ⟨-, testName, hin, hnone⟩ := checkOut_error.mp (Scenario.new_error hnew)
    obtain ⟨s, hs, hread⟩ := forall₂_exists_left hback (List.mem_filter.mp hin).1
    have hsome : (manager.getTest testName).isSome :=
      AList.lookup_isSome.mpr (hn.mem_of_resolved hemit hr hs hread)
    rw [hnone] at hsome
    cases hsome

/-- A resolver that returns the name of every node, in order. -/
def emitNodeNames (nodes : List Dependency) (_ : List String) : Except String (List String) :=
  .ok (nodes.map Dependency.name)

/-- `capManager` with `UnitNames.plain` and a resolver that returns every node's name. -/
theorem select_cap_never_panics :
    EmitsNodeNames emitNodeNames ∧ NamesRoundTrip UnitNames.plain capManager ∧
      ∀ message, select UnitNames.plain emitNodeNames capScenario capManager ≠
        .error (.panic message) := by
  have hemit : EmitsNodeNames emitNodeNames := fun nodes _ out h s hs => by
    cases h
    exact List.mem_map.mp hs
  have hn : NamesRoundTrip UnitNames.plain capManager := namesRoundTrip_plain (by decide)
  exact ⟨hemit, hn, select_never_panics _ _ _ _ hemit hn⟩

/-! ### Resolved orders -/

/-- The resolver returns only orders that resolve the roots. -/
def ReturnsValidOrder (resolve : List Dependency → List String → Except String (List String)) :
    Prop :=
  ∀ nodes roots out, resolve nodes roots = .ok out → ValidOrder nodes roots out

theorem ResolvesFrom.name_mem {nodes : List Dependency} {placed order : List String}
    (h : ResolvesFrom nodes placed order) {s : String} (hs : s ∈ order) :
    ∃ d ∈ nodes, d.name = s := by
  induction order generalizing placed with
  | nil => simp at hs
  | cons name rest ih =>
    obtain ⟨-, hex, -, hrest⟩ := h
    rcases List.mem_cons.mp hs with rfl | hs
    · exact hex
    · exact ih hrest hs

theorem ResolvesFrom.nodup {nodes : List Dependency} {placed order : List String}
    (h : ResolvesFrom nodes placed order) : order.Nodup ∧ ∀ s ∈ order, s ∉ placed := by
  induction order generalizing placed with
  | nil => simp
  | cons name rest ih =>
    obtain ⟨hnew, -, -, hrest⟩ := h
    obtain ⟨hnd, hfresh⟩ := ih hrest
    refine ⟨List.nodup_cons.mpr ⟨fun hm => hfresh name hm (by simp), hnd⟩, fun s hs => ?_⟩
    rcases List.mem_cons.mp hs with rfl | hs
    · exact hnew
    · exact fun hp => hfresh s hs (List.mem_append_left _ hp)

/-- A resolver that meets the contract by search: the first arrangement of some of the node
names that resolves the roots. -/
def searchResolve (nodes : List Dependency) (roots : List String) :
    Except String (List String) :=
  match ((nodes.map Dependency.name).sublists.flatMap List.permutations').find?
      fun order => decide (ValidOrder nodes roots order) with
  | some order => .ok order
  | none => .error "unresolved"

theorem searchResolve_valid : ReturnsValidOrder searchResolve := fun nodes roots out h => by
  unfold searchResolve at h
  split at h
  · rename_i hfind
    cases h
    simpa using List.find?_some hfind
  · cases h

/-- The search finds an order whenever one exists: a valid order names each node at most once,
so it is an arrangement of a sublist of the node names. -/
theorem searchResolve_contract : ResolverContract searchResolve := fun nodes roots => by
  refine ⟨fun ⟨out, h⟩ => ⟨out, searchResolve_valid nodes roots out h⟩, fun ⟨order, hvalid⟩ => ?_⟩
  have hsub : order ⊆ nodes.map Dependency.name := fun s hs => by
    obtain ⟨d, hd, rfl⟩ := hvalid.1.name_mem hs
    exact List.mem_map_of_mem _ hd
  obtain ⟨l, hperm, hl⟩ := List.subperm_of_subset hvalid.1.nodup.1 hsub
  have hmem : order ∈ (nodes.map Dependency.name).sublists.flatMap List.permutations' :=
    List.mem_flatMap.mpr ⟨l, List.mem_sublists.mpr hl, List.mem_permutations'.mpr hperm.symm⟩
  obtain ⟨out, hout⟩ := Option.isSome_iff_exists.mp
    ((List.find?_isSome (p := fun order => decide (ValidOrder nodes roots order))).mpr
      ⟨order, hmem, decide_eq_true hvalid⟩)
  exact ⟨out, by simp only [searchResolve, hout]⟩

/-! ### When `select` succeeds -/

/-- Under a resolver that meets its contract and returns only names of the nodes it was given, and
registered tests whose nodes bear their names, which read back to them, `select` returns a
scenario exactly when the scenario names no jig or a loaded one and some order resolves its tests
over the graph of `get_test_order`: it never fails on a scenario it can run. -/
theorem select_ok_iff (names : UnitNames)
    (resolve : List Dependency → List String → Except String (List String))
    (sd : ScenarioDescription) (manager : UnitManager H) (hc : ResolverContract resolve)
    (hemit : EmitsNodeNames resolve) (hn : NamesRoundTrip names manager) :
    (∃ scenario, select names resolve sd manager = .ok scenario) ↔
      (sd.jigs = [] ∨ ∃ jig ∈ sd.jigs, manager.jigIsLoaded jig = true) ∧
        ∃ order, ValidOrder (testGraph names sd manager) (sd.tests.map names.toString) order := by
  constructor
  · rintro ⟨scenario, h⟩
    obtain ⟨order, hcompat, -⟩ := bind_eq_ok.mp h
    rw [isCompatible_eq] at hcompat
    split_ifs at hcompat with hjigs
    obtain ⟨out, -, hres, -, -⟩ := getTestOrder_ok hcompat
    refine ⟨?_, (hc _ _).mp ⟨out, hres⟩⟩
    by_cases hnil : sd.jigs = []
    · exact .inl hnil
    · exact .inr (by simpa [hnil] using hjigs)
  · rintro ⟨hjigs, horder⟩
    obtain ⟨out, hres⟩ := (hc _ _).mpr horder
    obtain ⟨testNames, hback⟩ := ReadBack.exists fun s hs =>
      (hn.resolved hemit hres hs).imp fun _ h => h.2
    obtain ⟨scenario, h, -⟩ := select_succeeds hjigs hres hback fun testName hin _ => by
      obtain ⟨s, hs, hread⟩ := forall₂_exists_left hback hin
      exact AList.lookup_isSome.mpr (hn.mem_of_resolved hemit hres hs hread)
    exact ⟨scenario, h⟩

/-- The search resolver meets the contract and returns only node names, and it selects the chain
scenario, which runs `C`, `B`, `A`. -/
theorem chain_select_ok :
    ResolverContract searchResolve ∧ EmitsNodeNames searchResolve ∧
      ∃ scenario, select UnitNames.plain searchResolve chainScenario chainManager =
        .ok scenario ∧ scenario.testSequence = [2, 1, 0] := by
  have hemit : EmitsNodeNames searchResolve := fun nodes roots out h _ hs =>
    (searchResolve_valid nodes roots out h).1.name_mem hs
  obtain ⟨scenario, h⟩ := (select_ok_iff UnitNames.plain searchResolve chainScenario chainManager
    searchResolve_contract hemit (namesRoundTrip_plain (by decide))).mpr
      ⟨.inl rfl, ["C", "B", "A"], by decide⟩
  have hseq : (select UnitNames.plain searchResolve chainScenario chainManager).map
      Scenario.testSequence = .ok [2, 1, 0] := rfl
  rw [h] at hseq
  exact ⟨searchResolve_contract, hemit, scenario, h, Except.ok.inj hseq⟩

/-! ### What the scenario runs -/

/-- The resolver's order holds every root. -/
def IncludesRoots (resolve : List Dependency → List String → Except String (List String)) :
    Prop :=
  ∀ nodes roots out, resolve nodes roots = .ok out → ∀ root ∈ roots, root ∈ out

/-- When the resolver's order holds every root, a scenario that `select` builds runs every test
its description lists and does not assume, when the test's name reads back to it. -/
theorem select_runs_listed (names : UnitNames)
    (resolve : List Dependency → List String → Except String (List String))
    (sd : ScenarioDescription) (manager : UnitManager H) (hroots : IncludesRoots resolve)
    {scenario : Scenario H} (h : select names resolve sd manager = .ok scenario)
    {testName : UnitName} (hlisted : testName ∈ sd.tests) (hassumed : testName ∉ sd.assumptions)
    (hround : names.fromStr (names.toString testName) "test" = .ok testName) :
    scenario.usesTest testName = true := by
  obtain ⟨order, hc, hnew⟩ := bind_eq_ok.mp h
  rw [isCompatible_eq] at hc
  split_ifs at hc
  obtain ⟨out, testNames, hr, hback, rfl⟩ := getTestOrder_ok hc
  obtain ⟨m, hm, hread⟩ :=
    forall₂_exists_right hback (hroots _ _ _ hr _ (List.mem_map_of_mem _ hlisted))
  rw [hround] at hread
  cases hread
  exact (Scenario.new_usesTest hnew _).mpr (List.mem_filter.mpr ⟨hm, by simpa using hassumed⟩)

/-- `capScenario` lists `A`, and a resolver that returns the roots runs it. -/
theorem select_cap_runs_listed :
    ∃ scenario, select UnitNames.plain (fun _ roots => .ok roots) capScenario capManager =
      .ok scenario ∧ scenario.usesTest ⟨"test", "A"⟩ = true :=
  ⟨_, rfl, select_runs_listed UnitNames.plain (fun _ roots => .ok roots) capScenario capManager
    (fun _ _ _ h _ hr => by cases h; exact hr) rfl (by decide) (by decide) rfl⟩

/-! ### Requirements before the tests that need them -/

/-- The requirements of a node listed at some position are met by the names before it. -/
theorem ResolvesFrom.requirements_met {nodes : List Dependency} {placed pre post : List String}
    {s : String} (h : ResolvesFrom nodes placed (pre ++ s :: post)) {d : Dependency}
    (hd : d ∈ nodes) (hds : d.name = s) {r : String} (hr : r ∈ d.requirements) :
    Satisfied nodes (placed ++ pre) r := by
  induction pre generalizing placed with
  | nil =>
    obtain ⟨-, -, hreq, -⟩ := h
    simpa using hreq d hd hds r hr
  | cons name rest ih =>
    obtain ⟨-, -, -, hrest⟩ := h
    simpa using ih hrest

theorem NamesRoundTrip.read_of_node {names : UnitNames} {manager : UnitManager H}
    (hn : NamesRoundTrip names manager) {sd : ScenarioDescription} {d : Dependency}
    (hd : d ∈ testGraph names sd manager) {m : UnitName}
    (hread : names.fromStr d.name "test" = .ok m) :
    names.toString m = d.name ∧ m ∈ manager.tests := by
  obtain ⟨k, hk, hname⟩ := hn.testGraph_name hd
  rw [hname, hn.read_back k hk] at hread
  cases hread
  exact ⟨hname.symm, hk⟩

theorem forall₂_split {α β : Type} {R : α → β → Prop} {l : List α} {pre post : List β} {b : β}
    (h : List.Forall₂ R l (pre ++ b :: post)) :
    ∃ pre' a post', l = pre' ++ a :: post' ∧ List.Forall₂ R pre' pre ∧ R a b ∧
      List.Forall₂ R post' post := by
  induction pre generalizing l with
  | nil =>
    obtain ⟨a, post', hab, hpost, rfl⟩ := List.forall₂_cons_right_iff.mp h
    exact ⟨[], a, post', rfl, .nil, hab, hpost⟩
  | cons c pre ih =>
    obtain ⟨a, l', hac, hrest, rfl⟩ := List.forall₂_cons_right_iff.mp h
    obtain ⟨pre', a', post', rfl, hpre, hab, hpost⟩ := ih hrest
    exact ⟨a :: pre', a', post', rfl, .cons hac hpre, hab, hpost⟩

theorem sublist_pair {α : Type} {a b : α} {l l' : List α} (ha : a ∈ l) :
    List.Sublist [a, b] (l ++ b :: l') :=
  (List.singleton_sublist.mpr ha).append ((List.nil_sublist l').cons₂ b)

/-- Under a resolver that returns only orders resolving the roots, and registered tests whose
nodes bear their names, which read back to them, the order of `get_test_order` runs each test
after what it requires: every requirement of a test of the order is the name of an assumed test,
or the name of a test earlier in the order, or provided by one. -/
theorem getTestOrder_requirements_met (names : UnitNames)
    (resolve : List Dependency → List String → Except String (List String))
    (sd : ScenarioDescription) (manager : UnitManager H) (hvalid : ReturnsValidOrder resolve)
    (hn : NamesRoundTrip names manager) {order : List UnitName}
    (h : getTestOrder names resolve sd manager = .ok order) {testName : UnitName}
    (hin : testName ∈ order) {test : H} (htest : manager.getTest testName = some test)
    {r : String} (hr : r ∈ (manager.lock test).requirements) :
    (∃ m ∈ sd.assumptions, m ∈ manager.tests ∧ names.toString m = r) ∨
      ∃ m t, List.Sublist [m, testName] order ∧ manager.getTest m = some t ∧
        (names.toString m = r ∨ r ∈ (manager.lock t).provides) := by
  obtain ⟨out, testNames, hres, hback, rfl⟩ := getTestOrder_ok h
  have hout := (hvalid _ _ _ hres).1
  obtain ⟨hmem, hA⟩ := List.mem_filter.mp hin
  have hA' : testName ∉ sd.assumptions := by simpa using hA
  obtain ⟨tPre, tPost, rfl⟩ := List.append_of_mem hmem
  obtain ⟨oPre, s, oPost, rfl, hpre, hs, -⟩ := forall₂_split hback
  have hbefore : ∀ m ∈ tPre, m ∉ sd.assumptions → List.Sublist [m, testName]
      ((tPre ++ testName :: tPost).filter fun testName => testName ∉ sd.assumptions) :=
    fun m hm hmA => by
      rw [List.filter_append, List.filter_cons_of_pos (by simpa using hA')]
      exact sublist_pair (List.mem_filter.mpr ⟨hm, by simpa using hmA⟩)
  have hnode : manager.lock test ∈ testGraph names sd manager :=
    List.mem_map.mpr ⟨⟨testName, test⟩, AList.mem_lookup_iff.mp htest, by simp [hA']⟩
  have hsname : (manager.lock test).name = s := by
    obtain ⟨d, hd, rfl⟩ := hout.name_mem (List.mem_append_right _ (List.mem_cons_self _ _))
    rw [hn.node_name _ _ htest, (hn.read_of_node hd hs).1]
  have hsat := hout.requirements_met hnode hsname hr
  rw [List.nil_append] at hsat
  rcases hsat with hplaced | ⟨p, hp, hpname, hprov⟩
  · obtain ⟨m, hm, hread⟩ := forall₂_exists_right hpre hplaced
    obtain ⟨d, hd, rfl⟩ := hout.name_mem (List.mem_append_left _ hplaced)
    obtain ⟨hmname, hmmem⟩ := hn.read_of_node hd hread
    by_cases hmA : m ∈ sd.assumptions
    · exact .inl ⟨m, hmA, hmmem, hmname⟩
    · obtain ⟨t, ht⟩ := Option.isSome_iff_exists.mp (AList.lookup_isSome.mpr hmmem)
      exact .inr ⟨m, t, hbefore m hm hmA, ht, .inl hmname⟩
  · obtain ⟨e, he, rfl⟩ := List.mem_map.mp hp
    by_cases heA : e.1 ∈ sd.assumptions
    · simp [heA, AssumptionDependency.new] at hprov
    · rw [if_neg heA] at hpname hprov
      obtain ⟨m, hm, hread⟩ := forall₂_exists_right hpre hpname
      rw [hn.node_name _ _ (AList.mem_lookup_iff.mpr he),
        hn.read_back _ (List.mem_keys_of_mem he)] at hread
      cases hread
      exact .inr ⟨e.1, e.2, hbefore e.1 hm heA, AList.mem_lookup_iff.mpr he, .inr hprov⟩

/-- Two entries in order on one side of `Forall₂` have partners in order on the other. -/
theorem forall₂_sublist_pair {α β : Type} {R : α → β → Prop} {l₁ : List α} {l₂ : List β}
    (h : List.Forall₂ R l₁ l₂) {a b : α} (hab : List.Sublist [a, b] l₁) :
    ∃ a' b', List.Sublist [a', b'] l₂ ∧ R a a' ∧ R b b' := by
  induction h with
  | nil => cases hab
  | cons hxy hrest ih =>
    cases hab with
    | cons _ hab =>
      obtain ⟨a', b', hs, ha, hb⟩ := ih hab
      exact ⟨a', b', hs.cons _, ha, hb⟩
    | cons₂ _ hb =>
      obtain ⟨b', hb', hbb⟩ := forall₂_exists_right hrest (List.singleton_sublist.mp hb)
      exact ⟨_, b', (List.singleton_sublist.mpr hb').cons₂ _, hxy, hbb⟩

/-- Under a resolver that returns only orders resolving the roots, and registered tests whose
nodes bear their names, which read back to them, a scenario that `select` builds is a schedule:
its test sequence runs no test twice, and runs each test after a test that meets each of its
requirements, by its name or by what it provides, unless the requirement names an assumed test. -/
theorem select_schedule_valid (names : UnitNames)
    (resolve : List Dependency → List String → Except String (List String))
    (sd : ScenarioDescription) (manager : UnitManager H) (hvalid : ReturnsValidOrder resolve)
    (hn : NamesRoundTrip names manager) {scenario : Scenario H}
    (h : select names resolve sd manager = .ok scenario) :
    scenario.testSequence.Nodup ∧
      ∀ test ∈ scenario.testSequence, ∀ r ∈ (manager.lock test).requirements,
        (∃ m ∈ sd.assumptions, m ∈ manager.tests ∧ names.toString m = r) ∨
          ∃ t, List.Sublist [t, test] scenario.testSequence ∧
            ((manager.lock t).name = r ∨ r ∈ (manager.lock t).provides) := by
  obtain ⟨order, hc, hnew⟩ := bind_eq_ok.mp h
  rw [isCompatible_eq] at hc
  split_ifs at hc
  have hfor := (Scenario.new_ok hnew).1
  refine ⟨?_, fun test htest r hr => ?_⟩
  · obtain ⟨out, testNames, hres, hback, rfl⟩ := getTestOrder_ok hc
    have hout := (hvalid _ _ _ hres).1
    have hmap := hback.map_toString fun s hs m hread => by
      obtain ⟨d, hd, rfl⟩ := hout.name_mem hs
      exact (hn.read_of_node hd hread).1
    have hnd : testNames.Nodup := List.Nodup.of_map names.toString (hmap ▸ hout.nodup.1)
    exact (List.rel_nodup manager.holds_biUnique hfor).mp (hnd.filter _)
  · obtain ⟨testName, hin, hholds⟩ := forall₂_exists_left hfor htest
    rcases getTestOrder_requirements_met names resolve sd manager hvalid hn hc hin hholds hr with
      hA | ⟨m, t, hsub, ht, hmt⟩
    · exact .inl hA
    · obtain ⟨t', test', hsub', hm, htn⟩ := forall₂_sublist_pair hfor hsub
      obtain rfl : t' = t := Option.some.inj (hm.symm.trans ht)
      obtain rfl : test' = test := Option.some.inj (htn.symm.trans hholds)
      refine .inr ⟨t', hsub', ?_⟩
      rw [hn.node_name _ _ ht]
      exact hmt

/-- A resolver that returns the node names in reverse, when that order resolves the roots. -/
def reverseIfValid (nodes : List Dependency) (roots : List String) :
    Except String (List String) :=
  if ValidOrder nodes roots (nodes.map Dependency.name).reverse then
    .ok (nodes.map Dependency.name).reverse
  else .error "unresolved"

/-- The chain scenario runs `C`, `B`, `A`: `A` requires `B`, which runs before it. -/
theorem chain_schedule_valid :
    ReturnsValidOrder reverseIfValid ∧ NamesRoundTrip UnitNames.plain chainManager ∧
      ∃ scenario, select UnitNames.plain reverseIfValid chainScenario chainManager =
          .ok scenario ∧ scenario.testSequence = [2, 1, 0] ∧
        scenario.testSequence.Nodup ∧
        ∀ test ∈ scenario.testSequence, ∀ r ∈ (chainManager.lock test).requirements,
          (∃ m ∈ chainScenario.assumptions, m ∈ chainManager.tests ∧
            UnitNames.plain.toString m = r) ∨
            ∃ t, List.Sublist [t, test] scenario.testSequence ∧
              ((chainManager.lock t).name = r ∨ r ∈ (chainManager.lock t).provides) := by
  have hvalid : ReturnsValidOrder reverseIfValid := fun nodes roots out h => by
    unfold reverseIfValid at h
    split_ifs at h with hv
    cases h
    exact hv
  have hn : NamesRoundTrip UnitNames.plain chainManager := namesRoundTrip_plain (by decide)
  exact ⟨hvalid, hn, _, rfl, rfl,
    select_schedule_valid UnitNames.plain reverseIfValid chainScenario chainManager hvalid hn rfl⟩

end Exclave
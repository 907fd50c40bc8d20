import Mathlib.Data.List.Basic

/-! Unit names and the two error types of the scheduling code.  `unit.rs`, which defines them,
is not part of this source: the types follow the spec, and the three functions of `unit.rs` that
`scenario.rs` calls are gathered in `UnitNames`, a parameter of everything that uses them, so that
each result holds for every choice of them. -/

namespace Exclave

/-- Modelled from the spec: `UnitName` of `unit.rs`, a kind tag (`jig`, `test`, `scenario`, ...)
and a base name.  Two names are equal when both parts are. -/
structure UnitName where
  kind : String
  id : String
  deriving DecidableEq, Repr

/-- Modelled from the spec: why a unit file gives no description.  `from_path` returns
`MissingSection` itself; the other variants arrive through `?` from reading, parsing, and
`UnitName::from_list`. -/
inductive UnitDescriptionError where
  | missingSection (category : String)
  | invalidName (reason : String)
  | fileError (reason : String)
  | parseError (reason : String)
  deriving DecidableEq, Repr

/-- Modelled from the spec: why a unit is incompatible.  A failure of the dependency resolver
arrives through `?` as `dependencyError` with the resolver's reason. -/
inductive UnitIncompatibleReason where
  | incompatibleJig
  | dependencyError (reason : String)
  deriving DecidableEq, Repr

/-- The functions of `UnitName` that `scenario.rs` calls: `to_string`; `from_str` with a default
kind, whose error is kept as its `Debug` text, the text `expect` puts in its panic message; and
`from_path` and `from_list` with a default kind, their errors already converted by `?`. -/
structure UnitNames where
  toString : UnitName → String
  fromStr : String → String → Except String UnitName
  fromPath : String → Except UnitDescriptionError UnitName
  fromList : String → String → Except UnitDescriptionError (List UnitName)

/-- A choice of the `unit.rs` functions for runs on concrete inputs: a name is its base name,
given the default kind, and a list holds one name. -/
def UnitNames.plain : UnitNames where
  toString name := name.id
  fromStr s kind := .ok ⟨kind, s⟩
  fromPath path := .ok ⟨"scenario", path⟩
  fromList s kind := .ok [⟨kind, s⟩]

theorem bind_eq_ok {ε α β : Type} {x : Except ε α} {f : α → Except ε β} {b : β} :
    x >>= f = .ok b ↔ ∃ a, x = .ok a ∧ f a = .ok b := by
  cases x <;> simp [bind, Except.bind]

theorem bind_eq_error {ε α β : Type} {x : Except ε α} {f : α → Except ε β} {e : ε} :
    x >>= f = .error e ↔ x = .error e ∨ ∃ a, x = .ok a ∧ f a = .error e := by
  cases x <;> simp [bind, Except.bind]

/-- How a call of the scheduling code ends when it does not return `Ok`: it returns `Err` with a
reason, or it panics in an `expect` with the message the source gives. -/
inductive Failure where
  | err (reason : UnitIncompatibleReason)
  | panic (message : String)
  deriving DecidableEq, Repr

end Exclave

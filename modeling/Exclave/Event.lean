import Exclave.Unit

/-! The events of `unitbroadcaster.rs`: the statuses of one unit, the events the bus carries, and
`UnitStatus`'s `Display`.  A path is the text that `to_string_lossy` gives for it, so two paths
that are not UTF-8 and print alike are one value here; nothing in this development tells paths
apart.  The payload of `ManagerRequest`, a message of the manager that the bus never reads, is a
type parameter. -/

namespace Exclave

/-- `UnitStatus`: one step of a unit's lifecycle, with the path or the reason it carries. -/
inductive UnitStatus where
  | added (path : String)
  | updated (path : String)
  | loadStarted (path : String)
  | loadFailed (reason : String)
  | incompatible (reason : String)
  | selected
  | deselected
  | active
  | activationFailed (reason : String)
  | deactivatedSuccessfully (reason : String)
  | deactivatedUnsuccessfully (reason : String)
  | unloadStarted (path : String)
  | updateStarted (path : String)
  | removed (path : String)
  deriving DecidableEq, Repr

/-- `UnitStatus::fmt`, the text of a status, typo of the source included. -/
def UnitStatus.fmt : UnitStatus → String
  | .added path => "Added " ++ path
  | .updated path => "Updated " ++ path
  | .loadStarted path => "Load started " ++ path
  | .loadFailed x => "Load failed: " ++ x
  | .incompatible x => "Incompatible: " ++ x
  | .selected => "Selected"
  | .deselected => "Deselected"
  | .active => "Active"
  | .activationFailed reason => "Activation failed: " ++ reason
  | .deactivatedSuccessfully x => "Deactivated successfully: " ++ x
  | .deactivatedUnsuccessfully x => "Deactivated unsuccessfilly: " ++ x
  | .unloadStarted path => "Unloading " ++ path
  | .updateStarted path => "Updating " ++ path
  | .removed path => "Removed " ++ path

/-- `UnitStatusEvent`: a status and the unit it belongs to. -/
structure UnitStatusEvent where
  name : UnitName
  status : UnitStatus
  deriving DecidableEq, Repr

/-- The constructors of an event for the unit file at `path`: the unit named by
`UnitName::from_path`, with `status` of the path, or `None` when the path names no unit. -/
def UnitStatusEvent.newOfPath (names : UnitNames) (status : String → UnitStatus) (path : String) :
    Option UnitStatusEvent :=
  match names.fromPath path with
  | .error _ => none
  | .ok name => some ⟨name, status path⟩

/-- `UnitStatusEvent::new_added`. -/
def UnitStatusEvent.newAdded (names : UnitNames) (path : String) : Option UnitStatusEvent :=
  newOfPath names .added path

/-- `UnitStatusEvent::new_updated`. -/
def UnitStatusEvent.newUpdated (names : UnitNames) (path : String) : Option UnitStatusEvent :=
  newOfPath names .updated path

/-- `UnitStatusEvent::new_removed`. -/
def UnitStatusEvent.newRemoved (names : UnitNames) (path : String) : Option UnitStatusEvent :=
  newOfPath names .removed path

theorem UnitStatusEvent.newOfPath_eq_some {names : UnitNames} {status : String → UnitStatus}
    {path : String} {e : UnitStatusEvent} :
    newOfPath names status path = some e ↔
      ∃ name, names.fromPath path = .ok name ∧ e = ⟨name, status path⟩ := by
  unfold newOfPath
  cases names.fromPath path <;> simp [eq_comm]

/-- `UnitCategoryEvent`: a free-text status of a whole kind of units. -/
structure UnitCategoryEvent where
  kind : String
  status : String
  deriving DecidableEq, Repr

/-- `UnitEvent`, what the bus carries. -/
inductive UnitEvent (ManagerControlMessage : Type) where
  | status (event : UnitStatusEvent)
  | category (event : UnitCategoryEvent)
  | rescanRequest
  | rescanStart
  | rescanFinish
  | managerRequest (message : ManagerControlMessage)
  | shutdown
  deriving DecidableEq, Repr

end Exclave

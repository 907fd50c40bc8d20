import Mathlib.Logic.Function.Basic
import Exclave.Event

/-! The event bus of `unitbroadcaster.rs`.  A `UnitBroadcaster` holds one `Arc<Mutex<Vec<Sender>>>`
that all its clones share, so the bus is one state; each of `subscribe` and `broadcast` runs
whole under the mutex, so a run from any number of threads is a sequence of whole calls, `run`.
A channel of `std::sync::mpsc` is named by a number: `senders` lists the channels of the
registered senders, `channels` gives each channel's receiver status and the events sent on it,
and `next` is the number of channels made so far.  `Vec::remove` panics at an index past the end;
the model returns `none` there, and a panic under the mutex poisons it, so `none` ends a run.
The bus never reads an event, so the event type `ε` is a parameter; the source's is `UnitEvent`. -/

namespace Exclave.Broadcaster

variable {ε : Type}

/-- One channel: whether its `Receiver` is still held, and the events sent on it, oldest first. -/
structure Channel (ε : Type) where
  alive : Bool
  queue : List ε

/-- The state of one bus and its channels. -/
structure Bus (ε : Type) where
  senders : List Nat
  channels : Nat → Channel ε
  next : Nat

/-- `UnitBroadcaster::new`: no sender, no channel. -/
def Bus.new : Bus ε := ⟨[], fun _ => ⟨false, []⟩, 0⟩

/-- Channel `c` with `event` added at the end of its queue. -/
def enqueue (channels : Nat → Channel ε) (c : Nat) (event : ε) : Nat → Channel ε :=
  Function.update channels c { channels c with queue := (channels c).queue ++ [event] }

/-- `Sender::send` on channel `c`: the event is enqueued while the receiver is held, and the send
fails (`none`) once it has been dropped. -/
def send (channels : Nat → Channel ε) (c : Nat) (event : ε) : Option (Nat → Channel ε) :=
  if (channels c).alive then some (enqueue channels c event) else none

/-- The `for (idx, sender) in ....enumerate()` loop of `broadcast_core`: a clone of `event` is
sent on each sender in list order, and each failing send sets `toRemove` to its index. -/
def sendAll (event : ε) : Nat → List Nat → (Nat → Channel ε) → Option Nat →
    (Nat → Channel ε) × Option Nat
  | _, [], channels, toRemove => (channels, toRemove)
  | idx, sender :: rest, channels, toRemove =>
    match send channels sender event with
    | some channels' => sendAll event (idx + 1) rest channels' toRemove
    | none => sendAll event (idx + 1) rest channels (some idx)

/-- `Vec::remove`, which panics (`none`) at an index past the end. -/
def vecRemove {α : Type} (v : List α) (idx : Nat) : Option (List α) :=
  if idx < v.length then some (v.eraseIdx idx) else none

/-- `UnitBroadcaster::broadcast_core`, and so `broadcast`: send `event` to every sender, then
remove the sender at `toRemove`, if any. -/
def broadcastCore (bus : Bus ε) (event : ε) : Option (Bus ε) :=
  match sendAll event 0 bus.senders bus.channels none with
  | (channels, some idx) =>
    (vecRemove bus.senders idx).map fun senders => { bus with senders, channels }
  | (channels, none) => some { bus with channels }

/-- `UnitBroadcaster::subscribe`: `channel()` makes channel `next`, whose sender joins the end of
the list; the result is the bus and the channel of the returned receiver. -/
def subscribe (bus : Bus ε) : Bus ε × Nat :=
  ({ senders := bus.senders ++ [bus.next]
     channels := Function.update bus.channels bus.next ⟨true, []⟩
     next := bus.next + 1 }, bus.next)

@[simp] theorem subscribe_senders (bus : Bus ε) :
    (subscribe bus).1.senders = bus.senders ++ [bus.next] := rfl

@[simp] theorem subscribe_next (bus : Bus ε) : (subscribe bus).1.next = bus.next + 1 := rfl

@[simp] theorem subscribe_channels (bus : Bus ε) (c : Nat) :
    (subscribe bus).1.channels c = if c = bus.next then ⟨true, []⟩ else bus.channels c := by
  simp [subscribe, Function.update_apply]

/-- Dropping the `Receiver` of channel `c`. -/
def dropReceiver (bus : Bus ε) (c : Nat) : Bus ε :=
  { bus with channels := Function.update bus.channels c { bus.channels c with alive := false } }

@[simp] theorem dropReceiver_senders (bus : Bus ε) (c : Nat) :
    (dropReceiver bus c).senders = bus.senders := rfl

@[simp] theorem dropReceiver_next (bus : Bus ε) (c : Nat) :
    (dropReceiver bus c).next = bus.next := rfl

@[simp] theorem dropReceiver_alive (bus : Bus ε) (c c' : Nat) :
    ((dropReceiver bus c).channels c').alive = (!decide (c' = c) && (bus.channels c').alive) := by
  by_cases h : c' = c <;> simp [dropReceiver, Function.update_apply, h]

@[simp] theorem dropReceiver_queue (bus : Bus ε) (c c' : Nat) :
    ((dropReceiver bus c).channels c').queue = (bus.channels c').queue := by
  by_cases h : c' = c <;> simp [dropReceiver, Function.update_apply, h]

/-- One call on the bus, through any of its clones. -/
inductive Op (ε : Type) where
  | subscribe
  | broadcast (event : ε)
  | dropReceiver (c : Nat)

/-- One call; `none` is a panic. -/
def step (bus : Bus ε) : Op ε → Option (Bus ε)
  | .subscribe => some (subscribe bus).1
  | .broadcast event => broadcastCore bus event
  | .dropReceiver c => some (dropReceiver bus c)

/-- The calls `ops` in order, from `bus`. -/
def run (bus : Bus ε) : List (Op ε) → Option (Bus ε)
  | [] => some bus
  | op :: ops => (step bus op).bind (run · ops)

end Exclave.Broadcaster

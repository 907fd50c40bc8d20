import Exclave.Broadcaster.Run

/-! How dead senders leave the list.  Each broadcast removes one dead sender, the one of greatest
index, so pruning finishes once receivers stop being dropped: within as many broadcasts as there
are dead senders.  But a sender that died earlier than others is removed last, and a subscriber
that joins and dies before each broadcast keeps it on the list for ever. -/

namespace Exclave.Broadcaster

variable {ε : Type}

theorem run_append (bus : Bus ε) (ops ops' : List (Op ε)) :
    run bus (ops ++ ops') = (run bus ops).bind (run · ops') := by
  induction ops generalizing bus with
  | nil => rfl
  | cons op ops ih =>
    cases h : step bus op <;> simp [run, h, ih]

theorem Delivers.reachable {ops : List (Op ε)} {bus : Bus ε}
    (h : Broadcaster.run Bus.new ops = some bus) :
    Delivers ops bus := by
  obtain ⟨bus', hrun, h'⟩ := Delivers.new.run ops
  rw [h, Option.some.injEq] at hrun
  simpa [hrun] using h'

/-- The number of registered senders whose receiver has been dropped. -/
def deadSenders (bus : Bus ε) : Nat :=
  bus.senders.countP fun c => !(bus.channels c).alive

theorem deadSenders_subscribe {bus : Bus ε} (hfresh : bus.next ∉ bus.senders) :
    deadSenders (subscribe bus).1 = deadSenders bus := by
  have hsame : (bus.senders.countP fun c => !((subscribe bus).1.channels c).alive) =
      bus.senders.countP fun c => !(bus.channels c).alive :=
    List.countP_congr fun c hc => by simp [ne_of_mem_of_not_mem hc hfresh]
  rw [deadSenders, subscribe_senders, List.countP_append, hsame]
  simp [deadSenders]

theorem deadSenders_broadcast {bus bus' : Bus ε} {event : ε}
    (h : broadcastCore bus event = some bus') : deadSenders bus' = deadSenders bus - 1 := by
  have halive := broadcastCore_alive h
  rcases broadcastCore_senders h with ⟨hall, hs⟩ | ⟨pre, x, post, hs, hx, -, hs'⟩
  · have hzero : deadSenders bus = 0 := List.countP_eq_zero.mpr fun c hc => by simp [hall c hc]
    simp only [deadSenders, hs, halive] at hzero ⊢
    rw [hzero]
  · simp only [deadSenders, hs, hs', halive, List.countP_append, List.countP_cons, hx]
    simp

/-- Once receivers stop being dropped, the dead senders of a reachable bus are all gone after as
many broadcasts as there are of them, whatever subscribes come in between. -/
theorem run_prunes {pre : List (Op ε)} {bus : Bus ε} (hpre : run Bus.new pre = some bus)
    (ops : List (Op ε)) (hdrop : ∀ c, Op.dropReceiver c ∉ ops)
    (hk : deadSenders bus ≤ (broadcastEvents ops).length) :
    ∃ bus', run bus ops = some bus' ∧ ∀ c ∈ bus'.senders, (bus'.channels c).alive := by
  have h := Delivers.reachable hpre
  clear hpre
  induction ops generalizing pre bus with
  | nil =>
    refine ⟨bus, rfl, fun c hc => ?_⟩
    have hzero : deadSenders bus = 0 := Nat.le_zero.mp hk
    simpa using List.countP_eq_zero.mp hzero c hc
  | cons op rest ih =>
    have hdrop' : ∀ c, Op.dropReceiver c ∉ rest := fun c hc => hdrop c (List.mem_cons_of_mem _ hc)
    cases op with
    | subscribe =>
      exact ih hdrop'
        (by rwa [deadSenders_subscribe fun hm => Nat.lt_irrefl _ (h.lt_next _ hm)]) h.subscribe
    | broadcast event =>
      obtain ⟨bus1, hb, h1⟩ := h.broadcast event
      have hk1 : deadSenders bus1 ≤ (broadcastEvents rest).length := by
        rw [deadSenders_broadcast hb]
        simp only [broadcastEvents, List.length_cons] at hk
        omega
      obtain ⟨bus', hrun, hall⟩ := ih hdrop' hk1 h1
      exact ⟨bus', by simp [run, step, hb, hrun], hall⟩
    | dropReceiver c => exact absurd (List.mem_cons_self _ _) (hdrop c)

/-- Two subscribers drop their receivers and two broadcasts follow: the list is clean again. -/
theorem run_prunes_two_dead : ∃ bus, run Bus.new
      [Op.subscribe, .subscribe, .dropReceiver 0, .dropReceiver 1] = some bus ∧
    ∃ bus', run bus [.broadcast (), .broadcast ()] = some bus' ∧
      ∀ c ∈ bus'.senders, (bus'.channels c).alive :=
  ⟨_, rfl, @run_prunes Unit [Op.subscribe, .subscribe, .dropReceiver 0, .dropReceiver 1] _ rfl _
    (by simp) (by decide)⟩

/-- Sender 0 has its receiver dropped while no sender is ahead of it, yet the broadcast that
follows removes sender 1, the dead sender of greatest index, and leaves sender 0 registered. -/
theorem dropped_first_survives_broadcast :
    (run (Bus.new (ε := Unit))
      [.subscribe, .subscribe, .dropReceiver 0, .dropReceiver 1, .broadcast ()]).map Bus.senders =
      some [0] := by
  decide

/-- `n` rounds in which a subscriber registers and drops its receiver before a broadcast. -/
def churn (event : ε) : Nat → List (Op ε)
  | 0 => []
  | k + 1 => churn event k ++ [.subscribe, .dropReceiver (k + 1), .broadcast event]

theorem round_keeps_first {bus : Bus ε} (event : ε) (hs : bus.senders = [0])
    (h0 : (bus.channels 0).alive = false) (hn : 0 < bus.next) :
    ∃ bus', run bus [.subscribe, .dropReceiver bus.next, .broadcast event] = some bus' ∧
      bus'.senders = [0] ∧ (bus'.channels 0).alive = false ∧ bus'.next = bus.next + 1 := by
  have hne : (0 : Nat) ≠ bus.next := Nat.ne_of_lt hn
  simp [run, step, broadcastCore, sendAll, send, subscribe, dropReceiver, vecRemove, hs, h0,
    Function.update_apply, hne]

/-- Sender 0, dropped first, stays registered through any number of broadcasts when before each
one a new subscriber registers and drops its receiver. -/
theorem dropped_first_never_pruned (event : ε) (n : Nat) :
    ∃ bus, run Bus.new ([.subscribe, .dropReceiver 0] ++ churn event n) = some bus ∧
      bus.senders = [0] ∧ (bus.channels 0).alive = false := by
  suffices ∃ bus, run Bus.new ([.subscribe, .dropReceiver 0] ++ churn event n) = some bus ∧
      bus.senders = [0] ∧ (bus.channels 0).alive = false ∧ bus.next = n + 1 from
    let ⟨bus, hrun, hs, h0, _⟩ := this; ⟨bus, hrun, hs, h0⟩
  induction n with
  | zero => exact ⟨_, rfl, rfl, rfl, rfl⟩
  | succ k ih =>
    obtain ⟨bus, hrun, hs, h0, hn⟩ := ih
    obtain ⟨bus', hrun', hs', h0', hn'⟩ := round_keeps_first event hs h0 (by omega)
    refine ⟨bus', ?_, hs', h0', by omega⟩
    rw [churn, ← List.append_assoc, run_append, hrun, Option.some_bind, ← hn, hrun']

end Exclave.Broadcaster

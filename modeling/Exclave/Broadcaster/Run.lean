import Mathlib.Data.List.Nodup
import Exclave.Broadcaster.Core

/-! Whole runs of the bus, from `UnitBroadcaster::new`, through any interleaving of `subscribe`,
`broadcast` and dropped receivers.  `Delivers` is the invariant: every subscriber whose receiver
is held is registered once and has been sent exactly the events broadcast since it subscribed.
It holds of every reachable state because `broadcast_core` only removes a dead sender. -/

namespace Exclave.Broadcaster

variable {ε : Type}

/-- The number of subscribe calls among `ops`.  Subscriber `i` of a run is the one whose channel
the `i`-th subscribe call made, counting from zero. -/
def subscribeCount : List (Op ε) → Nat
  | [] => 0
  | .subscribe :: ops => subscribeCount ops + 1
  | .broadcast _ :: ops => subscribeCount ops
  | .dropReceiver _ :: ops => subscribeCount ops

/-- The events of the broadcast calls among `ops` that come after the subscribe call of
subscriber `i`, in call order, when `n` subscribe calls come before `ops`. -/
def eventsAfter (i : Nat) : Nat → List (Op ε) → List ε
  | _, [] => []
  | n, .subscribe :: ops => eventsAfter i (n + 1) ops
  | n, .broadcast event :: ops => (if i < n then [event] else []) ++ eventsAfter i n ops
  | n, .dropReceiver _ :: ops => eventsAfter i n ops

@[simp] theorem subscribeCount_append (ops ops' : List (Op ε)) :
    subscribeCount (ops ++ ops') = subscribeCount ops + subscribeCount ops' := by
  induction ops with
  | nil => simp [subscribeCount]
  | cons op ops ih => cases op <;> simp [subscribeCount, ih]; omega

theorem eventsAfter_append (i n : Nat) (ops ops' : List (Op ε)) :
    eventsAfter i n (ops ++ ops') =
      eventsAfter i n ops ++ eventsAfter i (n + subscribeCount ops) ops' := by
  induction ops generalizing n with
  | nil => simp [eventsAfter, subscribeCount]
  | cons op ops ih =>
    cases op <;> simp [eventsAfter, subscribeCount, ih, Nat.add_assoc, Nat.add_comm 1]

/-- A subscriber that joins after every call of `ops` has been sent nothing by them. -/
theorem eventsAfter_eq_nil {i n : Nat} {ops : List (Op ε)} (h : n + subscribeCount ops ≤ i) :
    eventsAfter i n ops = [] := by
  induction ops generalizing n with
  | nil => rfl
  | cons op ops ih =>
    cases op with
    | subscribe => exact ih (by simp [subscribeCount] at h; omega)
    | broadcast event =>
      simp only [subscribeCount] at h
      simp [eventsAfter, ih h, show ¬i < n by omega]
    | dropReceiver c => exact ih h

/-- The events of the broadcast calls among `ops`, in call order. -/
def broadcastEvents : List (Op ε) → List ε
  | [] => []
  | .subscribe :: ops => broadcastEvents ops
  | .broadcast event :: ops => event :: broadcastEvents ops
  | .dropReceiver _ :: ops => broadcastEvents ops

/-- A subscriber that has joined before `ops` is sent every event they broadcast. -/
theorem eventsAfter_of_lt {i n : Nat} (h : i < n) (ops : List (Op ε)) :
    eventsAfter i n ops = broadcastEvents ops := by
  induction ops generalizing n with
  | nil => rfl
  | cons op ops ih =>
    cases op <;> simp [eventsAfter, broadcastEvents, h, ih h, ih (Nat.lt_succ_of_lt h)]

/-- Of two subscribers, the later one has been sent a suffix of what the earlier one has: both
got the same events over the broadcasts during which both were registered. -/
theorem eventsAfter_suffix {i j : Nat} (hij : i ≤ j) (n : Nat) (ops : List (Op ε)) :
    eventsAfter j n ops <:+ eventsAfter i n ops := by
  induction ops generalizing n with
  | nil => exact List.suffix_refl _
  | cons op ops ih =>
    cases op with
    | subscribe => exact ih (n + 1)
    | broadcast event =>
      by_cases hj : j < n
      · simp only [eventsAfter_of_lt hj, eventsAfter_of_lt (Nat.lt_of_le_of_lt hij hj),
          List.suffix_refl]
      · by_cases hi : i < n
        · simpa [eventsAfter, hj, hi] using (ih n).trans (List.suffix_cons event _)
        · simpa [eventsAfter, hj, hi] using ih n
    | dropReceiver c => exact ih n

/-! ### The invariant -/

/-- What holds after the calls `ops`: `next` counts the subscribe calls; the senders are distinct
channels already made; and every subscriber whose receiver is held is registered and has been sent
exactly the events broadcast since it subscribed. -/
structure Delivers (ops : List (Op ε)) (bus : Bus ε) : Prop where
  next_eq : bus.next = subscribeCount ops
  nodup : bus.senders.Nodup
  lt_next : ∀ c ∈ bus.senders, c < bus.next
  registered : ∀ i < bus.next, (bus.channels i).alive → i ∈ bus.senders
  queue_eq : ∀ i < bus.next, (bus.channels i).alive →
    (bus.channels i).queue = eventsAfter i 0 ops

theorem Delivers.new : Delivers [] (Bus.new : Bus ε) :=
  ⟨rfl, List.nodup_nil, fun _ h => absurd h (List.not_mem_nil _),
    fun _ h => absurd h (Nat.not_lt_zero _), fun _ h => absurd h (Nat.not_lt_zero _)⟩

namespace Delivers

variable {ops : List (Op ε)} {bus : Bus ε}

theorem subscribe (h : Delivers ops bus) :
    Delivers (ops ++ [.subscribe]) (Broadcaster.subscribe bus).1 := by
  have hfresh : bus.next ∉ bus.senders := fun hm => Nat.lt_irrefl _ (h.lt_next _ hm)
  refine ⟨by simp [h.next_eq, subscribeCount], ?_, ?_, ?_, ?_⟩
  · simpa [List.nodup_append, hfresh] using h.nodup
  · simp only [subscribe_senders, subscribe_next, List.mem_append, List.mem_singleton]
    rintro c (hc | rfl)
    · exact Nat.lt_succ_of_lt (h.lt_next c hc)
    · exact Nat.lt_succ_self _
  · intro i hi ha
    by_cases hin : i = bus.next
    · simp [hin]
    · simp only [subscribe_next, subscribe_channels, hin, if_false] at hi ha
      exact List.mem_append_left _ (h.registered i (by omega) ha)
  · intro i hi ha
    rw [eventsAfter_append]
    by_cases hin : i = bus.next
    · subst hin
      simp [eventsAfter, @eventsAfter_eq_nil _ bus.next 0 ops (by simp [h.next_eq])]
    · simp only [subscribe_next, subscribe_channels, hin, if_false] at hi ha ⊢
      simp [eventsAfter, h.queue_eq i (by omega) ha]

theorem dropReceiver (h : Delivers ops bus) (c : Nat) :
    Delivers (ops ++ [.dropReceiver c]) (Broadcaster.dropReceiver bus c) := by
  refine ⟨by simp [h.next_eq, subscribeCount], by simpa using h.nodup, by simpa using h.lt_next,
    fun i hi ha => ?_, fun i hi ha => ?_⟩
  · simp only [dropReceiver_alive, Bool.and_eq_true] at ha
    simpa using h.registered i hi ha.2
  · simp only [dropReceiver_alive, Bool.and_eq_true] at ha
    simp [eventsAfter_append, eventsAfter, h.queue_eq i hi ha.2]

theorem broadcast (h : Delivers ops bus) (event : ε) :
    ∃ bus', broadcastCore bus event = some bus' ∧ Delivers (ops ++ [.broadcast event]) bus' := by
  obtain ⟨bus', hb⟩ := Option.isSome_iff_exists.mp (broadcastCore_isSome bus event)
  have hnext := broadcastCore_next hb
  have hsub := broadcastCore_sublist hb
  refine ⟨bus', hb, ⟨?_, h.nodup.sublist hsub, fun c hc => hnext ▸ h.lt_next c (hsub.subset hc),
    fun i hi ha => ?_, fun i hi ha => ?_⟩⟩
  · simp [hnext, h.next_eq, subscribeCount]
  · rw [hnext] at hi
    rw [broadcastCore_alive hb] at ha
    exact broadcastCore_keeps_alive hb (h.registered i hi ha) ha
  · rw [hnext] at hi
    rw [broadcastCore_alive hb] at ha
    rw [broadcastCore_channels hb, sendAll_queue, h.queue_eq i hi ha, ha,
      List.count_eq_one_of_mem h.nodup (h.registered i hi ha), eventsAfter_append]
    simp [eventsAfter, ← h.next_eq, hi]

theorem step (h : Delivers ops bus) (op : Op ε) :
    ∃ bus', Broadcaster.step bus op = some bus' ∧ Delivers (ops ++ [op]) bus' := by
  cases op with
  | subscribe => exact ⟨_, rfl, h.subscribe⟩
  | broadcast event => exact h.broadcast event
  | dropReceiver c => exact ⟨_, rfl, h.dropReceiver c⟩

theorem run (h : Delivers ops bus) (ops' : List (Op ε)) :
    ∃ bus', Broadcaster.run bus ops' = some bus' ∧ Delivers (ops ++ ops') bus' := by
  induction ops' generalizing ops bus with
  | nil => exact ⟨bus, rfl, by simpa using h⟩
  | cons op rest ih =>
    obtain ⟨bus1, hstep, h1⟩ := h.step op
    obtain ⟨bus', hrun, h'⟩ := ih h1
    exact ⟨bus', by simp [Broadcaster.run, hstep, hrun], by simpa using h'⟩

end Delivers

/-- Every run of the bus, from `UnitBroadcaster::new`, through any interleaving of calls: no call
panics, and every subscriber whose receiver is still held is registered exactly once, and has
been sent exactly the events of the broadcast calls after its subscribe call, in call order; so of
two such subscribers, the later one has been sent a suffix of what the earlier one has. -/
theorem run_delivers (ops : List (Op ε)) :
    ∃ bus, run Bus.new ops = some bus ∧
      (∀ i < subscribeCount ops, (bus.channels i).alive →
        bus.senders.count i = 1 ∧ (bus.channels i).queue = eventsAfter i 0 ops) ∧
      ∀ i j, i ≤ j → j < subscribeCount ops → (bus.channels i).alive →
        (bus.channels j).alive → (bus.channels j).queue <:+ (bus.channels i).queue := by
  obtain ⟨bus, hrun, h⟩ := Delivers.new.run ops
  rw [List.nil_append] at h
  refine ⟨bus, hrun, fun i hi ha => ?_, fun i j hij hj hai haj => ?_⟩
  · rw [← h.next_eq] at hi
    exact ⟨List.count_eq_one_of_mem h.nodup (h.registered i hi ha), h.queue_eq i hi ha⟩
  · rw [← h.next_eq] at hj
    rw [h.queue_eq j hj haj, h.queue_eq i (Nat.lt_of_le_of_lt hij hj) hai]
    exact eventsAfter_suffix hij 0 ops

/-- Two subscribers, a broadcast, a drop of the first receiver and a second broadcast: the second
receiver is still live and has been sent both events, in call order. -/
theorem run_delivers_second_live :
    ∃ bus, run (Bus.new : Bus Nat)
        [.subscribe, .subscribe, .broadcast 1, .dropReceiver 0, .broadcast 2] = some bus ∧
      (bus.channels 1).alive = true ∧ (bus.channels 1).queue = [1, 2] := by
  obtain ⟨bus, h, hdel, -⟩ :=
    run_delivers ([.subscribe, .subscribe, .broadcast 1, .dropReceiver 0, .broadcast 2] : List _)
  cases h
  exact ⟨_, rfl, rfl, (hdel 1 (by decide) rfl).2⟩

end Exclave.Broadcaster

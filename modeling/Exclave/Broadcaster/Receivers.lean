import Exclave.Broadcaster.Run

/-! What every run of the bus keeps about its receivers.  The senders stay in the order of their
subscribe calls, which made channels in increasing order, so a broadcast visits the subscribers in
the order they registered.  A receiver is live exactly when its subscribe call has been made and
no drop of that receiver has followed: `subscribe` makes the new channel live, a drop ends only
its own channel, and `broadcast_core` changes no receiver. -/

namespace Exclave.Broadcaster

variable {ε : Type}

/-- A property of the calls made so far and the bus that every call keeps holds after every
run. -/
theorem run_preserves {P : List (Op ε) → Bus ε → Prop}
    (hstep : ∀ {ops : List (Op ε)} {bus bus' : Bus ε} {op : Op ε},
      step bus op = some bus' → P ops bus → P (ops ++ [op]) bus') :
    ∀ (ops : List (Op ε)) {bus bus' : Bus ε} (ops' : List (Op ε)),
      run bus ops' = some bus' → P ops bus → P (ops ++ ops') bus'
  | _, _, _, [], h, hp => by
    cases h
    simpa using hp
  | ops, _, _, _ :: rest, h, hp => by
    rw [run, Option.bind_eq_some] at h
    obtain ⟨b, hb, hrest⟩ := h
    simpa using run_preserves hstep _ rest hrest (hstep hb hp)

/-! ### Registration order -/

/-- The senders are in increasing channel order, each a channel already made. -/
structure SendersOrdered (bus : Bus ε) : Prop where
  sorted : bus.senders.Pairwise (· < ·)
  lt_next : ∀ c ∈ bus.senders, c < bus.next

theorem SendersOrdered.step {bus bus' : Bus ε} {op : Op ε} (h : step bus op = some bus')
    (ho : SendersOrdered bus) : SendersOrdered bus' := by
  cases op with
  | subscribe =>
    cases h
    refine ⟨?_, fun c hc => ?_⟩
    · simpa [List.pairwise_append] using ⟨ho.sorted, ho.lt_next⟩
    · rcases List.mem_append.mp hc with hc | hc
      · exact Nat.lt_succ_of_lt (ho.lt_next c hc)
      · simp [List.mem_singleton.mp hc]
  | broadcast event =>
    have hsub := broadcastCore_sublist h
    exact ⟨ho.sorted.sublist hsub,
      fun c hc => broadcastCore_next h ▸ ho.lt_next c (hsub.subset hc)⟩
  | dropReceiver c =>
    cases h
    exact ⟨ho.sorted, ho.lt_next⟩

/-- Every run from `UnitBroadcaster::new` leaves the registered senders in strictly increasing
channel order, the order of their subscribe calls, and so the order in which `broadcast_core`
visits them. -/
theorem run_senders_sorted (ops : List (Op ε)) :
    ∃ bus, run Bus.new ops = some bus ∧ bus.senders.Pairwise (· < ·) := by
  obtain ⟨bus, h, -⟩ := Delivers.new.run ops
  exact ⟨bus, h, (run_preserves (P := fun _ => SendersOrdered) (fun h ho => ho.step h) [] ops h
    ⟨List.Pairwise.nil, fun _ hc => absurd hc (List.not_mem_nil _)⟩).sorted⟩

/-! ### Live receivers -/

/-- Whether `ops` drop the receiver of subscriber `i` after its subscribe call, when `n` subscribe
calls come before `ops`. -/
def droppedAfter (i : Nat) : Nat → List (Op ε) → Bool
  | _, [] => false
  | n, .subscribe :: ops => droppedAfter i (n + 1) ops
  | n, .broadcast _ :: ops => droppedAfter i n ops
  | n, .dropReceiver c :: ops => (decide (c = i) && decide (i < n)) || droppedAfter i n ops

theorem droppedAfter_append (i n : Nat) (ops ops' : List (Op ε)) :
    droppedAfter i n (ops ++ ops') =
      (droppedAfter i n ops || droppedAfter i (n + subscribeCount ops) ops') := by
  induction ops generalizing n with
  | nil => simp [droppedAfter, subscribeCount]
  | cons op ops ih =>
    cases op <;>
      simp [droppedAfter, subscribeCount, ih, Nat.add_assoc, Nat.add_comm 1, Bool.or_assoc]

/-- A subscriber that joins after every call of `ops` is not dropped by them. -/
theorem droppedAfter_eq_false {i n : Nat} {ops : List (Op ε)} (h : n + subscribeCount ops ≤ i) :
    droppedAfter i n ops = false := by
  induction ops generalizing n with
  | nil => rfl
  | cons op ops ih =>
    cases op with
    | subscribe => exact ih (by simp [subscribeCount] at h; omega)
    | broadcast event => exact ih h
    | dropReceiver c =>
      simp only [subscribeCount] at h
      simp [droppedAfter, ih h, show ¬i < n by omega]

/-- After the calls `ops`, `next` counts their subscribe calls, and each receiver is live exactly
when its subscribe call is among them and no drop of it has followed. -/
structure LiveReceivers (ops : List (Op ε)) (bus : Bus ε) : Prop where
  next_eq : bus.next = subscribeCount ops
  alive_eq : ∀ i,
    (bus.channels i).alive = (decide (i < subscribeCount ops) && !droppedAfter i 0 ops)

theorem LiveReceivers.step {ops : List (Op ε)} {bus bus' : Bus ε} {op : Op ε}
    (h : step bus op = some bus') (hl : LiveReceivers ops bus) :
    LiveReceivers (ops ++ [op]) bus' := by
  obtain ⟨hnext, halive⟩ := hl
  cases op with
  | subscribe =>
    cases h
    refine ⟨by simp [hnext, subscribeCount], fun i => ?_⟩
    simp only [subscribe_channels, subscribeCount_append, droppedAfter_append, hnext]
    by_cases hi : i = subscribeCount ops
    · have hfresh : droppedAfter (subscribeCount ops) 0 ops = false :=
        droppedAfter_eq_false (by omega)
      simp [hi, hfresh, droppedAfter, subscribeCount]
    · have hlt : i < subscribeCount ops ↔ i < subscribeCount ops + 1 := by omega
      rw [if_neg hi, halive i]
      simp [hlt, droppedAfter, subscribeCount]
  | broadcast event =>
    refine ⟨by simp [broadcastCore_next h, hnext, subscribeCount], fun i => ?_⟩
    rw [broadcastCore_alive h, halive i]
    simp [droppedAfter_append, droppedAfter, subscribeCount]
  | dropReceiver c =>
    cases h
    refine ⟨by simp [hnext, subscribeCount], fun i => ?_⟩
    rw [dropReceiver_alive, halive i]
    by_cases hic : i = c
    · subst hic
      by_cases hlt : i < subscribeCount ops <;>
        simp [hlt, droppedAfter_append, droppedAfter, subscribeCount]
    · simp [hic, Ne.symm hic, droppedAfter_append, droppedAfter, subscribeCount]

end Exclave.Broadcaster

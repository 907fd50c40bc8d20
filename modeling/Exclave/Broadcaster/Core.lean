import Exclave.Broadcaster.Basic

/-! One call of `broadcast_core`, for every list of senders and every pattern of dropped
receivers: each registered sender whose receiver is held gets one clone of the event, the call
never panics, and it removes exactly the dead sender of greatest index, if there is one.  The
loop sets `to_remove` at each failing send, so the index it keeps is the last. -/

namespace Exclave.Broadcaster

variable {ε : Type}

@[simp] theorem enqueue_alive (channels : Nat → Channel ε) (c c' : Nat) (event : ε) :
    (enqueue channels c event c').alive = (channels c').alive := by
  by_cases h : c' = c <;> simp [enqueue, Function.update_apply, h]

@[simp] theorem enqueue_queue (channels : Nat → Channel ε) (c c' : Nat) (event : ε) :
    (enqueue channels c event c').queue =
      (channels c').queue ++ if c' = c then [event] else [] := by
  by_cases h : c' = c <;> simp [enqueue, Function.update_apply, h]

theorem send_alive {channels : Nat → Channel ε} {c : Nat} (h : (channels c).alive = true)
    (event : ε) : send channels c event = some (enqueue channels c event) := by
  simp [send, h]

theorem send_dead {channels : Nat → Channel ε} {c : Nat} (h : (channels c).alive = false)
    (event : ε) : send channels c event = none := by
  simp [send, h]

theorem sendAll_alive (event : ε) (idx : Nat) (senders : List Nat) (channels : Nat → Channel ε)
    (toRemove : Option Nat) (c : Nat) :
    ((sendAll event idx senders channels toRemove).1 c).alive = (channels c).alive := by
  induction senders generalizing idx channels toRemove with
  | nil => rfl
  | cons x rest ih =>
    cases hx : (channels x).alive
    · simp only [sendAll, send_dead hx, ih]
    · simp only [sendAll, send_alive hx, ih, enqueue_alive]

/-- The queue of every channel after the loop: one clone of the event for each occurrence of the
channel among the senders, when its receiver is held. -/
theorem sendAll_queue (event : ε) (idx : Nat) (senders : List Nat) (channels : Nat → Channel ε)
    (toRemove : Option Nat) (c : Nat) :
    ((sendAll event idx senders channels toRemove).1 c).queue = (channels c).queue ++
      if (channels c).alive then List.replicate (senders.count c) event else [] := by
  induction senders generalizing idx channels toRemove with
  | nil => simp [sendAll]
  | cons x rest ih =>
    by_cases hcx : c = x
    · subst hcx
      cases hx : (channels c).alive
      · simp [sendAll, send_dead hx, ih, hx]
      · simp [sendAll, send_alive hx, ih, hx, List.count_cons, List.replicate_succ]
    · cases hx : (channels x).alive
      · simp [sendAll, send_dead hx, ih, List.count_cons, Ne.symm hcx]
      · simp [sendAll, send_alive hx, ih, List.count_cons, hcx, Ne.symm hcx]

/-- The index the loop keeps: the one it was given when every receiver is held, and otherwise
the index of the dead sender that only live senders follow. -/
theorem sendAll_toRemove (event : ε) (idx : Nat) (senders : List Nat)
    (channels : Nat → Channel ε) (toRemove : Option Nat) :
    (∀ x ∈ senders, (channels x).alive) ∧
        (sendAll event idx senders channels toRemove).2 = toRemove ∨
      ∃ pre x post, senders = pre ++ x :: post ∧ (channels x).alive = false ∧
        (∀ y ∈ post, (channels y).alive) ∧
        (sendAll event idx senders channels toRemove).2 = some (idx + pre.length) := by
  induction senders generalizing idx channels toRemove with
  | nil => simp [sendAll]
  | cons x rest ih =>
    cases hx : (channels x).alive
    · simp only [sendAll, send_dead hx]
      rcases ih (idx + 1) channels (some idx) with ⟨hall, hr⟩ | ⟨pre, y, post, rfl, hy, hpost, hr⟩
      · exact .inr ⟨[], x, rest, rfl, hx, hall, by simpa using hr⟩
      · exact .inr ⟨x :: pre, y, post, rfl, hy, hpost, by simp [hr]; omega⟩
    · simp only [sendAll, send_alive hx]
      rcases ih (idx + 1) (enqueue channels x event) toRemove with
        ⟨hall, hr⟩ | ⟨pre, y, post, rfl, hy, hpost, hr⟩
      · exact .inl ⟨by simpa [hx] using hall, hr⟩
      · refine .inr ⟨x :: pre, y, post, rfl, by simpa using hy, by simpa using hpost, ?_⟩
        simp [hr]; omega

theorem vecRemove_split {α : Type} (pre : List α) (x : α) (post : List α) :
    vecRemove (pre ++ x :: post) pre.length = some (pre ++ post) := by
  simp [vecRemove, List.eraseIdx_append_of_length_le]

/-- `broadcast_core` is the loop, then the removal at the index it kept: nothing is removed when
every receiver is held, and otherwise the dead sender that only live senders follow. -/
theorem broadcastCore_cases (bus : Bus ε) (event : ε) :
    (∀ x ∈ bus.senders, (bus.channels x).alive) ∧ broadcastCore bus event =
        some { bus with channels := (sendAll event 0 bus.senders bus.channels none).1 } ∨
      ∃ pre x post, bus.senders = pre ++ x :: post ∧ (bus.channels x).alive = false ∧
        (∀ y ∈ post, (bus.channels y).alive) ∧
        broadcastCore bus event = some { bus with
          senders := pre ++ post
          channels := (sendAll event 0 bus.senders bus.channels none).1 } := by
  rw [broadcastCore, ← Prod.mk.eta (p := sendAll event 0 bus.senders bus.channels none)]
  rcases sendAll_toRemove event 0 bus.senders bus.channels none with
    ⟨hall, hr⟩ | ⟨pre, x, post, hsplit, hx, hpost, hr⟩
  · exact .inl ⟨hall, by rw [hr]⟩
  · refine .inr ⟨pre, x, post, hsplit, hx, hpost, ?_⟩
    rw [hr]
    simp only [Nat.zero_add, hsplit, vecRemove_split, Option.map_some']

section Result

variable {bus bus' : Bus ε} {event : ε} (h : broadcastCore bus event = some bus')
include h

theorem broadcastCore_next : bus'.next = bus.next := by
  rcases broadcastCore_cases bus event with ⟨-, hb⟩ | ⟨_, _, _, -, -, -, hb⟩ <;>
    rw [hb, Option.some.injEq] at h <;> rw [← h]

theorem broadcastCore_channels :
    bus'.channels = (sendAll event 0 bus.senders bus.channels none).1 := by
  rcases broadcastCore_cases bus event with ⟨-, hb⟩ | ⟨_, _, _, -, -, -, hb⟩ <;>
    rw [hb, Option.some.injEq] at h <;> rw [← h]

theorem broadcastCore_alive (c : Nat) : (bus'.channels c).alive = (bus.channels c).alive := by
  rw [broadcastCore_channels h, sendAll_alive]

theorem broadcastCore_senders :
    (∀ x ∈ bus.senders, (bus.channels x).alive) ∧ bus'.senders = bus.senders ∨
      ∃ pre x post, bus.senders = pre ++ x :: post ∧ (bus.channels x).alive = false ∧
        (∀ y ∈ post, (bus.channels y).alive) ∧ bus'.senders = pre ++ post := by
  rcases broadcastCore_cases bus event with ⟨hall, hb⟩ | ⟨pre, x, post, hs, hx, hpost, hb⟩ <;>
    rw [hb, Option.some.injEq] at h <;> rw [← h]
  · exact .inl ⟨hall, rfl⟩
  · exact .inr ⟨pre, x, post, hs, hx, hpost, rfl⟩

/-- The senders that remain keep their order. -/
theorem broadcastCore_sublist : List.Sublist bus'.senders bus.senders := by
  rcases broadcastCore_senders h with ⟨-, hs⟩ | ⟨pre, x, post, hs, -, -, hs'⟩
  · rw [hs]
  · rw [hs, hs']
    exact (List.sublist_cons_self x post).append_left pre

/-- No sender whose receiver is held is removed. -/
theorem broadcastCore_keeps_alive {i : Nat} (hi : i ∈ bus.senders)
    (ha : (bus.channels i).alive) : i ∈ bus'.senders := by
  rcases broadcastCore_senders h with ⟨-, hs⟩ | ⟨pre, x, post, hs, hx, -, hs'⟩
  · rwa [hs]
  · rw [hs] at hi
    rw [hs']
    simp only [List.mem_append, List.mem_cons] at hi ⊢
    rcases hi with hi | rfl | hi
    · exact .inl hi
    · simp [hx] at ha
    · exact .inr hi

end Result

theorem broadcastCore_isSome (bus : Bus ε) (event : ε) : (broadcastCore bus event).isSome := by
  rcases broadcastCore_cases bus event with ⟨-, hb⟩ | ⟨_, _, _, -, -, -, hb⟩ <;> simp [hb]

/-- `broadcast_core` on any bus: it does not panic, every channel whose receiver is held gets one
clone of the event per sender of it on the list, and the list loses exactly the dead sender of
greatest index, or nothing when every receiver is held. -/
theorem broadcastCore_spec (bus : Bus ε) (event : ε) :
    ∃ bus', broadcastCore bus event = some bus' ∧ bus'.next = bus.next ∧
      (∀ c, (bus'.channels c).alive = (bus.channels c).alive ∧
        (bus'.channels c).queue = (bus.channels c).queue ++
          if (bus.channels c).alive then List.replicate (bus.senders.count c) event else []) ∧
      ((∀ x ∈ bus.senders, (bus.channels x).alive) ∧ bus'.senders = bus.senders ∨
        ∃ pre x post, bus.senders = pre ++ x :: post ∧ (bus.channels x).alive = false ∧
          (∀ y ∈ post, (bus.channels y).alive) ∧ bus'.senders = pre ++ post) := by
  obtain ⟨bus', hb⟩ := Option.isSome_iff_exists.mp (broadcastCore_isSome bus event)
  refine ⟨bus', hb, broadcastCore_next hb, fun c => ⟨broadcastCore_alive hb c, ?_⟩,
    broadcastCore_senders hb⟩
  rw [broadcastCore_channels hb, sendAll_queue]

end Exclave.Broadcaster

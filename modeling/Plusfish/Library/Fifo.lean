import Mathlib.Data.List.Basic
import Mathlib.Tactic.Common

/-! Queues that are served from the front and filled at the end. -/

namespace fifo

variable {α : Type}

/-- What waits in a queue, with all that was ever put in it. -/
structure Channel (α : Type) where
  entered : List α
  waiting : List α

namespace Channel

/-- Nothing was taken out of turn: what has left the queue and what waits in it is what was put
    in it. -/
def InOrder (left : List α) (channel : Channel α) : Prop :=
  channel.entered = left ++ channel.waiting

/-- These were taken from the front of the queue, and others may have been put at its end. -/
def Moves (taken : List α) (before after : Channel α) : Prop :=
  ∃ added, after.entered = before.entered ++ added ∧
    before.waiting ++ added = taken ++ after.waiting

theorem Moves.refl (channel : Channel α) : Moves [] channel channel :=
  ⟨[], by rw [List.append_nil], by rw [List.append_nil, List.nil_append]⟩

theorem Moves.trans {first second : List α} {a b c : Channel α} (hab : Moves first a b)
    (hbc : Moves second b c) : Moves (first ++ second) a c := by
  obtain ⟨added, hentered, hwaiting⟩ := hab
  obtain ⟨later, hentered', hwaiting'⟩ := hbc
  refine ⟨added ++ later, ?_, ?_⟩
  · rw [hentered', hentered, List.append_assoc]
  · rw [← List.append_assoc, hwaiting, List.append_assoc, hwaiting', List.append_assoc]

theorem Moves.push (channel : Channel α) (added : List α) :
    Moves [] channel ⟨channel.entered ++ added, channel.waiting ++ added⟩ :=
  ⟨added, rfl, by rw [List.nil_append]⟩

theorem Moves.pop {channel : Channel α} {first : α} {rest : List α}
    (hwaiting : channel.waiting = first :: rest) :
    Moves [first] channel ⟨channel.entered, rest⟩ := by
  refine ⟨[], by rw [List.append_nil], ?_⟩
  rw [hwaiting, List.append_nil, List.singleton_append]

theorem InOrder.of_moves {left taken : List α} {before after : Channel α}
    (h : before.InOrder left) (hmoves : Moves taken before after) :
    after.InOrder (left ++ taken) := by
  obtain ⟨added, hentered, hwaiting⟩ := hmoves
  rw [InOrder, hentered, h, List.append_assoc, hwaiting, List.append_assoc]

end Channel

end fifo

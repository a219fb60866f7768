import Mathlib.Data.List.Basic
import Mathlib.Tactic.Common

namespace history

variable {ε : Type}

/-- Every one of these events, which follow the past ones, is `ok` after all that came before
    it. -/
def Follows (ok : List ε → ε → Prop) : List ε → List ε → Prop
  | _, [] => True
  | past, event :: events => ok past event ∧ Follows ok (past ++ [event]) events

section
variable {ok : List ε → ε → Prop} {past : List ε}

theorem follows_append {first second : List ε} :
    Follows ok past (first ++ second) ↔
      Follows ok past first ∧ Follows ok (past ++ first) second := by
  induction first generalizing past with
  | nil => simp [Follows]
  | cons event first ih =>
    rw [List.cons_append, Follows, Follows, ih, and_assoc, List.append_assoc,
      List.singleton_append]

theorem follows_singleton {event : ε} : Follows ok past [event] ↔ ok past event :=
  and_iff_left trivial

/-- Events that are `ok` after the past ones, whatever comes in between. -/
theorem follows_of_forall {events : List ε}
    (h : ∀ event ∈ events, ∀ later, ok (past ++ later) event) : Follows ok past events := by
  induction events generalizing past with
  | nil => trivial
  | cons event events ih =>
    refine ⟨?_, ih fun next hmem later => ?_⟩
    · simpa using h event List.mem_cons_self []
    · rw [List.append_assoc]
      exact h next (List.mem_cons_of_mem _ hmem) _

theorem Follows.of_split {events before after : List ε} {event : ε} (h : Follows ok past events)
    (hsplit : events = before ++ event :: after) : ok (past ++ before) event := by
  rw [hsplit, follows_append] at h
  exact h.2.1

end

end history

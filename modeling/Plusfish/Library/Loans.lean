import Mathlib.Data.Multiset.AddSub
import Plusfish.Library.Run

/-! Things that are lent, and that come back at most once. -/

namespace loan

open transition

inductive Event (α : Type) where
  | lend (a : α)
  | giveBack (a : α)
  | lose (a : α)

section
variable {α : Type}

def Event.lent : Event α → Option α
  | .lend a => some a
  | _ => none

def Event.givenBack : Event α → Option α
  | .giveBack a => some a
  | _ => none

def lent (events : List (Event α)) : List α := events.filterMap Event.lent

def givenBack (events : List (Event α)) : List α := events.filterMap Event.givenBack

@[simp] theorem lent_append (first second : List (Event α)) :
    lent (first ++ second) = lent first ++ lent second := List.filterMap_append

@[simp] theorem givenBack_append (first second : List (Event α)) :
    givenBack (first ++ second) = givenBack first ++ givenBack second := List.filterMap_append

end

variable {α : Type} [DecidableEq α]

/-- One event, with what is on loan before and after it. Only what is on loan is given back, or
    lost. -/
def step (onLoan : Multiset α) : Event α → Option (Multiset α)
  | .lend a => some (a ::ₘ onLoan)
  | .giveBack a | .lose a => if a ∈ onLoan then some (onLoan.erase a) else none

section
variable {onLoan next : Multiset α} {a : α} {event : Event α} {events : List (Event α)}

theorem step_giveBack_eq_some : step onLoan (.giveBack a) = some next ↔ onLoan = a ::ₘ next := by
  rw [step]
  constructor
  · intro hstep
    split at hstep
    · rename_i hmem
      cases hstep
      exact (Multiset.cons_erase hmem).symm
    · cases hstep
  · rintro rfl
    rw [if_pos (Multiset.mem_cons_self a next), Multiset.erase_cons_head]

theorem step_lose_eq_some : step onLoan (.lose a) = some next ↔ onLoan = a ::ₘ next :=
  step_giveBack_eq_some

/-- The rest of what is on loan does not matter. -/
theorem step_add (hstep : step onLoan event = some next) (rest : Multiset α) :
    step (onLoan + rest) event = some (next + rest) := by
  cases event with
  | lend a =>
    cases hstep
    rw [step, Multiset.cons_add]
  | giveBack a =>
    rw [step_giveBack_eq_some] at hstep ⊢
    rw [hstep, Multiset.cons_add]
  | lose a =>
    rw [step_lose_eq_some] at hstep ⊢
    rw [hstep, Multiset.cons_add]

theorem run_add (hrun : run step onLoan events = some next) (rest : Multiset α) :
    run step (onLoan + rest) events = some (next + rest) := by
  induction events generalizing onLoan with
  | nil =>
    cases hrun
    rfl
  | cons event events ih =>
    obtain ⟨middle, hstep, hrest⟩ := run_cons_eq_some.mp hrun
    exact run_cons_eq_some.mpr ⟨middle + rest, step_add hstep rest, ih hrest⟩

theorem run_lend (onLoan : Multiset α) (a : α) :
    run step onLoan [.lend a] = some (a ::ₘ onLoan) := rfl

theorem run_giveBack (onLoan : Multiset α) (a : α) :
    run step (a ::ₘ onLoan) [.giveBack a] = some onLoan :=
  run_cons_eq_some.mpr ⟨onLoan, step_giveBack_eq_some.mpr rfl, rfl⟩

theorem run_lose (onLoan : Multiset α) (a : α) :
    run step (a ::ₘ onLoan) [.lose a] = some onLoan :=
  run_cons_eq_some.mpr ⟨onLoan, step_lose_eq_some.mpr rfl, rfl⟩

end

end loan

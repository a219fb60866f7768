import Mathlib.Data.List.Count
import Mathlib.Tactic.Common

/-! Calls of which a limited number is granted for each key. -/

namespace quota

variable {κ : Type} [BEq κ]

/-- A call is granted if fewer calls than the limit came before it with its key. -/
def grants (limit : ℕ) : (past calls : List κ) → List Bool
  | _, [] => []
  | past, key :: calls => decide (past.count key < limit) :: grants limit (past ++ [key]) calls

/-- How many of the calls with a key are answered by yes. -/
def granted (calls : List κ) (answers : List Bool) (key : κ) : ℕ :=
  (calls.zip answers).count (key, true)

theorem grants_append (limit : ℕ) (past first second : List κ) :
    grants limit past (first ++ second) =
      grants limit past first ++ grants limit (past ++ first) second := by
  induction first generalizing past with
  | nil => simp [grants]
  | cons key first ih =>
    rw [List.cons_append, grants, grants, ih, List.append_assoc, List.singleton_append,
      List.cons_append]

theorem granted_cons (call : κ) (calls : List κ) (answer : Bool) (answers : List Bool) (key : κ) :
    granted (call :: calls) (answer :: answers) key =
      granted calls answers key + if (call == key && answer) = true then 1 else 0 := by
  have hpair : ((call, answer) == (key, true)) = (call == key && answer) := by
    cases answer <;> rfl
  rw [granted, List.zip_cons_cons, List.count_cons, granted, hpair]

variable [LawfulBEq κ]

/-- What was granted before and what is granted now add up to the limit, or to all calls. -/
theorem granted_grants_add (limit : ℕ) (past calls : List κ) (key : κ) :
    min (past.count key) limit + granted calls (grants limit past calls) key =
      min ((past ++ calls).count key) limit := by
  induction calls generalizing past with
  | nil => simp [grants, granted]
  | cons call calls ih =>
    have hrest := ih (past ++ [call])
    rw [List.append_assoc, List.singleton_append] at hrest
    rw [grants, granted_cons, ← hrest]
    by_cases hkey : call = key
    · subst hkey
      rw [List.count_append, List.count_singleton_self, beq_self_eq_true]
      by_cases hroom : past.count call < limit
      · rw [decide_eq_true hroom, Bool.true_and, if_pos rfl]
        omega
      · rw [decide_eq_false hroom, Bool.true_and, if_neg Bool.false_ne_true]
        omega
    · have hcall : (call == key) = false := beq_eq_false_iff_ne.mpr hkey
      rw [List.count_append, List.count_singleton, hcall, Bool.false_and,
        if_neg Bool.false_ne_true, Nat.add_zero, Nat.add_zero]

theorem granted_grants (limit : ℕ) (calls : List κ) (key : κ) :
    granted calls (grants limit [] calls) key = min (calls.count key) limit := by
  have hadd := granted_grants_add limit [] calls key
  rw [List.count_nil, Nat.zero_min, Nat.zero_add, List.nil_append] at hadd
  exact hadd

end quota

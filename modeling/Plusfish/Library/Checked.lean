import Mathlib.Algebra.Ring.Int.Defs
import Mathlib.Algebra.Ring.Nat
import Mathlib.Tactic.Common

/-! Computations on the 32-bit `int`s that index a vector, which are checked for overflow and for
the bounds of the vector. -/

namespace checked

/-- What can go wrong, and a loop that goes on for more rounds than it is given. -/
inductive Fault where
  | overflow
  | index
  | substr
  | rounds
deriving DecidableEq

/-- The value of a computation on `int`s. -/
def int32 (value : Int) : Except Fault Int :=
  if -2 ^ 31 ≤ value ∧ value < 2 ^ 31 then .ok value else .error .overflow

/-- The conversion of an `int` to a size of 64 bits. -/
def toSize (value : Int) : ℕ := (value % 2 ^ 64).toNat

section
variable {α : Type}

/-- The element at an index. -/
def get (items : List α) (index : Int) : Except Fault α :=
  match items[toSize index]? with
  | none => .error .index
  | some item => .ok item

/-- Up to a number of elements, from a position on. -/
def substr (items : List α) (start count : Int) : Except Fault (List α) :=
  if items.length < toSize start then .error .substr
  else .ok ((items.drop (toSize start)).take (toSize count))

end

section
variable {α : Type} {items : List α}

theorem ok_bind {β : Type} (a : α) (f : α → Except Fault β) : (Except.ok a >>= f) = f a := rfl

theorem int32_of_eq {value : Int} {n : ℕ} (hvalue : value = n) (hn : n < 2 ^ 31) :
    int32 value = .ok n := by
  rw [int32, if_pos (by omega), hvalue]

theorem toSize_of_eq {value : Int} {n : ℕ} (hvalue : value = n) (hn : n < 2 ^ 64) :
    toSize value = n := by
  rw [toSize, hvalue, Int.emod_eq_of_lt (by omega) (by omega), Int.toNat_natCast]

theorem get_natCast {index : ℕ} (hindex : index < items.length) (hlength : items.length ≤ 2 ^ 64) :
    get items index = .ok items[index] := by
  rw [get, toSize_of_eq rfl (by omega), List.getElem?_eq_getElem hindex]

theorem substr_natCast {start count : ℕ} (hstart : start ≤ items.length)
    (hlength : items.length < 2 ^ 64) (hcount : count < 2 ^ 64) :
    substr items start count = .ok ((items.drop start).take count) := by
  rw [substr, toSize_of_eq rfl (by omega), toSize_of_eq rfl hcount, if_neg (by omega)]

end

end checked

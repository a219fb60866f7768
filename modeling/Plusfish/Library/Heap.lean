import Mathlib.Data.List.Basic
import Mathlib.Tactic.Common

namespace memory

/-- Objects of one type, each at the address it was allocated at. Addresses are
    never handed out twice, and an object that no owner refers to any more keeps
    its last contents. -/
structure Heap (α : Type) where
  cells : List α := []
deriving DecidableEq

namespace Heap

variable {α : Type}

def get? (heap : Heap α) (p : Nat) : Option α := heap.cells[p]?

/-- The address the next allocation returns. -/
def next (heap : Heap α) : Nat := heap.cells.length

def alloc (heap : Heap α) (object : α) : Nat × Heap α :=
  (heap.next, ⟨heap.cells ++ [object]⟩)

/-- Allocates several objects, one after the other. -/
def allocAll (heap : Heap α) (objects : List α) : List Nat × Heap α :=
  (List.range' heap.next objects.length, ⟨heap.cells ++ objects⟩)

def modify (heap : Heap α) (p : Nat) (f : α → α) : Heap α := ⟨heap.cells.modify p f⟩

@[simp] theorem alloc_fst (heap : Heap α) (object : α) : (heap.alloc object).1 = heap.next := rfl

theorem get?_alloc (heap : Heap α) (object : α) (p : Nat) :
    (heap.alloc object).2.get? p = if p = heap.next then some object else heap.get? p := by
  simp only [alloc, get?, next, List.getElem?_append]
  rcases Nat.lt_trichotomy p heap.cells.length with hlt | heq | hgt
  · have hne : p ≠ heap.cells.length := by omega
    simp [hlt, hne]
  · simp [heq]
  · have hnot : ¬ p < heap.cells.length := by omega
    have hne : p ≠ heap.cells.length := by omega
    have hpast : p - heap.cells.length ≠ 0 := by omega
    simp [hnot, hne, hpast]

@[simp] theorem get?_alloc_next (heap : Heap α) (object : α) :
    (heap.alloc object).2.get? heap.next = some object := by
  simp [get?_alloc]

theorem get?_modify (heap : Heap α) (p q : Nat) (f : α → α) :
    (heap.modify p f).get? q = if p = q then (heap.get? q).map f else heap.get? q := by
  simp only [modify, get?, List.getElem?_modify]
  by_cases h : p = q <;> simp [h]

@[simp] theorem next_modify (heap : Heap α) (p : Nat) (f : α → α) :
    (heap.modify p f).next = heap.next := by
  simp [modify, next]

@[simp] theorem next_alloc (heap : Heap α) (object : α) :
    (heap.alloc object).2.next = heap.next + 1 := by
  simp [alloc, next]

theorem mem_allocAll_fst {heap : Heap α} {objects : List α} {p : Nat} :
    p ∈ (heap.allocAll objects).1 ↔ heap.next ≤ p ∧ p < heap.next + objects.length := by
  simp [allocAll, List.mem_range'_1]

@[simp] theorem next_allocAll (heap : Heap α) (objects : List α) :
    (heap.allocAll objects).2.next = heap.next + objects.length := by
  simp [allocAll, next]

theorem get?_allocAll_of_lt {heap : Heap α} (objects : List α) {p : Nat} (hp : p < heap.next) :
    (heap.allocAll objects).2.get? p = heap.get? p :=
  List.getElem?_append_left hp

theorem get?_allocAll_of_le {heap : Heap α} (objects : List α) {p : Nat} (hp : heap.next ≤ p) :
    (heap.allocAll objects).2.get? p = objects[p - heap.next]? :=
  List.getElem?_append_right hp

theorem lt_next_of_get? {heap : Heap α} {p : Nat} {object : α} (h : heap.get? p = some object) :
    p < heap.next := by
  simp only [get?, next] at *
  exact (List.getElem?_eq_some_iff.mp h).1

theorem get?_of_lt_next {heap : Heap α} {p : Nat} (h : p < heap.next) :
    ∃ object, heap.get? p = some object :=
  ⟨_, List.getElem?_eq_getElem h⟩

/-- Every object of the first heap is still at its address in the second, related
    to what it was by `R`. This is the frame condition of heap-changing code. -/
def Frame (R : α → α → Prop) (heap heap' : Heap α) : Prop :=
  ∀ p object, heap.get? p = some object → ∃ object', heap'.get? p = some object' ∧ R object object'

namespace Frame

variable {R : α → α → Prop}

theorem refl (hR : ∀ a, R a a) (heap : Heap α) : Frame R heap heap :=
  fun _ object h => ⟨object, h, hR object⟩

theorem mono {R' : α → α → Prop} {heap heap' : Heap α} (h : Frame R heap heap')
    (himp : ∀ a b, R a b → R' a b) : Frame R' heap heap' := by
  intro p object hget
  obtain ⟨object', hget', hR⟩ := h p object hget
  exact ⟨object', hget', himp _ _ hR⟩

theorem trans (hR : ∀ a b c, R a b → R b c → R a c) {heap₁ heap₂ heap₃ : Heap α}
    (h₁ : Frame R heap₁ heap₂) (h₂ : Frame R heap₂ heap₃) : Frame R heap₁ heap₃ := by
  intro p object hget
  obtain ⟨middle, hmiddle, hfirst⟩ := h₁ p object hget
  obtain ⟨last, hlast, hsecond⟩ := h₂ p middle hmiddle
  exact ⟨last, hlast, hR _ _ _ hfirst hsecond⟩

theorem next_le {heap heap' : Heap α} (h : Frame R heap heap') : heap.next ≤ heap'.next := by
  by_contra hlt
  obtain ⟨object, hget⟩ := get?_of_lt_next (Nat.lt_of_not_le hlt)
  obtain ⟨_, hget', _⟩ := h _ object hget
  exact Nat.lt_irrefl _ (lt_next_of_get? hget')

theorem alloc (hR : ∀ a, R a a) (heap : Heap α) (object : α) :
    Frame R heap (heap.alloc object).2 := by
  intro p found hget
  have hne : p ≠ heap.next := Nat.ne_of_lt (lt_next_of_get? hget)
  exact ⟨found, by simp [get?_alloc, hne, hget], hR found⟩

/-- Changing an object just allocated changes none of the older ones. -/
theorem alloc_modify (hR : ∀ a, R a a) (heap : Heap α) (object : α) (f : α → α) :
    Frame R heap ((heap.alloc object).2.modify heap.next f) := by
  intro p found hget
  have hne : p ≠ heap.next := Nat.ne_of_lt (lt_next_of_get? hget)
  exact ⟨found, by simp [get?_modify, get?_alloc, hne, Ne.symm hne, hget], hR found⟩

theorem modify (hR : ∀ a, R a a) (heap : Heap α) (p : Nat) {f : α → α} (hf : ∀ a, R a (f a)) :
    Frame R heap (heap.modify p f) := by
  intro q found hget
  by_cases h : p = q
  · exact ⟨f found, by simp [get?_modify, h, hget], hf found⟩
  · exact ⟨found, by simp [get?_modify, h, hget], hR found⟩

end Frame

end Heap

end memory

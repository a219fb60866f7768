import Mathlib.Data.List.Nodup
import Mathlib.Data.List.Perm.Basic
import Mathlib.Tactic.Common

/-! Lists of elements with keys. -/

namespace keyed

variable {α κ : Type} {key : α → κ}

section
variable [DecidableEq κ]

/-- Taking out what has the key of an element takes out just that element. -/
theorem perm_cons_filter {l : List α} (hdistinct : (l.map key).Nodup) {a : α} (ha : a ∈ l) :
    l.Perm (a :: l.filter fun b => key b != key a) := by
  induction l with
  | nil => cases ha
  | cons b l ih =>
    simp only [List.map_cons, List.nodup_cons] at hdistinct
    rcases List.mem_cons.mp ha with rfl | hrest
    · have hothers : l.filter (fun b => key b != key a) = l := by
        apply List.filter_eq_self.mpr
        intro b hb
        have hne : key b ≠ key a := fun heq =>
          hdistinct.1 (heq ▸ List.mem_map_of_mem hb)
        simp [hne]
      simp [hothers]
    · have hne : key b ≠ key a := fun heq => hdistinct.1 (heq ▸ List.mem_map_of_mem hrest)
      rw [List.filter_cons_of_pos (by simp [hne])]
      exact ((ih hdistinct.2 hrest).cons b).trans (List.Perm.swap _ _ _)

/-- What is found under a key is the element with that key. -/
theorem find?_eq_some_iff {l : List α} (hdistinct : (l.map key).Nodup) {k : κ} {a : α} :
    l.find? (fun b => key b == k) = some a ↔ a ∈ l ∧ key a = k := by
  constructor
  · intro hfind
    have hkey := List.find?_some hfind
    exact ⟨List.mem_of_find?_eq_some hfind, by simpa using hkey⟩
  · rintro ⟨hmem, rfl⟩
    induction l with
    | nil => cases hmem
    | cons b l ih =>
      simp only [List.map_cons, List.nodup_cons] at hdistinct
      rcases List.mem_cons.mp hmem with rfl | hrest
      · exact List.find?_cons_of_pos (by simp)
      · have hne : key b ≠ key a := fun heq => hdistinct.1 (heq ▸ List.mem_map_of_mem hrest)
        rw [List.find?_cons_of_neg (by simpa using hne)]
        exact ih hdistinct.2 hrest

theorem eraseP_eq_filter {l : List α} (hdistinct : (l.map key).Nodup) (k : κ) :
    l.eraseP (fun b => key b == k) = l.filter fun b => key b != k := by
  induction l with
  | nil => rfl
  | cons b l ih =>
    simp only [List.map_cons, List.nodup_cons] at hdistinct
    by_cases hkey : key b = k
    · have hothers : l.filter (fun b => key b != k) = l := by
        apply List.filter_eq_self.mpr
        intro c hc
        have hne : key c ≠ k := fun heq =>
          hdistinct.1 (hkey.trans heq.symm ▸ List.mem_map_of_mem hc)
        simp [hne]
      simp [hkey, hothers]
    · simp [hkey, ih hdistinct.2]

end

section
variable [BEq κ]

/-- The elements of a list that are the first of their key. -/
def firstOfEach (key : α → κ) : List α → List α
  | [] => []
  | a :: l => a :: (firstOfEach key l).filter fun b => key b != key a

/-- Appends an element if its key is a new one. -/
def addNew (key : α → κ) (l : List α) (a : α) : List α :=
  if l.any fun b => key b == key a then l else l ++ [a]

variable [LawfulBEq κ]

/-- Adding one element after the other adds the first one of each new key. -/
theorem foldl_addNew (acc l : List α) :
    l.foldl (addNew key) acc =
      acc ++ (firstOfEach key l).filter fun a => !(acc.map key).contains (key a) := by
  induction l generalizing acc with
  | nil => simp [firstOfEach]
  | cons a l ih =>
    rw [List.foldl_cons, ih, firstOfEach, addNew]
    by_cases hknown : key a ∈ acc.map key
    · have hany : (acc.any fun b => key b == key a) = true := by
        obtain ⟨b, hb, hkey⟩ := List.mem_map.mp hknown
        exact List.any_eq_true.mpr ⟨b, hb, by simpa using hkey⟩
      rw [if_pos hany, List.filter_cons_of_neg (by simpa using hknown), List.filter_filter]
      congr 1
      apply List.filter_congr
      intro b _
      by_cases hkey : key b = key a
      · simp [hkey, hknown]
      · simp [hkey]
    · have hany : (acc.any fun b => key b == key a) = false := by
        rw [List.any_eq_false]
        intro b hb heq
        exact hknown (List.mem_map.mpr ⟨b, hb, by simpa using heq⟩)
      rw [hany, if_neg Bool.false_ne_true, List.filter_cons_of_pos (by simpa using hknown),
        List.filter_filter, List.append_assoc, List.singleton_append]
      congr 2
      apply List.filter_congr
      intro b _
      by_cases hkey : key b = key a
      · simp [hkey]
      · have hne : (key b != key a) = true := by simpa using hkey
        simp [hne, hkey]

end

end keyed

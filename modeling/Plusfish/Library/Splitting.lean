import Mathlib.Data.List.TakeWhile
import Mathlib.Tactic.Common

/-! Lists that are split at a delimiter, and put together with it again. -/

namespace splitting

variable {α : Type} {c d : α} {s piece : List α} {pieces : List (List α)}

theorem mem_intercalate (hd : d ∈ [c].intercalate pieces) :
    (d = c ∧ 1 < pieces.length) ∨ ∃ piece ∈ pieces, d ∈ piece := by
  induction pieces with
  | nil => exact absurd hd List.not_mem_nil
  | cons piece pieces ih =>
    by_cases hnil : pieces = []
    · subst hnil
      rw [List.intercalate_singleton] at hd
      exact .inr ⟨piece, List.mem_cons_self, hd⟩
    · have hpos := List.length_pos_iff.mpr hnil
      rw [List.intercalate_cons_of_ne_nil hnil] at hd
      rcases List.mem_append.mp hd with hd | hd
      · rcases List.mem_append.mp hd with hd | hd
        · exact .inr ⟨piece, List.mem_cons_self, hd⟩
        · refine .inl ⟨List.mem_singleton.mp hd, ?_⟩
          rw [List.length_cons]
          omega
      · rcases ih hd with ⟨rfl, hlength⟩ | ⟨other, hother, hmem⟩
        · refine .inl ⟨rfl, ?_⟩
          rw [List.length_cons]
          omega
        · exact .inr ⟨other, List.mem_cons_of_mem _ hother, hmem⟩

/-- Pieces that each follow a delimiter. -/
theorem flatMap_cons_eq (hne : pieces ≠ []) :
    pieces.flatMap (c :: ·) = c :: [c].intercalate pieces := by
  induction pieces with
  | nil => exact absurd rfl hne
  | cons piece pieces ih =>
    by_cases hnil : pieces = []
    · subst hnil
      simp
    · rw [List.flatMap_cons, ih hnil, List.intercalate_cons_of_ne_nil hnil]
      simp

/-- A piece has no delimiter in it, and nothing that the list did not have. -/
theorem mem_splitOnP {p : α → Bool} (hpiece : piece ∈ s.splitOnP p) :
    (∀ d ∈ piece, p d = false) ∧ ∀ d ∈ piece, d ∈ s := by
  induction s generalizing piece with
  | nil =>
    rw [List.splitOnP_nil, List.mem_singleton] at hpiece
    subst hpiece
    exact ⟨fun _ h => absurd h List.not_mem_nil, fun _ h => h⟩
  | cons first s ih =>
    rw [List.splitOnP_cons_eq_if_modifyHead] at hpiece
    split at hpiece
    · rcases List.mem_cons.mp hpiece with rfl | hpiece
      · exact ⟨fun _ h => absurd h List.not_mem_nil, fun _ h => absurd h List.not_mem_nil⟩
      · obtain ⟨hplain, hsub⟩ := ih hpiece
        exact ⟨hplain, fun d hd => List.mem_cons_of_mem _ (hsub d hd)⟩
    · rename_i hfirst
      obtain ⟨head, rest, hsplit⟩ := List.exists_cons_of_ne_nil (List.splitOnP_ne_nil p s)
      rw [hsplit, List.modifyHead_cons] at hpiece
      rcases List.mem_cons.mp hpiece with rfl | hpiece
      · obtain ⟨hplain, hsub⟩ := ih (hsplit ▸ List.mem_cons_self)
        refine ⟨fun d hd => ?_, fun d hd => ?_⟩
        · rcases List.mem_cons.mp hd with rfl | hd
          · exact Bool.eq_false_iff.mpr hfirst
          · exact hplain d hd
        · rcases List.mem_cons.mp hd with rfl | hd
          · exact List.mem_cons_self
          · exact List.mem_cons_of_mem _ (hsub d hd)
      · obtain ⟨hplain, hsub⟩ := ih (hsplit ▸ List.mem_cons_of_mem _ hpiece)
        exact ⟨hplain, fun d hd => List.mem_cons_of_mem _ (hsub d hd)⟩

/-- The longest runs in a list of elements that are no delimiters. -/
def runs (p : α → Bool) (s : List α) : List (List α) := (s.splitOnP p).filter (· ≠ [])

section
variable {p : α → Bool} {run rest : List α}

theorem runs_skip (hd : p d = true) (rest : List α) : runs p (d :: rest) = runs p rest := by
  rw [runs, List.splitOnP_cons_eq_if_modifyHead, if_pos hd]
  rfl

theorem runs_append_cons (hrun : ∀ c ∈ run, p c = false) (hne : run ≠ []) (hd : p d = true)
    (rest : List α) : runs p (run ++ d :: rest) = run :: runs p rest := by
  rw [runs, List.splitOnP_append_cons_of_forall_mem hrun d hd,
    List.filter_cons_of_pos (by simpa using hne)]
  rfl

theorem runs_eq_singleton (hrun : ∀ c ∈ run, p c = false) (hne : run ≠ []) :
    runs p run = [run] := by
  rw [runs, List.splitOnP_eq_singleton hrun, List.filter_cons_of_pos (by simpa using hne)]
  rfl

theorem mem_runs (hrun : run ∈ runs p s) : run ≠ [] ∧ ∀ c ∈ run, p c = false := by
  obtain ⟨hpiece, hne⟩ := List.mem_filter.mp hrun
  exact ⟨by simpa using hne, (mem_splitOnP hpiece).1⟩

theorem runs_eq_nil_iff : runs p s = [] ↔ ∀ c ∈ s, p c = true := by
  induction s with
  | nil => simp [runs]
  | cons c s ih =>
    by_cases hc : p c = true
    · rw [runs_skip hc, ih, List.forall_mem_cons, and_iff_right hc]
    · -- The first run has `c` in it, whether or not a delimiter follows it.
      have hne : runs p (c :: s) ≠ [] := by
        have hplain : ∀ d ∈ (c :: s).takeWhile (! p ·), p d = false := by
          intro d hd
          simpa using List.mem_takeWhile_imp hd
        have hfirst : (c :: s).takeWhile (! p ·) ≠ [] := by simp [hc]
        rw [← List.takeWhile_append_dropWhile (p := (! p ·)) (l := c :: s)]
        cases hrest : (c :: s).dropWhile (! p ·) with
        | nil =>
          rw [List.append_nil, runs_eq_singleton hplain hfirst]
          exact List.cons_ne_nil _ _
        | cons d rest =>
          have hd : p d = true := by
            have h := List.head?_dropWhile_not (! p ·) (c :: s)
            rw [hrest] at h
            simpa using h
          rw [runs_append_cons hplain hfirst hd]
          exact List.cons_ne_nil _ _
      refine iff_of_false hne fun hall => ?_
      exact hc (hall c List.mem_cons_self)

end

section
variable [BEq α] [LawfulBEq α]

/-- A piece has no delimiter in it, and nothing that the list did not have. -/
theorem mem_splitOn (hpiece : piece ∈ s.splitOn c) : c ∉ piece ∧ ∀ d ∈ piece, d ∈ s := by
  obtain ⟨hplain, hsub⟩ := mem_splitOnP hpiece
  refine ⟨fun hc => ?_, hsub⟩
  have hself : (c == c) = false := hplain c hc
  rw [beq_self_eq_true] at hself
  cases hself

/-- Pieces that are each ended by a delimiter come back by splitting. -/
theorem splitOn_terminated (hpieces : ∀ piece ∈ pieces, c ∉ piece) :
    (pieces.flatMap (· ++ [c])).splitOn c = pieces ++ [[]] := by
  induction pieces with
  | nil => simp
  | cons piece pieces ih =>
    have hrest := ih fun piece h => hpieces piece (List.mem_cons_of_mem _ h)
    rw [List.flatMap_cons, List.append_assoc, List.singleton_append,
      List.splitOn_append_cons_self_of_not_mem (hpieces piece List.mem_cons_self), hrest,
      List.cons_append]

theorem terminated_injective {pieces' : List (List α)} (hpieces : ∀ piece ∈ pieces, c ∉ piece)
    (hpieces' : ∀ piece ∈ pieces', c ∉ piece)
    (h : pieces.flatMap (· ++ [c]) = pieces'.flatMap (· ++ [c])) : pieces = pieces' := by
  have hsplit := congrArg (List.splitOn c) h
  rw [splitOn_terminated hpieces, splitOn_terminated hpieces'] at hsplit
  exact List.append_cancel_right hsplit

end

end splitting

import Mathlib.Data.List.Infix
import Mathlib.Logic.Relation
import Mathlib.Tactic.Common

/-! Rewriting of strings with one rule, whose pattern starts with a mark that is nowhere else in
    it, so that no two occurrences of the pattern overlap. -/

namespace rewriting

open Relation

variable {α : Type}

/-- One occurrence of a pattern is replaced. -/
def Step (pattern replacement s t : List α) : Prop :=
  ∃ before after, s = before ++ (pattern ++ after) ∧ t = before ++ (replacement ++ after)

abbrev Steps (pattern replacement : List α) := ReflTransGen (Step pattern replacement)

section
variable {pattern replacement s t s' t' : List α}

theorem Step.isInfix (h : Step pattern replacement s t) : pattern <:+: s := by
  obtain ⟨before, after, rfl, _⟩ := h
  exact ⟨before, after, List.append_assoc before pattern after⟩

theorem Steps.append_left (start : List α) (h : Steps pattern replacement s t) :
    Steps pattern replacement (start ++ s) (start ++ t) := by
  refine h.lift (start ++ ·) fun _ _ hstep => ?_
  obtain ⟨before, after, rfl, rfl⟩ := hstep
  exact ⟨start ++ before, after, (List.append_assoc _ _ _).symm, (List.append_assoc _ _ _).symm⟩

theorem Steps.append_right (rest : List α) (h : Steps pattern replacement s t) :
    Steps pattern replacement (s ++ rest) (t ++ rest) := by
  refine h.lift (· ++ rest) fun _ _ hstep => ?_
  obtain ⟨before, after, rfl, rfl⟩ := hstep
  exact ⟨before, after ++ rest, by simp, by simp⟩

theorem Steps.append (h : Steps pattern replacement s t) (h' : Steps pattern replacement s' t') :
    Steps pattern replacement (s ++ s') (t ++ t') :=
  (h.append_right s').trans (h'.append_left t)

/-- What is rewritten piece by piece is rewritten as a whole. -/
theorem Steps.flatMap {β : Type} {f g : β → List α} (text : List β)
    (h : ∀ a ∈ text, Steps pattern replacement (f a) (g a)) :
    Steps pattern replacement (text.flatMap f) (text.flatMap g) := by
  induction text with
  | nil => exact .refl
  | cons a text ih =>
    rw [List.flatMap_cons, List.flatMap_cons]
    exact (h a List.mem_cons_self).append (ih fun b hb => h b (List.mem_cons_of_mem _ hb))

end

section
variable {mark : α} {rest : List α}

/-- Two occurrences of the pattern are one and the same, or apart from each other. -/
theorem occurrence_cases (hmark : mark ∉ rest) {before after before' after' : List α}
    (h : before ++ (mark :: rest ++ after) = before' ++ (mark :: rest ++ after')) :
    (before = before' ∧ after = after') ∨
    (∃ middle, before' = before ++ (mark :: rest ++ middle) ∧
      after = middle ++ (mark :: rest ++ after')) ∨
    ∃ middle, before = before' ++ (mark :: rest ++ middle) ∧
      after' = middle ++ (mark :: rest ++ after) := by
  have hahead {before after before' after' start : List α} (hstart : before' = before ++ start)
      (hne : start ≠ []) (h : mark :: rest ++ after = start ++ (mark :: rest ++ after')) :
      ∃ middle, before' = before ++ (mark :: rest ++ middle) ∧
        after = middle ++ (mark :: rest ++ after') := by
    obtain ⟨first, start, rfl⟩ := List.exists_cons_of_ne_nil hne
    obtain ⟨rfl, htail⟩ := List.cons.inj h
    rcases List.append_eq_append_iff.mp htail with ⟨middle, rfl, hafter⟩ | ⟨excess, hexcess, hafter⟩
    · exact ⟨middle, hstart, hafter⟩
    · cases excess with
      | nil =>
        rw [List.append_nil] at hexcess
        exact ⟨[], by rw [hstart, hexcess, List.append_nil], hafter.symm⟩
      | cons first excess =>
        obtain ⟨rfl, _⟩ := List.cons.inj hafter
        exact absurd (hexcess ▸ List.mem_append_right _ List.mem_cons_self) hmark
  rcases List.append_eq_append_iff.mp h with ⟨start, hstart, hrest⟩ | ⟨start, hstart, hrest⟩
  · by_cases hne : start = []
    · subst hne
      rw [List.append_nil] at hstart
      exact .inl ⟨hstart.symm, List.append_cancel_left hrest⟩
    · exact .inr (.inl (hahead hstart hne hrest))
  · by_cases hne : start = []
    · subst hne
      rw [List.append_nil] at hstart
      exact .inl ⟨hstart, (List.append_cancel_left hrest).symm⟩
    · exact .inr (.inr (hahead hstart hne hrest))

variable {replacement s t t' : List α}

/-- Where two occurrences are replaced, the other one can be replaced afterwards. -/
theorem Step.diamond (hmark : mark ∉ rest) (h : Step (mark :: rest) replacement s t)
    (h' : Step (mark :: rest) replacement s t') :
    t = t' ∨ ∃ u, Step (mark :: rest) replacement t u ∧ Step (mark :: rest) replacement t' u := by
  obtain ⟨before, after, rfl, rfl⟩ := h
  obtain ⟨before', after', heq, rfl⟩ := h'
  rcases occurrence_cases hmark heq with ⟨rfl, rfl⟩ | ⟨middle, rfl, rfl⟩ | ⟨middle, rfl, rfl⟩
  · exact .inl rfl
  · refine .inr ⟨before ++ (replacement ++ (middle ++ (replacement ++ after'))), ?_, ?_⟩
    · exact ⟨before ++ (replacement ++ middle), after', by simp, by simp⟩
    · exact ⟨before, middle ++ (replacement ++ after'), by simp, rfl⟩
  · refine .inr ⟨before' ++ (replacement ++ (middle ++ (replacement ++ after))), ?_, ?_⟩
    · exact ⟨before', middle ++ (replacement ++ after), by simp, rfl⟩
    · exact ⟨before' ++ (replacement ++ middle), after, by simp, by simp⟩

/-- In whatever order the occurrences are replaced, the result is the same. -/
theorem Steps.eq_of_normal (hmark : mark ∉ rest) (h : Steps (mark :: rest) replacement s t)
    (h' : Steps (mark :: rest) replacement s t') (hnormal : ¬ (mark :: rest) <:+: t)
    (hnormal' : ¬ (mark :: rest) <:+: t') : t = t' := by
  have hstays {u v : List α} (hnone : ¬ (mark :: rest) <:+: u)
      (hsteps : Steps (mark :: rest) replacement u v) : u = v := by
    rcases hsteps.cases_head with heq | ⟨_, hstep, _⟩
    · exact heq
    · exact absurd hstep.isInfix hnone
  have hjoin : Join (Steps (mark :: rest) replacement) t t' := by
    refine church_rosser (fun a b c hab hac => ?_) h h'
    rcases hab.diamond hmark hac with rfl | ⟨d, hbd, hcd⟩
    · exact ⟨b, .refl, .refl⟩
    · exact ⟨d, .single hbd, .single hcd⟩
  obtain ⟨u, hu, hu'⟩ := hjoin
  rw [hstays hnormal hu, hstays hnormal' hu']

/-- An occurrence that does not contain the one character put in is there before. -/
theorem Step.isInfix_of_isInfix {pattern found : List α} {c : α} (hc : c ∉ found)
    (h : Step pattern [c] s t) (hfound : found <:+: t) : found <:+: s := by
  obtain ⟨before, after, rfl, rfl⟩ := h
  have hapart : found <:+: before ∨ found <:+: after := by
    obtain ⟨start, stop, heq⟩ := hfound
    rcases List.append_eq_append_iff.mp heq with ⟨excess, rfl, _⟩ | ⟨excess, hbefore, hafter⟩
    · exact .inl ⟨start, excess, rfl⟩
    · cases excess with
      | nil => exact .inl ⟨start, [], by rw [hbefore, List.append_nil, List.append_nil]⟩
      | cons first excess =>
        obtain ⟨rfl, rfl⟩ := List.cons.inj hafter
        rcases List.append_eq_append_iff.mp hbefore with ⟨_, _, rfl⟩ | ⟨skipped, _, hexcess⟩
        · exact absurd (List.mem_append_right _ List.mem_cons_self) hc
        · cases skipped with
          | nil =>
            rw [List.nil_append] at hexcess
            exact absurd (hexcess ▸ List.mem_cons_self) hc
          | cons _ skipped =>
            obtain ⟨_, rfl⟩ := List.cons.inj hexcess
            exact .inr ⟨skipped, stop, rfl⟩
  rcases hapart with hbefore | hafter
  · exact hbefore.trans (List.prefix_append _ _).isInfix
  · rw [← List.append_assoc]
    exact hafter.trans (List.suffix_append _ _).isInfix

theorem Steps.isInfix_of_isInfix {pattern found : List α} {c : α} (hc : c ∉ found)
    (h : Steps pattern [c] s t) (hfound : found <:+: t) : found <:+: s := by
  induction h with
  | refl => exact hfound
  | tail _ hstep ih => exact ih (hstep.isInfix_of_isInfix hc hfound)

end

/-! Texts of which some characters are written as themselves, and the others with the mark. -/

section
variable {mark : α} {rest : List α} {f : α → List α}

theorem isPrefix_of_isPrefix_flatMap (hf : ∀ a, f a = [a] ∨ ∃ escape, f a = mark :: escape)
    {start text : List α} (hmark : mark ∉ start) (h : start <+: text.flatMap f) :
    start <+: text := by
  induction text generalizing start with
  | nil => exact h
  | cons a text ih =>
    cases start with
    | nil => exact List.nil_prefix
    | cons b start =>
      obtain ⟨hb, hmark⟩ := not_or.mp (List.mem_cons.not.mp hmark)
      rw [List.flatMap_cons] at h
      rcases hf a with ha | ⟨escape, ha⟩
      · rw [ha, List.singleton_append, List.cons_prefix_cons] at h
        rw [List.cons_prefix_cons]
        exact ⟨h.1, ih hmark h.2⟩
      · rw [ha, List.cons_append, List.cons_prefix_cons] at h
        exact absurd h.1.symm hb

/-- An occurrence of the pattern that is not an escaped character is in the text itself. -/
theorem isInfix_of_isInfix_flatMap (hmark : mark ∉ rest)
    (hf : ∀ a, f a = [a] ∨ ∃ escape, f a = mark :: escape ∧ mark ∉ escape ∧
      ¬ (mark :: rest) <+: f a ∧ ¬ f a <+: (mark :: rest))
    {text : List α} (h : (mark :: rest) <:+: text.flatMap f) :
    f mark = [mark] ∧ (mark :: rest) <:+: text := by
  have hskip {escape following : List α} (hescape : mark ∉ escape)
      (h : (mark :: rest) <:+: escape ++ following) : (mark :: rest) <:+: following := by
    induction escape with
    | nil => exact h
    | cons b escape ih =>
      obtain ⟨hb, hescape⟩ := not_or.mp (List.mem_cons.not.mp hescape)
      rcases List.infix_cons_iff.mp h with hstart | hlater
      · exact absurd (List.cons_prefix_cons.mp hstart).1 hb
      · exact ih hescape hlater
  induction text with
  | nil => exact absurd (List.infix_nil.mp h) (List.cons_ne_nil _ _)
  | cons a text ih =>
    rw [List.flatMap_cons] at h
    rcases hf a with ha | ⟨escape, ha, hescape, hnot, hnot'⟩
    · rw [ha, List.singleton_append] at h
      rcases List.infix_cons_iff.mp h with hstart | hlater
      · obtain ⟨rfl, hrest⟩ := List.cons_prefix_cons.mp hstart
        have htext : rest <+: text := isPrefix_of_isPrefix_flatMap
          (fun b => (hf b).imp_right fun ⟨escape, hb, _⟩ => ⟨escape, hb⟩) hmark hrest
        exact ⟨ha, (List.cons_prefix_cons.mpr ⟨rfl, htext⟩).isInfix⟩
      · obtain ⟨hplain, hfound⟩ := ih hlater
        exact ⟨hplain, hfound.trans (List.suffix_cons _ _).isInfix⟩
    · rw [ha, List.cons_append] at h
      rcases List.infix_cons_iff.mp h with hstart | hlater
      · have hown : f a <+: mark :: (escape ++ text.flatMap f) := by
          rw [ha]
          exact List.prefix_append (mark :: escape) _
        rcases List.prefix_or_prefix_of_prefix hstart hown with hshort | hlong
        · exact absurd hshort hnot
        · exact absurd hlong hnot'
      · obtain ⟨hplain, hfound⟩ := ih (hskip hescape hlater)
        exact ⟨hplain, hfound.trans (List.suffix_cons _ _).isInfix⟩

end

end rewriting

import Mathlib.Data.List.Pairwise
import Plusfish.Library.Rewriting
import Plusfish.Parsers.Escaping

open rewriting Relation

namespace plusfish

namespace util

section
variable {pattern replacement s t : Bytes}

theorem replaceFirst_step (h : replaceFirst pattern replacement s = some t) :
    Step pattern replacement s t := by
  induction s generalizing t with
  | nil => cases h
  | cons c s ih =>
    rw [replaceFirst] at h
    split at h
    · rename_i hfound
      cases h
      obtain ⟨after, hafter⟩ := List.isPrefixOf_iff_prefix.mp hfound
      exact ⟨[], after, hafter.symm, by rw [← hafter, List.drop_left]; rfl⟩
    · obtain ⟨rest, hrest, rfl⟩ := Option.map_eq_some_iff.mp h
      obtain ⟨before, after, rfl, rfl⟩ := ih hrest
      exact ⟨c :: before, after, rfl, rfl⟩

theorem replaceFirst_eq_none_iff (hne : pattern ≠ []) :
    replaceFirst pattern replacement s = none ↔ ¬ pattern <:+: s := by
  induction s with
  | nil => simpa [replaceFirst] using hne
  | cons c s ih =>
    rw [replaceFirst, List.infix_cons_iff, not_or, ← ih, ← List.isPrefixOf_iff_prefix]
    split
    · rename_i hfound
      simp [hfound]
    · rename_i hnot
      simp [hnot]

theorem replaceAll_steps (rounds : Nat) (s : Bytes) :
    Steps pattern replacement s (replaceAll pattern replacement rounds s) := by
  induction rounds generalizing s with
  | zero => exact .refl
  | succ rounds ih =>
    rw [replaceAll]
    split
    · exact .refl
    · rename_i t ht
      exact (ReflTransGen.single (replaceFirst_step ht)).trans (ih t)

end

/-! An entity is replaced by its character. -/

section
variable {rest : Bytes} {c : UInt8} {s t : Bytes}

/-- The loop over an entity leaves none of it. -/
theorem replaceAll_normal (hrest : rest ≠ []) (s : Bytes) :
    ¬ (38 :: rest) <:+: replaceAll (38 :: rest) [c] s.length s := by
  rw [← replaceFirst_eq_none_iff (List.cons_ne_nil _ _)]
  refine replaceFirst_replaceAll ?_ (Nat.le_refl _)
  have hpos := List.length_pos_of_ne_nil hrest
  simp only [List.length_cons, List.length_nil]
  omega

/-- Whatever is left without the entity by replacing it is what the loop gives. -/
theorem replaceAll_eq (hrest : rest ≠ []) (hmark : 38 ∉ rest) (hsteps : Steps (38 :: rest) [c] s t)
    (hnormal : ¬ (38 :: rest) <:+: t) : replaceAll (38 :: rest) [c] s.length s = t :=
  (replaceAll_steps s.length s).eq_of_normal hmark hsteps (replaceAll_normal hrest s) hnormal

theorem replaceAll_of_not_isInfix (hrest : rest ≠ []) (hmark : 38 ∉ rest)
    (hnot : ¬ (38 :: rest) <:+: s) : replaceAll (38 :: rest) [c] s.length s = s :=
  replaceAll_eq hrest hmark .refl hnot

end

/-- The characters that `EscapeHtml` escapes, in the order in which `UnescapeHtml` goes through
    the entities that it writes for them. -/
def escapedChars : Bytes := ascii "&'><\""

/-- `EscapeHtml`, for some of the characters. -/
def escapeOnly (chars : Bytes) (c : UInt8) : Bytes :=
  if c ∈ chars then escapeHtmlChar c else [c]

/-- The loops of `UnescapeHtml` over the entities of these characters. -/
def unescapeOnly (chars : Bytes) (escaped : Bytes) : Bytes :=
  chars.foldl (fun ret c => replaceAll (escapeHtmlChar c) [c] ret.length ret) escaped

theorem htmlEntities_eq : htmlEntities =
    htmlEntities.take 5 ++ escapedChars.map fun c => (escapeHtmlChar c, [c]) := by decide

/-- An entity starts with the only ampersand in it. -/
theorem escapeHtmlChar_eq : ∀ c ∈ escapedChars,
    escapeHtmlChar c = 38 :: (escapeHtmlChar c).tail ∧ 38 ∉ (escapeHtmlChar c).tail ∧
      (escapeHtmlChar c).tail ≠ [] := by decide +kernel

theorem htmlEntities_take_eq : ∀ entity ∈ htmlEntities.take 5,
    entity.1 = 38 :: entity.1.tail ∧ 38 ∉ entity.1.tail ∧ entity.1.tail ≠ [] ∧
      ∃ c ∈ escapedChars, entity.2 = [c] := by decide +kernel

/-- No entity is the start of another one. -/
theorem htmlEntities_apart : (htmlEntities.map (·.1)).Pairwise fun entity entity' =>
    ¬ entity <+: entity' ∧ ¬ entity' <+: entity := by decide +kernel

theorem escapeHtmlChar_apart {c d : UInt8} (hc : c ∈ escapedChars) (hd : d ∈ escapedChars)
    (hne : c ≠ d) : ¬ escapeHtmlChar c <+: escapeHtmlChar d := by
  have hapart := htmlEntities_apart
  rw [htmlEntities_eq, List.map_append, List.map_map, List.pairwise_append] at hapart
  have hchars : escapedChars.Pairwise fun c d => ¬ escapeHtmlChar c <+: escapeHtmlChar d ∧
      ¬ escapeHtmlChar d <+: escapeHtmlChar c := List.pairwise_map.mp hapart.2.1
  have hsymm : Std.Symm fun c d => ¬ escapeHtmlChar c <+: escapeHtmlChar d ∧
      ¬ escapeHtmlChar d <+: escapeHtmlChar c := ⟨fun _ _ h => h.symm⟩
  exact (hchars.forall hc hd hne).1

theorem htmlEntities_take_apart {entity : Bytes × Bytes} (hmem : entity ∈ htmlEntities.take 5)
    {c : UInt8} (hc : c ∈ escapedChars) :
    ¬ entity.1 <+: escapeHtmlChar c ∧ ¬ escapeHtmlChar c <+: entity.1 := by
  have hapart := htmlEntities_apart
  rw [htmlEntities_eq, List.map_append, List.map_map, List.pairwise_append] at hapart
  exact hapart.2.2 _ (List.mem_map_of_mem hmem) _ (List.mem_map_of_mem hc)

theorem escapeHtml_eq (s : Bytes) : escapeHtml s = s.flatMap (escapeOnly escapedChars) := by
  refine List.flatMap_congr fun c _ => ?_
  by_cases hc : c ∈ escapedChars
  · exact (if_pos hc).symm
  · refine Eq.trans ?_ (if_neg hc).symm
    have hchars : escapedChars = [38, 39, 62, 60, 34] := by decide
    simp only [hchars, List.mem_cons, List.not_mem_nil, or_false, not_or] at hc
    simp [escapeHtmlChar, hc]

/-- Where some of the characters are escaped, an entity of none of them is in the text itself. -/
theorem isInfix_of_escapeOnly {chars rest s : Bytes} (hchars : chars ⊆ escapedChars)
    (hmark : 38 ∉ rest)
    (hapart : ∀ c ∈ chars, ¬ (38 :: rest) <+: escapeHtmlChar c ∧ ¬ escapeHtmlChar c <+: 38 :: rest)
    (h : (38 :: rest) <:+: s.flatMap (escapeOnly chars)) : 38 ∉ chars ∧ (38 :: rest) <:+: s := by
  have hshape (c : UInt8) : escapeOnly chars c = [c] ∨ ∃ escape, escapeOnly chars c = 38 :: escape ∧
      38 ∉ escape ∧ ¬ (38 :: rest) <+: escapeOnly chars c ∧
        ¬ escapeOnly chars c <+: (38 :: rest) := by
    by_cases hc : c ∈ chars
    · obtain ⟨heq, hnot, _⟩ := escapeHtmlChar_eq c (hchars hc)
      rw [escapeOnly, if_pos hc]
      exact .inr ⟨_, heq, hnot, hapart c hc⟩
    · exact .inl (if_neg hc)
  obtain ⟨hplain, hfound⟩ := isInfix_of_isInfix_flatMap hmark hshape h
  refine ⟨fun hmem => ?_, hfound⟩
  rw [escapeOnly, if_pos hmem] at hplain
  cases hplain

/-- The named entities are replaced one after the other where the text itself has none of them. -/
theorem unescapeOnly_escapeOnly {chars s : Bytes} (hnodup : chars.Nodup)
    (hchars : chars ⊆ escapedChars) (hnone : ∀ c ∈ chars, ¬ escapeHtmlChar c <:+: s) :
    unescapeOnly chars (s.flatMap (escapeOnly chars)) = s := by
  induction chars with
  | nil =>
    have hplain : escapeOnly [] = fun c => [c] := by
      funext c
      simp [escapeOnly]
    rw [hplain, List.flatMap_singleton']
    rfl
  | cons c chars ih =>
    obtain ⟨hc, hnodup⟩ := List.nodup_cons.mp hnodup
    obtain ⟨hcEscaped, hchars⟩ := List.cons_subset.mp hchars
    obtain ⟨heq, hmark, hne⟩ := escapeHtmlChar_eq c hcEscaped
    have hsteps : Steps (38 :: (escapeHtmlChar c).tail) [c] (s.flatMap (escapeOnly (c :: chars)))
        (s.flatMap (escapeOnly chars)) := by
      refine Steps.flatMap s fun a _ => ?_
      by_cases ha : a = c
      · subst ha
        rw [escapeOnly, escapeOnly, if_pos List.mem_cons_self, if_neg hc, ← heq]
        exact .single ⟨[], [], by simp, by simp⟩
      · have hsame : escapeOnly (c :: chars) a = escapeOnly chars a := by
          simp [escapeOnly, ha]
        rw [hsame]
    have hnormal : ¬ (38 :: (escapeHtmlChar c).tail) <:+: s.flatMap (escapeOnly chars) := by
      intro hfound
      refine hnone c List.mem_cons_self ?_
      rw [heq]
      refine (isInfix_of_escapeOnly hchars hmark (fun d hd => ?_) hfound).2
      have hcd : c ≠ d := fun h => hc (h ▸ hd)
      rw [← heq]
      exact ⟨escapeHtmlChar_apart hcEscaped (hchars hd) hcd,
        escapeHtmlChar_apart (hchars hd) hcEscaped hcd.symm⟩
    have hfirst := replaceAll_eq hne hmark hsteps hnormal
    rw [← heq] at hfirst
    rw [unescapeOnly, List.foldl_cons, hfirst]
    exact ih hnodup hchars fun d hd => hnone d (List.mem_cons_of_mem _ hd)

/-- The entities of the characters are gone when the loops are done with them. -/
theorem unescapeOnly_normal {chars : Bytes} (hchars : chars ⊆ escapedChars)
    (hlater : chars.Pairwise fun c d => d ∉ escapeHtmlChar c) (s : Bytes) :
    ∀ c ∈ chars, ¬ escapeHtmlChar c <:+: unescapeOnly chars s := by
  have hkeep {entity chars s : Bytes} (hchars : ∀ d ∈ chars, d ∉ entity) (h : ¬ entity <:+: s) :
      ¬ entity <:+: unescapeOnly chars s := by
    induction chars generalizing s with
    | nil => exact h
    | cons d chars ih =>
      refine ih (fun d hd => hchars d (List.mem_cons_of_mem _ hd)) fun hfound => h ?_
      exact (replaceAll_steps s.length s).isInfix_of_isInfix (hchars d List.mem_cons_self) hfound
  induction chars generalizing s with
  | nil => exact fun _ hmem => absurd hmem List.not_mem_nil
  | cons c chars ih =>
    obtain ⟨hcEscaped, hchars⟩ := List.cons_subset.mp hchars
    obtain ⟨hc, hlater⟩ := List.pairwise_cons.mp hlater
    obtain ⟨heq, _, hne⟩ := escapeHtmlChar_eq c hcEscaped
    intro d hd
    rcases List.mem_cons.mp hd with rfl | hd
    · have hdone : ¬ escapeHtmlChar d <:+: replaceAll (escapeHtmlChar d) [d] s.length s := by
        rw [heq]
        exact replaceAll_normal hne s
      rw [unescapeOnly, List.foldl_cons]
      exact hkeep hc hdone
    · exact ih hchars hlater _ d hd

theorem unescapeHtml_eq (s : Bytes) : unescapeHtml s = unescapeOnly escapedChars
    ((htmlEntities.take 5).foldl (fun ret entity => replaceAll entity.1 entity.2 ret.length ret)
      s) := by
  have hfold : unescapeHtml s =
      htmlEntities.foldl (fun ret entity => replaceAll entity.1 entity.2 ret.length ret) s := rfl
  rw [hfold, htmlEntities_eq, List.foldl_append, List.foldl_map]
  rfl

/-- In an escaped text there are no numeric entities. -/
theorem unescapeHtml_escaped (s : Bytes) :
    unescapeHtml (escapeHtml s) = unescapeOnly escapedChars (escapeHtml s) := by
  rw [unescapeHtml_eq]
  congr 1
  have hnone : ∀ entity ∈ htmlEntities.take 5,
      replaceAll entity.1 entity.2 (escapeHtml s).length (escapeHtml s) = escapeHtml s := by
    intro entity hmem
    obtain ⟨heq, hmark, hne, c, _, hc⟩ := htmlEntities_take_eq entity hmem
    rw [hc, heq]
    refine replaceAll_of_not_isInfix hne hmark fun hfound => ?_
    rw [escapeHtml_eq] at hfound
    refine (isInfix_of_escapeOnly (fun _ hmem => hmem) hmark (fun d hd => ?_) hfound).1 (by decide)
    have hapart := htmlEntities_take_apart hmem hd
    rwa [heq] at hapart
  generalize htmlEntities.take 5 = entities at hnone
  induction entities with
  | nil => rfl
  | cons entity entities ih =>
    rw [List.foldl_cons, hnone entity List.mem_cons_self]
    exact ih fun entity hmem => hnone entity (List.mem_cons_of_mem _ hmem)

/-- Unescaping gives a text back that was escaped, if the text has no named entities itself. -/
theorem unescapeHtml_escapeHtml_iff (s : Bytes) : unescapeHtml (escapeHtml s) = s ↔
    ∀ entity ∈ ["&amp;", "&apos;", "&gt;", "&lt;", "&quot;"].map ascii, ¬ entity <:+: s := by
  have hnamed : ["&amp;", "&apos;", "&gt;", "&lt;", "&quot;"].map ascii =
      escapedChars.map escapeHtmlChar := by decide
  rw [hnamed, List.forall_mem_map, unescapeHtml_escaped]
  constructor
  · intro hback c hc
    rw [← hback]
    exact unescapeOnly_normal (fun _ hmem => hmem) (by decide) _ c hc
  · intro hnone
    rw [escapeHtml_eq]
    exact unescapeOnly_escapeOnly (by decide) (fun _ hmem => hmem) hnone

/-- An ampersand that is unescaped can be the start of another entity. -/
theorem not_unescapeHtml_escapeHtml : ¬ ∀ s : Bytes, unescapeHtml (escapeHtml s) = s := by
  intro h
  have hunescaped : unescapeHtml (escapeHtml (ascii "&lt;")) = ascii "<" := by decide +kernel
  have hback := h (ascii "&lt;")
  rw [hunescaped] at hback
  cases hback

end util

end plusfish

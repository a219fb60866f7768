import Mathlib.Data.List.Infix
import Mathlib.Data.Nat.Find
import Mathlib.Tactic.Common

/-! Pieces of a text that a pattern accepts. -/

namespace matching

variable {α : Type}

/-- The text has the piece after what is before it, and the pattern accepts the piece. -/
def Occurs (pattern : List α → Prop) (text before piece : List α) : Prop :=
  pattern piece ∧ before ++ piece <+: text

/-- The piece is accepted, and none starts before it. -/
def First (pattern : List α → Prop) (text before piece : List α) : Prop :=
  Occurs pattern text before piece ∧
    ∀ before' piece', Occurs pattern text before' piece' → before.length ≤ before'.length

/-- Two accepted pieces of one text are the same one, or the earlier one ends before the later
    one starts. -/
structure Apart (pattern : List α → Prop) : Prop where
  unique : ∀ text piece piece', pattern piece → pattern piece' → piece <+: text →
    piece' <+: text → piece = piece'
  apart : ∀ text before piece before' piece', Occurs pattern text before piece →
    Occurs pattern text before' piece' → before.length < before'.length →
      (before ++ piece).length ≤ before'.length

variable {pattern : List α → Prop} {text before piece before' piece' : List α}

theorem exists_first (h : Occurs pattern text before piece) :
    ∃ before piece, First pattern text before piece := by
  classical
  have hstart : ∃ n before piece, Occurs pattern text before piece ∧ before.length = n :=
    ⟨_, before, piece, h, rfl⟩
  obtain ⟨before, piece, hoccurs, hlength⟩ := Nat.find_spec hstart
  refine ⟨before, piece, hoccurs, fun before' piece' hoccurs' => ?_⟩
  rw [hlength]
  exact Nat.find_min' hstart ⟨before', piece', hoccurs', rfl⟩

theorem Apart.eq_of_length (hpattern : Apart pattern) (h : Occurs pattern text before piece)
    (h' : Occurs pattern text before' piece') (hlength : before.length = before'.length) :
    before = before' ∧ piece = piece' := by
  obtain ⟨hpiece, rest, hrest⟩ := h
  obtain ⟨hpiece', rest', hrest'⟩ := h'
  rw [List.append_assoc] at hrest hrest'
  obtain ⟨hbefore, htail⟩ := List.append_inj (hrest.trans hrest'.symm) hlength
  refine ⟨hbefore, hpattern.unique (piece ++ rest) piece piece' hpiece hpiece' ?_ ?_⟩
  · exact List.prefix_append _ _
  · rw [htail]
    exact List.prefix_append _ _

theorem First.eq (hpattern : Apart pattern) (h : First pattern text before piece)
    (h' : First pattern text before' piece') : before = before' ∧ piece = piece' :=
  hpattern.eq_of_length h.1 h'.1
    (Nat.le_antisymm (h.2 before' piece' h'.1) (h'.2 before piece h.1))

theorem Occurs.mono {text' : List α} (h : Occurs pattern text before piece)
    (htext : text <+: text') : Occurs pattern text' before piece :=
  ⟨h.1, h.2.trans htext⟩

/-- A text that is cut off has an accepted piece exactly if the first one of the whole text is
    still in it. -/
theorem First.occurs_take_iff (hpattern : Apart pattern) (h : First pattern text before piece)
    (n : ℕ) : (∃ before' piece', Occurs pattern (text.take n) before' piece') ↔
      (before ++ piece).length ≤ n := by
  constructor
  · rintro ⟨before', piece', hoccurs⟩
    have hwhole := hoccurs.mono (List.take_prefix n text)
    have hend : (before' ++ piece').length ≤ n := by
      have hle := hoccurs.2.length_le
      rw [List.length_take] at hle
      omega
    rcases Nat.lt_or_eq_of_le (h.2 before' piece' hwhole) with hlt | heq
    · have hapart := hpattern.apart text before piece before' piece' h.1 hwhole hlt
      rw [List.length_append] at hend
      omega
    · obtain ⟨rfl, rfl⟩ := hpattern.eq_of_length h.1 hwhole heq
      exact hend
  · intro hle
    exact ⟨before, piece, h.1.1, List.prefix_take_iff.mpr ⟨h.1.2, hle⟩⟩

theorem First.take (h : First pattern text before piece) {n : ℕ}
    (hle : (before ++ piece).length ≤ n) : First pattern (text.take n) before piece :=
  ⟨⟨h.1.1, List.prefix_take_iff.mpr ⟨h.1.2, hle⟩⟩, fun before' piece' hoccurs =>
    h.2 before' piece' (hoccurs.mono (List.take_prefix n text))⟩

end matching

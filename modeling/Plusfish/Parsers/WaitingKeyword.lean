import Plusfish.Parsers.Keywords

namespace plusfish

namespace util

/-- The literals that come after the last keyword of these parts of a script are empty. -/
def LaterLiteralsEmpty (parts : List ScriptPart) : Prop :=
  ∀ before text after, parts = before ++ .literal text :: after →
    takenKeywords (some []) before = takenKeywords (some []) parts → text.length ≤ 2

/-- After these parts of a script a keyword waits for a literal: the last one that is considered,
    unless it is one that takes a URL and a literal that is not empty has come after it. -/
def KeywordWaits (parts : List ScriptPart) : Prop :=
  ∃ keyword ∈ (takenKeywords (some []) parts).getLast?,
    jsKeywordSuffixMatch keyword = true → LaterLiteralsEmpty parts

/-- The last byte of a content opens a literal for which a keyword waits. -/
def EndsInQuote (content : Bytes) : Prop :=
  ∃ parts quote, scriptParts none content = parts ++ [.literal [quote]] ∧ KeywordWaits parts

/-! The keyword that has started and the one that waits, part by part. -/

def afterPart : Option Bytes × Bytes → ScriptPart → Option Bytes × Bytes
  | (pending, waiting), .literal text =>
    (pending.map (· ++ text),
      if jsKeywordSuffixMatch waiting = true ∧ 2 < text.length then [] else waiting)
  | (pending, waiting), .char c =>
    if isKeywordChar c then (some (pending.getD [] ++ [c]), waiting)
    else (none, pending.getD waiting)

/-- The parts end with the quote of a literal for which a keyword waits. -/
def EndsWaiting (state : Option Bytes × Bytes) (parts : List ScriptPart) : Prop :=
  ∃ front quote, parts = front ++ [.literal [quote]] ∧ (front.foldl afterPart state).2 ≠ []

section
variable {parts : List ScriptPart} {state : Option Bytes × Bytes}

theorem takenKeywords_append (parts more : List ScriptPart) (state : Option Bytes × Bytes) :
    takenKeywords state.1 (parts ++ more) =
      takenKeywords state.1 parts ++ takenKeywords (parts.foldl afterPart state).1 more := by
  induction parts generalizing state with
  | nil => rfl
  | cons part parts ih =>
    obtain ⟨pending, waiting⟩ := state
    cases part with
    | literal text => exact ih (afterPart (pending, waiting) (.literal text))
    | char c =>
      rw [List.cons_append, takenKeywords, takenKeywords, List.foldl_cons, afterPart]
      split
      · exact ih (some (pending.getD [] ++ [c]), waiting)
      · rw [ih (none, pending.getD waiting), List.append_assoc]

theorem takenKeywords_concat_literal (parts : List ScriptPart) (text : Bytes) :
    takenKeywords (some []) (parts ++ [.literal text]) = takenKeywords (some []) parts :=
  (takenKeywords_append parts [.literal text] (some [], [])).trans (List.append_nil _)

/-- The literals of parts with one more are those of the parts, and maybe the last. -/
theorem laterLiteralsEmpty_concat {part : ScriptPart} :
    LaterLiteralsEmpty (parts ++ [part]) ↔
      (∀ before text after, parts = before ++ .literal text :: after →
        takenKeywords (some []) before = takenKeywords (some []) (parts ++ [part]) →
          text.length ≤ 2) ∧
      ∀ text, part = .literal text → text.length ≤ 2 := by
  constructor
  · intro h
    refine ⟨fun before text after heq => ?_, fun text heq => ?_⟩
    · exact h before text (after ++ [part]) (by rw [heq, List.append_assoc, List.cons_append])
    · subst heq
      exact h parts text [] rfl (takenKeywords_concat_literal parts text).symm
  · rintro ⟨hparts, hpart⟩ before text after heq htaken
    rcases List.eq_nil_or_concat after with rfl | ⟨later, last, rfl⟩
    · exact hpart text (List.singleton_inj.mp (List.append_inj_right' heq rfl))
    · rw [List.concat_eq_append, ← List.cons_append, ← List.append_assoc] at heq
      exact hparts before text later (List.append_inj_left' heq rfl) htaken

/-- An empty keyword has started only before the first character. -/
theorem foldl_afterPart_nil (h : state.1 = some [] → state.2 = []) :
    (parts.foldl afterPart state).1 = some [] → (parts.foldl afterPart state).2 = [] := by
  induction parts generalizing state with
  | nil => exact h
  | cons part parts ih =>
    obtain ⟨pending, waiting⟩ := state
    refine ih ?_
    cases part with
    | literal text =>
      intro hpending
      obtain ⟨keyword, hkeyword, hnil⟩ := Option.map_eq_some_iff.mp hpending
      have hwaiting : waiting = [] := h (by rw [hkeyword, (List.append_eq_nil_iff.mp hnil).1])
      simp [afterPart, hwaiting]
    | char c =>
      rw [afterPart]
      split
      · intro hpending
        simp at hpending
      · intro hpending
        cases hpending

/-- A character that ends no keyword changes nothing. -/
theorem keywordWaits_concat_char {c : UInt8} (htaken :
    takenKeywords (some []) (parts ++ [.char c]) = takenKeywords (some []) parts) :
    KeywordWaits (parts ++ [.char c]) ↔ KeywordWaits parts := by
  unfold KeywordWaits
  rw [laterLiteralsEmpty_concat, htaken]
  simp only [reduceCtorEq, false_imp_iff, implies_true, and_true]
  exact Iff.rfl

/-- A character that ends a keyword leaves it waiting. -/
theorem keywordWaits_of_ends {c : UInt8} {keyword : Bytes} (htaken :
    takenKeywords (some []) (parts ++ [.char c]) = takenKeywords (some []) parts ++ [keyword]) :
    KeywordWaits (parts ++ [.char c]) := by
  refine ⟨keyword, by simp [htaken], fun _ => laterLiteralsEmpty_concat.mpr
    ⟨fun before text after heq hbefore => ?_, fun _ heq => by cases heq⟩⟩
  have hmore := takenKeywords_append before (.literal text :: after) (some [], [])
  rw [← heq] at hmore
  have hlength := congrArg List.length (hbefore.trans htaken)
  rw [hmore] at hlength
  simp only [List.length_append, List.length_singleton] at hlength
  omega

/-- The keyword that waits is the last one considered. -/
theorem keywordWaits_iff (parts : List ScriptPart) :
    ((parts.foldl afterPart (some [], [])).2 ≠ [] ↔ KeywordWaits parts) ∧
      ((parts.foldl afterPart (some [], [])).2 ≠ [] →
        (takenKeywords (some []) parts).getLast? =
          some (parts.foldl afterPart (some [], [])).2) := by
  induction parts using List.reverseRecOn with
  | nil =>
    refine ⟨iff_of_false (fun h => h rfl) ?_, fun h => absurd rfl h⟩
    rintro ⟨keyword, hlast, _⟩
    cases hlast
  | append_singleton parts part ih =>
    have hnil : (parts.foldl afterPart (some [], [])).1 = some [] →
        (parts.foldl afterPart (some [], [])).2 = [] := foldl_afterPart_nil fun _ => rfl
    have htaken := takenKeywords_append parts [part] (some [], [])
    rw [List.foldl_concat]
    generalize parts.foldl afterPart (some [], []) = state at *
    obtain ⟨pending, waiting⟩ := state
    obtain ⟨hwaits, hlast⟩ := ih
    cases part with
    | literal text =>
      have hliteral : LaterLiteralsEmpty (parts ++ [.literal text]) ↔
          LaterLiteralsEmpty parts ∧ text.length ≤ 2 := by
        rw [laterLiteralsEmpty_concat, takenKeywords_concat_literal]
        simp only [ScriptPart.literal.injEq, forall_eq']
        exact Iff.rfl
      rw [KeywordWaits, hliteral, takenKeywords_concat_literal, afterPart]
      by_cases hused : jsKeywordSuffixMatch waiting = true ∧ 2 < text.length
      · rw [if_pos hused]
        refine ⟨iff_of_false (fun h => h rfl) ?_, fun h => absurd rfl h⟩
        rintro ⟨keyword, hkeyword, hempty⟩
        have hwaiting : waiting ≠ [] := by
          rintro rfl
          exact absurd hused.1 (by decide)
        rw [hlast hwaiting] at hkeyword
        cases hkeyword
        exact absurd (hempty hused.1).2 (Nat.not_le_of_lt hused.2)
      · rw [if_neg hused]
        refine ⟨⟨fun hwaiting => ⟨waiting, hlast hwaiting, fun hurl => ⟨?_, ?_⟩⟩, ?_⟩, hlast⟩
        · obtain ⟨keyword, hkeyword, hempty⟩ := hwaits.mp hwaiting
          rw [hlast hwaiting] at hkeyword
          cases hkeyword
          exact hempty hurl
        · exact Nat.le_of_not_lt fun hlong => hused ⟨hurl, hlong⟩
        · rintro ⟨keyword, hkeyword, hempty⟩
          exact hwaits.mpr ⟨keyword, hkeyword, fun hurl => (hempty hurl).1⟩
    | char c =>
      rw [takenKeywords] at htaken
      rw [afterPart]
      by_cases hkeyword : isKeywordChar c = true
      · rw [if_pos hkeyword, takenKeywords, List.append_nil] at htaken
        rw [if_pos hkeyword, keywordWaits_concat_char htaken, htaken]
        exact ⟨hwaits, hlast⟩
      rw [if_neg hkeyword, takenKeywords, List.append_nil] at htaken
      rw [if_neg hkeyword]
      cases pending with
      | none =>
        have hsame := htaken.trans (List.append_nil _)
        rw [keywordWaits_concat_char hsame, hsame]
        exact ⟨hwaits, hlast⟩
      | some keyword =>
        by_cases hempty : keyword = []
        · subst hempty
          have hsame := htaken.trans (List.append_nil _)
          rw [keywordWaits_concat_char hsame, hsame]
          have hwaiting : waiting = [] := hnil rfl
          subst hwaiting
          exact ⟨hwaits, hlast⟩
        · have hends : takenKeywords (some []) (parts ++ [.char c]) =
              takenKeywords (some []) parts ++ [keyword] := htaken.trans (by simp [hempty])
          refine ⟨iff_of_true hempty (keywordWaits_of_ends hends), fun _ => ?_⟩
          rw [hends]
          exact List.getLast?_concat

theorem endsInQuote_iff (content : Bytes) :
    EndsInQuote content ↔ EndsWaiting (some [], []) (scriptParts none content) := by
  refine exists_congr fun parts => exists_congr fun quote => and_congr_right fun _ => ?_
  exact (keywordWaits_iff parts).1.symm

theorem not_endsWaiting_nil : ¬ EndsWaiting state [] := by
  rintro ⟨front, quote, heq, _⟩
  exact List.append_ne_nil_of_right_ne_nil front (List.cons_ne_nil _ _) heq.symm

theorem endsWaiting_cons {part : ScriptPart} (hne : parts ≠ []) :
    EndsWaiting state (part :: parts) ↔ EndsWaiting (afterPart state part) parts := by
  constructor
  · rintro ⟨front, quote, heq, hwaiting⟩
    cases front with
    | nil => exact absurd (List.cons.inj heq).2 hne
    | cons first front =>
      obtain ⟨rfl, hparts⟩ := List.cons.inj heq
      exact ⟨front, quote, hparts, hwaiting⟩
  · rintro ⟨front, quote, rfl, hwaiting⟩
    exact ⟨part :: front, quote, rfl, hwaiting⟩

theorem endsWaiting_singleton {part : ScriptPart} :
    EndsWaiting state [part] ↔ (∃ quote, part = .literal [quote]) ∧ state.2 ≠ [] := by
  constructor
  · rintro ⟨front, quote, heq, hwaiting⟩
    cases front with
    | nil => exact ⟨⟨quote, (List.cons.inj heq).1⟩, hwaiting⟩
    | cons first front =>
      exact absurd (List.cons.inj heq).2.symm
        (List.append_ne_nil_of_right_ne_nil front (List.cons_ne_nil _ _))
  · rintro ⟨⟨quote, rfl⟩, hwaiting⟩
    exact ⟨[], quote, rfl, hwaiting⟩

end

end util

end plusfish

import Mathlib.Data.List.Induction
import Mathlib.Data.List.Nodup
import Mathlib.Tactic.Common

/-! Visitors to which events are shown one after the other, and which work on one state. -/

namespace visitors

variable {σ τ ε : Type}

/-- One event is shown to all the visitors, in their order. -/
def showAll (visitors : List (ε → τ → τ)) (event : ε) (state : τ) : τ :=
  visitors.foldl (fun state visitor => visitor event state) state

def visit (visitors : List (ε → τ → τ)) (events : List ε) (state : τ) : τ :=
  events.foldl (fun state event => showAll visitors event state) state

/-- The visitors of a list, each of which notes what it is shown, under its position. -/
def noting (visitors : List (ε → τ → τ)) : List (ε → τ × List (Nat × ε) → τ × List (Nat × ε)) :=
  visitors.mapIdx fun i visitor event noted =>
    (visitor event noted.1, noted.2 ++ [(i, event)])

/-- What the notes say that a visitor was shown. -/
def shownTo (i : Nat) (notes : List (Nat × ε)) : List ε :=
  (notes.filter (·.1 = i)).map (·.2)

variable {visitors : List (ε → τ → τ)}

@[simp] theorem visit_nil (state : τ) : visit visitors ([] : List ε) state = state := rfl

theorem visit_cons (event : ε) (events : List ε) (state : τ) :
    visit visitors (event :: events) state = visit visitors events (showAll visitors event state) :=
  rfl

theorem visit_append (events events' : List ε) (state : τ) :
    visit visitors (events ++ events') state =
      visit visitors events' (visit visitors events state) :=
  List.foldl_append

/-- A part of the state that one of the visitors keeps for itself is what this visitor makes of
    it alone, whatever the others are. -/
theorem visit_isolated {get : τ → σ} {own : ε → σ → σ} {visitor : ε → τ → τ}
    {before after : List (ε → τ → τ)} (hown : ∀ event state, get (visitor event state) =
      own event (get state))
    (hothers : ∀ other ∈ before ++ after, ∀ event state, get (other event state) = get state)
    (events : List ε) (state : τ) :
    get (visit (before ++ visitor :: after) events state) = visit [own] events (get state) := by
  have hkeep (others : List (ε → τ → τ)) (event : ε) (state : τ)
      (hothers : ∀ other ∈ others, ∀ event state, get (other event state) = get state) :
      get (showAll others event state) = get state := by
    induction others generalizing state with
    | nil => rfl
    | cons other others ih =>
      have hrest := ih (other event state) fun other hmem =>
        hothers other (List.mem_cons_of_mem _ hmem)
      exact hrest.trans (hothers other List.mem_cons_self event state)
  induction events generalizing state with
  | nil => rfl
  | cons event events ih =>
    rw [visit_cons, visit_cons, ih]
    congr 1
    have hafter := hkeep after event (visitor event (showAll before event state)) fun other hmem =>
      hothers other (List.mem_append_right _ hmem)
    have hbefore := hkeep before event state fun other hmem =>
      hothers other (List.mem_append_left _ hmem)
    calc get (showAll (before ++ visitor :: after) event state)
        = get (showAll after event (visitor event (showAll before event state))) := by
          rw [showAll, List.foldl_append]
          rfl
      _ = own event (get state) := by rw [hafter, hown, hbefore]

/-- Noting does not change what the visitors do, and notes each event once for each of them. -/
theorem visit_noting (events : List ε) (state : τ) (notes : List (Nat × ε)) :
    visit (noting visitors) events (state, notes) =
      (visit visitors events state, notes ++ events.flatMap fun event =>
        (List.range visitors.length).map (·, event)) := by
  -- The visitors are taken from the last one, whose position is the number of those before it.
  have hshow (visitors : List (ε → τ → τ)) (event : ε) (state : τ) (notes : List (Nat × ε)) :
      showAll (noting visitors) event (state, notes) =
        (showAll visitors event state,
          notes ++ (List.range visitors.length).map (·, event)) := by
    induction visitors using List.reverseRecOn with
    | nil => simp [showAll, noting]
    | append_singleton visitors visitor ih =>
      have hnoting : noting (visitors ++ [visitor]) = noting visitors ++
          [fun event noted => (visitor event noted.1, noted.2 ++ [(visitors.length, event)])] := by
        simp [noting]
      have hfirst (both : List (ε → τ × List (Nat × ε) → τ × List (Nat × ε))) (last) :
          showAll (both ++ [last]) event (state, notes) =
            last event (showAll both event (state, notes)) := by
        simp [showAll]
      rw [hnoting, hfirst, ih, List.length_append, List.length_singleton, List.range_succ,
        List.map_append, ← List.append_assoc]
      simp [showAll]
  induction events generalizing state notes with
  | nil => simp
  | cons event events ih =>
    rw [visit_cons, hshow, ih, List.flatMap_cons, List.append_assoc]
    rfl

/-- Each visitor is shown each event once, in order. -/
theorem shownTo_visit_noting {i : Nat} (hi : i < visitors.length) (events : List ε) (state : τ) :
    shownTo i (visit (noting visitors) events (state, [])).2 = events := by
  rw [visit_noting, List.nil_append]
  have hone (event : ε) :
      shownTo i ((List.range visitors.length).map (·, event)) = [event] := by
    have hposition : (List.range visitors.length).filter (· = i) = [i] := by
      rw [List.filter_eq, List.count_eq_one_of_mem List.nodup_range (List.mem_range.mpr hi),
        List.replicate_one]
    simp [shownTo, List.filter_map, Function.comp_def, hposition]
  induction events with
  | nil => rfl
  | cons event events ih =>
    have happend (notes notes' : List (Nat × ε)) :
        shownTo i (notes ++ notes') = shownTo i notes ++ shownTo i notes' := by
      simp [shownTo]
    rw [List.flatMap_cons, happend, hone, ih, List.singleton_append]

end visitors

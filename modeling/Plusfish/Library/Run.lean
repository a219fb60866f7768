import Mathlib.Tactic.Common

namespace transition

/-- A step function of a system: from a state and an input to the next state, or
    nothing where the input is not possible in that state. -/
abbrev Step (σ ι : Type) := σ → ι → Option σ

section
variable {σ ι : Type} (step : Step σ ι)

def run : σ → List ι → Option σ
  | state, [] => some state
  | state, input :: inputs => (step state input).bind fun next => run next inputs

/-- Every step of the run is taken from a state and on an input that satisfy `ok`. -/
def Along (ok : σ → ι → Prop) : σ → List ι → Prop
  | _, [] => True
  | state, input :: inputs =>
    ok state input ∧ ∀ next, step state input = some next → Along ok next inputs

/-- The states that some list of inputs leads to. -/
def Reachable (start state : σ) : Prop := ∃ inputs, run step start inputs = some state

end

section
variable {σ ι : Type} {step : Step σ ι}

@[simp] theorem run_nil (state : σ) : run step state [] = some state := rfl

theorem run_cons_eq_some {state last : σ} {input : ι} {inputs : List ι} :
    run step state (input :: inputs) = some last ↔
      ∃ next, step state input = some next ∧ run step next inputs = some last := by
  simp [run, Option.bind_eq_some_iff]

theorem run_append_eq_some {state last : σ} {inputs inputs' : List ι} :
    run step state (inputs ++ inputs') = some last ↔
      ∃ middle, run step state inputs = some middle ∧ run step middle inputs' = some last := by
  induction inputs generalizing state with
  | nil => simp
  | cons input inputs ih =>
    simp only [List.cons_append, run_cons_eq_some, ih]
    constructor
    · rintro ⟨next, hstep, middle, hrun, hrest⟩
      exact ⟨middle, ⟨next, hstep, hrun⟩, hrest⟩
    · rintro ⟨middle, ⟨next, hstep, hrun⟩, hrest⟩
      exact ⟨next, hstep, middle, hrun, hrest⟩

/-- What every step taken under `ok` preserves holds after a run all of whose
    steps are taken under `ok`. -/
theorem run_preserves_along {ok : σ → ι → Prop} {P : σ → Prop}
    (hstep : ∀ state input next, P state → ok state input → step state input = some next → P next)
    {start last : σ} {inputs : List ι} (hstart : P start) (halong : Along step ok start inputs)
    (hrun : run step start inputs = some last) : P last := by
  induction inputs generalizing start with
  | nil =>
    cases hrun
    exact hstart
  | cons input inputs ih =>
    obtain ⟨next, hnext, hrest⟩ := run_cons_eq_some.mp hrun
    exact ih (hstep start input next hstart halong.1 hnext) (halong.2 next hnext) hrest

/-- What every step preserves holds after every run. -/
theorem run_preserves {P : σ → Prop}
    (hstep : ∀ state input next, P state → step state input = some next → P next)
    {start last : σ} {inputs : List ι} (hstart : P start)
    (hrun : run step start inputs = some last) : P last := by
  induction inputs generalizing start with
  | nil =>
    cases hrun
    exact hstart
  | cons input inputs ih =>
    obtain ⟨next, hnext, hrest⟩ := run_cons_eq_some.mp hrun
    exact ih (hstep start input next hstart hnext) hrest

/-- Two conditions on steps that agree wherever an invariant holds, and under which the
    invariant is kept, hold along the same runs. -/
theorem along_congr {ok ok' : σ → ι → Prop} {I : σ → Prop}
    (hiff : ∀ state input, I state → (ok state input ↔ ok' state input))
    (hkeeps : ∀ state input next, I state → ok state input → step state input = some next → I next)
    {start : σ} (hstart : I start) (inputs : List ι) :
    Along step ok start inputs ↔ Along step ok' start inputs := by
  induction inputs generalizing start with
  | nil => exact Iff.rfl
  | cons input inputs ih =>
    rw [Along, Along, hiff start input hstart]
    refine and_congr_right fun hok => forall_congr' fun next => imp_congr_right fun hnext => ?_
    exact ih (hkeeps start input next hstart ((hiff start input hstart).mpr hok) hnext)

/-- Where a step is right and keeps `P` exactly if it is taken under `ok`, a run has `P` in all of
    its states and only right steps exactly if it is taken under `ok`. The steps may rely on an
    invariant. -/
theorem forall_split_iff_along {ok right : σ → ι → Prop} {I P : σ → Prop}
    (hkeeps : ∀ state input next, I state → P state → step state input = some next → I next)
    (hstep : ∀ state input next, I state → P state → step state input = some next →
      (right state input ∧ P next ↔ ok state input))
    (hstuck : ∀ state input, I state → P state → step state input = none →
      (right state input ↔ ok state input))
    {start : σ} (hinvariant : I start) (hstart : P start) (inputs : List ι) :
    (∀ before after state, inputs = before ++ after → run step start before = some state →
      P state ∧ ∀ input ∈ after.head?, right state input) ↔ Along step ok start inputs := by
  induction inputs generalizing start with
  | nil =>
    refine iff_of_true (fun before after state heq hrun => ?_) trivial
    obtain ⟨rfl, rfl⟩ := List.append_eq_nil_iff.mp heq.symm
    cases hrun
    exact ⟨hstart, fun _ h => by cases h⟩
  | cons input inputs ih =>
    constructor
    · intro hall
      have hright : right start input := (hall [] (input :: inputs) start rfl rfl).2 input rfl
      have hnext (next : σ) (h : step start input = some next) : P next :=
        (hall [input] inputs next rfl (by simp [run, h])).1
      refine ⟨?_, fun next h => (ih (hkeeps start input next hinvariant hstart h)
        (hnext next h)).mp fun before after state heq hrun => ?_⟩
      · cases h : step start input with
        | none => exact (hstuck start input hinvariant hstart h).mp hright
        | some next =>
          exact (hstep start input next hinvariant hstart h).mp ⟨hright, hnext next h⟩
      · exact hall (input :: before) after state (by rw [heq, List.cons_append])
          (run_cons_eq_some.mpr ⟨next, h, hrun⟩)
    · rintro ⟨hok, hrest⟩ before after state heq hrun
      cases before with
      | nil =>
        cases hrun
        obtain rfl : input :: inputs = after := heq
        refine ⟨hstart, fun first hfirst => ?_⟩
        obtain rfl : input = first := Option.some.inj hfirst
        cases h : step start input with
        | none => exact (hstuck start input hinvariant hstart h).mpr hok
        | some next => exact ((hstep start input next hinvariant hstart h).mpr hok).1
      | cons first before =>
        obtain ⟨rfl, rfl⟩ := List.cons.inj heq
        obtain ⟨next, h, hrun⟩ := run_cons_eq_some.mp hrun
        have hnext := ((hstep start input next hinvariant hstart h).mpr hok).2
        exact (ih (hkeeps start input next hinvariant hstart h) hnext).mpr (hrest next h) before
          after state rfl hrun

/-- Where a step keeps `P` exactly if it is taken under `ok`, a run has `P` in all of its
    states exactly if it is taken under `ok`. The steps may rely on an invariant. -/
theorem forall_prefix_iff_along {ok : σ → ι → Prop} {I P : σ → Prop}
    (hkeeps : ∀ state input next, I state → step state input = some next → I next)
    (hstep : ∀ state input next, I state → P state → step state input = some next →
      (P next ↔ ok state input))
    (hstuck : ∀ state input, step state input = none → ok state input)
    {start : σ} (hinvariant : I start) (hstart : P start) (inputs : List ι) :
    (∀ before after state, inputs = before ++ after → run step start before = some state →
      P state) ↔ Along step ok start inputs := by
  have hsplit := forall_split_iff_along
    (fun state input next h _ => hkeeps state input next h)
    (fun state input next h hP hnext => by
      rw [true_and]
      exact hstep state input next h hP hnext)
    (fun state input _ _ h => iff_of_true trivial (hstuck state input h)) hinvariant hstart inputs
  simpa using hsplit

/-- Where a step has `P` after it exactly if it has `P` before it and is taken under `ok`, a
    run ends with `P` exactly if it starts with `P` and is taken under `ok`. The steps may
    rely on an invariant. -/
theorem run_iff_along {ok : σ → ι → Prop} {I P : σ → Prop}
    (hstep : ∀ state input next, I state → step state input = some next →
      I next ∧ (P next ↔ P state ∧ ok state input))
    {start last : σ} {inputs : List ι} (hstart : I start)
    (hrun : run step start inputs = some last) : P last ↔ P start ∧ Along step ok start inputs := by
  induction inputs generalizing start with
  | nil =>
    cases hrun
    exact (and_iff_left trivial).symm
  | cons input inputs ih =>
    obtain ⟨next, hnext, hrest⟩ := run_cons_eq_some.mp hrun
    obtain ⟨hI, hiff⟩ := hstep start input next hstart hnext
    have halong : (∀ next, step start input = some next → Along step ok next inputs) ↔
        Along step ok next inputs := by simp [hnext]
    rw [ih hI hrest, hiff, Along, halong, and_assoc]

instance decidableAlong {ok : σ → ι → Prop} [∀ state input, Decidable (ok state input)] :
    (state : σ) → (inputs : List ι) → Decidable (Along step ok state inputs)
  | _, [] => .isTrue trivial
  | state, input :: inputs =>
    match h : step state input with
    | none => decidable_of_iff (ok state input) (by simp [Along, h])
    | some next =>
      have : Decidable (Along step ok next inputs) := decidableAlong next inputs
      decidable_of_iff (ok state input ∧ Along step ok next inputs) (by simp [Along, h])

theorem Reachable.invariant {P : σ → Prop} {start state : σ} (hreach : Reachable step start state)
    (hstart : P start)
    (hstep : ∀ state input next, P state → step state input = some next → P next) : P state := by
  obtain ⟨inputs, hrun⟩ := hreach
  exact run_preserves hstep hstart hrun

theorem Reachable.refl (state : σ) : Reachable step state state := ⟨[], rfl⟩

theorem Reachable.tail {start state next : σ} (hreach : Reachable step start state) {input : ι}
    (hstep : step state input = some next) : Reachable step start next := by
  obtain ⟨inputs, hrun⟩ := hreach
  exact ⟨inputs ++ [input], run_append_eq_some.mpr ⟨state, hrun, by simp [run, hstep]⟩⟩

end

end transition

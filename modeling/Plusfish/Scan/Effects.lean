import Plusfish.Crawler.Effects

open memory Relation

namespace plusfish

namespace Scan

section
variable (env : ScanEnv)

/-- What a component does to requests and the datastore alone. -/
def SameAudits (scan scan' : Scan) : Prop :=
  ∃ mem store, scan' = { scan with mem, store } ∧
    StoreEffects env.store (scan.mem, scan.store) (mem, store)

theorem SameAudits.refl (scan : Scan) : SameAudits env scan scan :=
  ⟨scan.mem, scan.store, rfl, .refl⟩

theorem SameAudits.trans {a b c : Scan} (hab : SameAudits env a b) (hbc : SameAudits env b c) :
    SameAudits env a c := by
  obtain ⟨mem, store, rfl, heffects⟩ := hab
  obtain ⟨mem', store', rfl, heffects'⟩ := hbc
  exact ⟨mem', store', rfl, heffects.trans heffects'⟩

section
variable {env} {scan scan' : Scan} (h : SameAudits env scan scan')
include h

theorem SameAudits.runnerMem : scan'.runnerMem = scan.runnerMem := by
  obtain ⟨_, _, rfl, _⟩ := h
  rfl

theorem SameAudits.runnerAt (p : Nat) : scan'.runnerAt p = scan.runnerAt p := by
  rw [Scan.runnerAt, h.runnerMem, ← Scan.runnerAt]

theorem SameAudits.selectiveAuditor : scan'.selectiveAuditor = scan.selectiveAuditor := by
  obtain ⟨_, _, rfl, _⟩ := h
  rfl

theorem SameAudits.outstanding : scan'.outstanding = scan.outstanding := by
  obtain ⟨_, _, rfl, _⟩ := h
  rfl

theorem SameAudits.frame : Heap.Frame Request.SameTarget scan.mem scan'.mem := by
  obtain ⟨_, _, rfl, heffects⟩ := h
  exact heffects.frame

end

/-- One thing that the callers of `Schedule` that satisfy `caller` do to get requests to the
    HTTP client: they make requests, hand them over and change what they keep themselves. -/
inductive Scheduling (caller : ScheduleCaller → Prop) : Scan → Scan → Prop
  | alloc (scan : Scan) (requests : List Request) :
      Scheduling caller scan { scan with mem := (scan.mem.allocAll requests).2 }
  | schedule (scan : Scan) (c : ScheduleCaller) (hc : caller c) (req : Nat)
      (handler : RequestHandler) : Scheduling caller scan (scan.scheduleWith env c req handler).2
  | auditor (scan : Scan) (hc : ∀ p serial, caller (.securityCheckRunner p serial))
      (runnerMem : Heap SecurityCheckRunner) (selectiveAuditor : SelectiveAuditor) :
      Scheduling caller scan { scan with runnerMem, selectiveAuditor }
  | detector (scan : Scan) (hc : caller .notFoundDetector) (notFoundDetector : NotFoundDetector) :
      Scheduling caller scan { scan with notFoundDetector }
  | finder (scan : Scan) (hc : caller .hiddenObjectsFinder) (objectsFinder : HiddenObjectsFinder) :
      Scheduling caller scan { scan with objectsFinder }

abbrev Schedulings (caller : ScheduleCaller → Prop) := ReflTransGen (Scheduling env caller)

/-- One thing that is done to a scan on behalf of these callers of `Schedule`. -/
inductive Effect (caller : ScheduleCaller → Prop) : Scan → Scan → Prop
  | same {scan scan' : Scan} (h : SameAudits env scan scan') : Effect caller scan scan'
  | scheduling {scan scan' : Scan} (h : Scheduling env caller scan scan') :
      Effect caller scan scan'

abbrev Effects (caller : ScheduleCaller → Prop) := ReflTransGen (Effect env caller)

end

variable {env : ScanEnv} {caller : ScheduleCaller → Prop} {scan scan' : Scan}

theorem Schedulings.effects (h : Schedulings env caller scan scan') :
    Effects env caller scan scan' :=
  h.lift id fun _ _ => Effect.scheduling

theorem Schedulings.store (h : Schedulings env caller scan scan') : scan'.store = scan.store := by
  induction h with
  | refl => rfl
  | tail _ hstep ih =>
    rw [← ih]
    cases hstep <;> rfl

/-- Only the finder changes what the finder keeps. -/
theorem Schedulings.objectsFinder (h : Schedulings env caller scan scan')
    (hnot : ¬ caller .hiddenObjectsFinder) : scan'.objectsFinder = scan.objectsFinder := by
  induction h with
  | refl => rfl
  | tail _ hstep ih =>
    rw [← ih]
    cases hstep with
    | finder hc => exact absurd hc hnot
    | _ => rfl

/-- Only the runners change what the auditor keeps. -/
theorem Schedulings.selectiveAuditor (h : Schedulings env caller scan scan')
    (hnot : ¬ ∀ p serial, caller (.securityCheckRunner p serial)) :
    scan'.selectiveAuditor = scan.selectiveAuditor := by
  induction h with
  | refl => rfl
  | tail _ hstep ih =>
    rw [← ih]
    cases hstep with
    | auditor hc => exact absurd hc hnot
    | _ => rfl

/-- Some code has made these calls of `Schedule`, and the HTTP client holds the requests
    that it has accepted. -/
structure Hands (env : ScanEnv) (made : List ScheduleCall) (scan scan' : Scan) : Prop where
  calls : scan'.calls = scan.calls ++ made
  outstanding : scan'.outstanding = scan.outstanding ++ (made.filter (·.accepted)).map (·.req)
  answers : ∀ i call, made[i]? = some call →
    call.accepted = env.accepts (scan.calls.length + i)

theorem Hands.of_eq (env : ScanEnv) (hcalls : scan'.calls = scan.calls)
    (houtstanding : scan'.outstanding = scan.outstanding) : Hands env [] scan scan' where
  calls := by rw [hcalls, List.append_nil]
  outstanding := by rw [houtstanding, List.filter_nil, List.map_nil, List.append_nil]
  answers _ _ h := by cases h

theorem Hands.trans {first second : List ScheduleCall} {a b c : Scan} (hab : Hands env first a b)
    (hbc : Hands env second b c) : Hands env (first ++ second) a c where
  calls := by rw [hbc.calls, hab.calls, List.append_assoc]
  outstanding := by
    rw [hbc.outstanding, hab.outstanding, List.filter_append, List.map_append, List.append_assoc]
  answers i call h := by
    rcases Nat.lt_or_ge i first.length with hi | hi
    · rw [List.getElem?_append_left hi] at h
      exact hab.answers i call h
    · rw [List.getElem?_append_right hi] at h
      rw [hbc.answers _ call h, hab.calls, List.length_append, Nat.add_assoc,
        Nat.add_sub_cancel' hi]

theorem scheduleWith_hands (env : ScanEnv) (scan : Scan) (c : ScheduleCaller) (req : Nat)
    (handler : RequestHandler) : ∃ url, Hands env
      [{ caller := c, req, url, accepted := env.accepts scan.calls.length }] scan
      (scan.scheduleWith env c req handler).2 := by
  refine ⟨_, rfl, ?_, fun i call h => ?_⟩
  · simp only [scheduleWith, schedule]
    cases haccepted : env.accepts scan.calls.length <;> simp [setRequestHandler, haccepted]
  · obtain ⟨rfl, rfl⟩ : i = 0 ∧ _ = call := by simpa [List.getElem?_singleton] using h
    rfl

theorem Effect.hands (h : Effect env caller scan scan') :
    ∃ calls, Hands env calls scan scan' ∧ ∀ call ∈ calls, caller call.caller := by
  cases h with
  | same hsame =>
    obtain ⟨mem, store, rfl, _⟩ := hsame
    exact ⟨[], .of_eq env rfl rfl, fun _ h => by cases h⟩
  | scheduling h =>
    cases h with
    | schedule c hc req handler =>
      obtain ⟨url, hhands⟩ := scheduleWith_hands env scan c req handler
      refine ⟨_, hhands, fun call hcall => ?_⟩
      rw [List.mem_singleton.mp hcall]
      exact hc
    | _ => exact ⟨[], .of_eq env rfl rfl, fun _ h => by cases h⟩

/-- The history is continued with calls of these callers. -/
theorem Effects.hands (h : Effects env caller scan scan') :
    ∃ calls, Hands env calls scan scan' ∧ ∀ call ∈ calls, caller call.caller := by
  induction h with
  | refl => exact ⟨[], .of_eq env rfl rfl, fun _ h => by cases h⟩
  | tail _ hstep ih =>
    obtain ⟨calls, hhands, hcaller⟩ := ih
    obtain ⟨more, hmore, hcaller'⟩ := hstep.hands
    refine ⟨calls ++ more, hhands.trans hmore, fun call hcall => ?_⟩
    rcases List.mem_append.mp hcall with hcall | hcall
    · exact hcaller call hcall
    · exact hcaller' call hcall

/-- Effects on behalf of some callers are effects on behalf of more callers. -/
theorem Effects.mono {caller' : ScheduleCaller → Prop} (h : Effects env caller scan scan')
    (himp : ∀ c, caller c → caller' c) : Effects env caller' scan scan' := by
  refine h.lift id fun _ _ hstep => ?_
  cases hstep with
  | same hsame => exact .same hsame
  | scheduling h =>
    apply Effect.scheduling
    cases h with
    | alloc requests => exact .alloc _ requests
    | schedule c hc req handler => exact .schedule _ c (himp c hc) req handler
    | auditor hc => exact .auditor _ (fun p serial => himp _ (hc p serial)) _ _
    | detector hc => exact .detector _ (himp _ hc) _
    | finder hc => exact .finder _ (himp _ hc) _

end Scan

end plusfish

import Plusfish.Audit.Evidence

open memory transition

namespace plusfish

/-- `Run` was called. -/
def AuditEvent.isRan : AuditEvent → Bool
  | .ran .. => true
  | _ => false

namespace Scan

/-- What scheduling adds: new requests, some of them outstanding. None of them is outstanding
    where a check evaluated in serial made them for a request that tests positive by itself. -/
structure Extends (scan : Scan) (events : List AuditEvent) (after : Scan) : Prop where
  next : scan.mem.next ≤ after.mem.next
  outstanding : ∀ req ∈ after.outstanding,
    req ∈ scan.outstanding ∨ scan.mem.next ≤ req ∧ req < after.mem.next
  ran : ∀ p check positive requests scheduled,
    .ran p check positive requests scheduled ∈ events →
      ∀ req ∈ requests, scan.mem.next ≤ req ∧ req < after.mem.next
  suppressed : ∀ p check requests scheduled,
    .ran p check true requests scheduled ∈ events → check.canEvaluateInSerial = true →
      ∀ req ∈ requests, req ∉ after.outstanding

/-- No request is outstanding that does not exist. -/
def Allocated (scan : Scan) : Prop := ∀ req ∈ scan.outstanding, req < scan.mem.next

section
variable {env : ScanEnv}

theorem Extends.allocated {scan after : Scan} {events : List AuditEvent}
    (h : Extends scan events after) (hallocated : scan.Allocated) : after.Allocated := by
  intro req hmem
  rcases h.outstanding req hmem with hmem | hnew
  · exact Nat.lt_of_lt_of_le (hallocated req hmem) h.next
  · exact hnew.2

theorem Extends.trans {a b c : Scan} {first second : List AuditEvent}
    (hab : Extends a first b) (hbc : Extends b second c) : Extends a (first ++ second) c where
  next := Nat.le_trans hab.next hbc.next
  outstanding req hmem := by
    rcases hbc.outstanding req hmem with hmem | hnew
    · rcases hab.outstanding req hmem with hmem | hnew
      · exact Or.inl hmem
      · exact Or.inr ⟨hnew.1, Nat.lt_of_lt_of_le hnew.2 hbc.next⟩
    · exact Or.inr ⟨Nat.le_trans hab.next hnew.1, hnew.2⟩
  ran p check positive requests scheduled hmem req hreq := by
    rcases List.mem_append.mp hmem with hmem | hmem
    · obtain ⟨hle, hlt⟩ := hab.ran _ _ _ _ _ hmem req hreq
      exact ⟨hle, Nat.lt_of_lt_of_le hlt hbc.next⟩
    · obtain ⟨hle, hlt⟩ := hbc.ran _ _ _ _ _ hmem req hreq
      exact ⟨Nat.le_trans hab.next hle, hlt⟩
  suppressed p check requests scheduled hmem hserial req hreq hout := by
    rcases List.mem_append.mp hmem with hmem | hmem
    · rcases hbc.outstanding req hout with hout | hnew
      · exact hab.suppressed _ _ _ _ hmem hserial req hreq hout
      · exact absurd (hab.ran _ _ _ _ _ hmem req hreq).2 (Nat.not_lt.mpr hnew.1)
    · exact hbc.suppressed _ _ _ _ hmem hserial req hreq hout

/-- What makes no requests and hands none over adds nothing. -/
theorem Extends.of_subset {scan after : Scan} {events : List AuditEvent}
    (hnext : scan.mem.next ≤ after.mem.next) (hout : after.outstanding ⊆ scan.outstanding)
    (hevents : ∀ event ∈ events, event.isRan = false) : Extends scan events after where
  next := hnext
  outstanding _ hmem := Or.inl (hout hmem)
  ran _ _ _ _ _ hmem := Bool.noConfusion (hevents _ hmem)
  suppressed _ _ _ _ hmem := Bool.noConfusion (hevents _ hmem)

/-- The same where nothing happens. -/
theorem Extends.of_same {scan after : Scan} (hnext : scan.mem.next ≤ after.mem.next)
    (hout : after.outstanding = scan.outstanding) : Extends scan [] after :=
  .of_subset hnext (hout ▸ List.Subset.refl _) fun _ hmem => by cases hmem

theorem RunOutcome.extends {p : Nat} {scan after : Scan} {done : Bool}
    (h : RunOutcome env p scan done after) (hallocated : scan.Allocated) :
    Extends scan [scan.runEvent env p] after where
  next := h.runs.next
  outstanding req hmem := by
    rcases h.outstanding req hmem with hmem | hnew
    · exact Or.inl hmem
    · rw [h.next]
      exact Or.inr ((mem_newAddresses env).mp hnew)
  ran q check positive requests scheduled hmem req hreq := by
    rw [List.mem_singleton, h.event] at hmem
    cases hmem
    rw [h.next]
    exact (mem_newAddresses env).mp hreq
  suppressed q check requests scheduled hmem hserial req hreq hout := by
    rw [List.mem_singleton, h.event] at hmem
    simp only [AuditEvent.ran.injEq] at hmem
    obtain ⟨rfl, rfl, hpositive, rfl, rfl⟩ := hmem
    rw [h.suppressed hserial hpositive.symm] at hout
    exact absurd (hallocated req hout) (Nat.not_lt.mpr ((mem_newAddresses env).mp hreq).1)

theorem Scheduled.extends {p : Nat} {nextChecks : List SecurityCheck} {scan last : Scan}
    {events : List AuditEvent} {done : Bool}
    (h : Scheduled env p nextChecks scan events done last) (hallocated : scan.Allocated) :
    Extends scan events last := by
  induction h with
  | ran hfresh hrun => exact (hfresh.run_outcome env hrun).extends hallocated
  | last hfresh hrun => exact (hfresh.run_outcome env hrun).extends hallocated
  | @skipped _ _ _ after _ runner _ _ hfresh hrun _ _ ih =>
    have hran := (hfresh.run_outcome env hrun).extends hallocated
    have hset : Extends after [] (after.setRunner p runner) := .of_same (Nat.le_refl _) rfl
    exact hran.trans (hset.trans (ih (hset.allocated (hran.allocated hallocated))))

theorem FirstOutcome.extends {scan after : Scan} {req : Nat} {events : List AuditEvent}
    (h : FirstOutcome env scan req events after) (hallocated : scan.Allocated) :
    Extends scan events after := by
  have hrunner (check : SecurityCheck) (checks : List SecurityCheck) :
      Extends scan [] (scan.allocRunner req check checks) := .of_same (Nat.le_refl _) rfl
  cases h with
  | noChecks => exact .of_same (Nat.le_refl _) rfl
  | nothing _ hscheduled =>
    exact (hrunner _ _).trans (hscheduled.extends hallocated)
  | @started check checks events after _ hscheduled =>
    have hstored : Extends after [.stored scan.runnerMem.next]
        (after.pushRunner scan.runnerMem.next) :=
      .of_subset (Nat.le_refl _) (List.Subset.refl _) (by simp [AuditEvent.isRan])
    exact (hrunner _ _).trans ((hscheduled.extends hallocated).trans hstored)

theorem eraseRunner_extends (scan : Scan) (p : Nat) :
    Extends scan (scan.eraseRunnerEvents p) (scan.eraseRunner p) := by
  refine .of_subset (Nat.le_refl _) (List.Subset.refl _) fun event hmem => ?_
  unfold eraseRunnerEvents at hmem
  split at hmem
  · rw [List.mem_singleton.mp hmem]
    rfl
  · cases hmem

theorem SameAudits.extends {scan after : Scan} (h : SameAudits env scan after) :
    Extends scan [] after := by
  exact .of_same h.frame.next_le h.outstanding

theorem DoneOutcome.extends {scan after : Scan} {p : Nat} {events : List AuditEvent}
    (h : DoneOutcome env scan p events after) (hallocated : scan.Allocated) :
    Extends scan events after := by
  have hscraped := (scrapeRequests_sameAudits env scan p).extends
  have hset (runner : SecurityCheckRunner) :
      Extends scan [] ((scan.scrapeRequests env p).setRunner p runner) :=
    hscraped.trans (.of_same (Nat.le_refl _) rfl)
  cases h with
  | waiting => exact .of_same (Nat.le_refl _) rfl
  | ended => exact hscraped.trans (eraseRunner_extends _ p)
  | goesOn _ _ hscheduled =>
    exact (hset _).trans (hscheduled.extends ((hset _).allocated hallocated))
  | exhausted _ _ hscheduled =>
    exact (hset _).trans ((hscheduled.extends ((hset _).allocated hallocated)).trans
      (eraseRunner_extends _ p))

theorem isRan_of_mem_evaluateCallbackEvents {scan : Scan} {p req : Nat} :
    ∀ event ∈ scan.evaluateCallbackEvents p req, event.isRan = false := by
  intro event hmem
  cases event with
  | ran => simp [evaluateCallbackEvents] at hmem
  | _ => rfl

/-- The callback and its evaluation add nothing. -/
theorem evaluateCallback_extends (env : ScanEnv) (scan : Scan) (p req : Nat)
    (transfer : Transfer) :
    Extends scan [] (((scan.receive req transfer).counted p).evaluateCallback env p req) := by
  have hreceived : Extends scan [] ((scan.receive req transfer).counted p) := by
    refine .of_subset ?_ List.erase_subset fun _ hmem => by cases hmem
    simp [counted, setRunner, receive]
  exact hreceived.trans (evaluateCallback_sameAudits env _ p req).extends

end

/-- At a callback, a check evaluated in serial finds that the request satisfies its rule. One
    evaluated in batch is finished, and it finds that one of its requests does, or that the
    server is slow. -/
def FindsPositive (scan : Scan) (p req : Nat) : Prop :=
  let runner := scan.runnerAt p
  match runner.securityCheck with
  | .generic check => ∃ matcher, check.matcher = some matcher ∧
    if check.securityTest.allowSerialEvaluation then
      matcher.matchSingle scan.store.getRequestMetadata (deref scan.mem req) = true
    else runner.finished = true ∧ ∃ q ∈ runner.requests,
      matcher.matchSingle scan.store.getRequestMetadata (deref scan.mem q) = true
  | .responseTime check => runner.finished = true ∧
    (ResponseTimeCheck.averageDurationUsec (runner.requests.map (deref scan.mem))).tdiv 1000 >
      check.maxAverageResponseTimeMs

theorem evaluation_iff_findsPositive {scan : Scan} {p req : Nat} :
    (scan.evaluation p req).1 = true ↔ scan.FindsPositive p req := by
  unfold FindsPositive
  dsimp only
  cases hcheck : (scan.runnerAt p).securityCheck with
  | generic check =>
    rw [evaluation_of_generic hcheck]
    dsimp only
    cases hmatcher : check.matcher with
    | none => simp [GenericSecurityCheck.evaluateSingle, GenericSecurityCheck.evaluate, hmatcher]
    | some matcher =>
      simp only [Option.some.injEq, exists_eq_left']
      split
      · rw [GenericSecurityCheck.evaluateSingle, hmatcher, Option.any_some]
      · rw [Bool.and_eq_true, evaluate_iff hmatcher]
  | responseTime check =>
    simp only [evaluation, hcheck, SecurityCheck.canEvaluateInSerial, SecurityCheck.evaluate,
      ResponseTimeCheck.evaluate]
    rw [if_neg Bool.false_ne_true]
    split
    · rename_i hfinished
      exact decide_eq_true_iff.trans (and_iff_right hfinished).symm
    · rename_i hfinished
      exact iff_of_false Bool.false_ne_true fun h => hfinished h.1

end Scan

namespace AuditHistory

open Scan (AuditOp plainEnv sqlCheck pageOf)

/-- The issue callback is invoked for no request of a check whose rule the tested request
    satisfies by itself. -/
def Suppressed (history : AuditHistory) : Prop :=
  ∀ p check requests scheduled, .ran p (.generic check) true requests scheduled ∈ history.events →
    ∀ p' check' req request getRequestMeta,
      .reported p' check' req request getRequestMeta ∈ history.events → req ∉ requests

/-- The request is one of a check evaluated in batch whose rule the tested request satisfies
    by itself. -/
def BatchOfPositive (history : AuditHistory) (req : Nat) : Prop :=
  ∃ p check requests scheduled, .ran p (.generic check) true requests scheduled ∈ history.events ∧
    check.securityTest.allowSerialEvaluation = false ∧ req ∈ requests

/-- At a callback of such a request, the check of a runner with an issue callback does not come to
    a positive finding. -/
def StaysNegative (history : AuditHistory) : AuditOp → Prop
  | .scheduleFirst _ => True
  | .requestCallback req transfer =>
    ∀ p, (deref history.scan.mem req).requestHandler = some (.securityCheckRunner p) →
      history.BatchOfPositive req →
        let counted := (history.scan.receive req transfer).counted p
        ¬ (counted.FindsPositive p req ∧ (counted.runnerAt p).issueCallback = true)

/-- What holds in a run: the requests that were reported, or that are outstanding, exist, and
    those that a check evaluated in serial made for a request that tests positive by itself are
    not outstanding. -/
structure Kept (history : AuditHistory) : Prop where
  reported : ∀ p check req request getRequestMeta,
    .reported p check req request getRequestMeta ∈ history.events → req < history.scan.mem.next
  allocated : history.scan.Allocated
  serial : ∀ p check requests scheduled, .ran p check true requests scheduled ∈ history.events →
    check.canEvaluateInSerial = true →
      ∀ req ∈ requests, req < history.scan.mem.next ∧ req ∉ history.scan.outstanding

/-- A step makes requests and hands them over, and it reports requests that were outstanding. -/
structure Continues (history : AuditHistory) (evaluated : List AuditEvent) (next : AuditHistory) :
    Prop where
  extending : ∃ events, history.scan.Extends events next.scan ∧
    next.events = history.events ++ (evaluated ++ events) ∧
    ∀ event ∈ events, ∃ p, event.isScheduling p
  isRan : ∀ event ∈ evaluated, event.isRan = false
  reported : ∀ p check req request getRequestMeta,
    .reported p check req request getRequestMeta ∈ evaluated → req ∈ history.scan.outstanding

section
variable {history next : AuditHistory} {evaluated : List AuditEvent}

theorem Continues.reported_cases (h : Continues history evaluated next) {p req : Nat}
    {check : SecurityCheck} {request : Request} {getRequestMeta : RequestMetaCallback}
    (hmem : .reported p check req request getRequestMeta ∈ next.events) :
    .reported p check req request getRequestMeta ∈ history.events ∨
      .reported p check req request getRequestMeta ∈ evaluated := by
  obtain ⟨events, _, heq, hscheduling⟩ := h.extending
  rw [heq, List.mem_append, List.mem_append] at hmem
  rcases hmem with hmem | hmem | hmem
  · exact Or.inl hmem
  · exact Or.inr hmem
  · obtain ⟨_, hq⟩ := hscheduling _ hmem
    cases hq

theorem Continues.kept (h : Continues history evaluated next) (hkept : history.Kept) :
    next.Kept := by
  have hreported := @h.reported_cases
  obtain ⟨events, hextends, heq, _⟩ := h.extending
  refine ⟨fun p check req request getRequestMeta hmem => ?_, hextends.allocated hkept.allocated,
    fun p check requests scheduled hmem hserial req hreq => ?_⟩
  · refine Nat.lt_of_lt_of_le ?_ hextends.next
    rcases hreported hmem with hmem | hmem
    · exact hkept.reported _ _ _ _ _ hmem
    · exact hkept.allocated req (h.reported _ _ _ _ _ hmem)
  · rw [heq, List.mem_append, List.mem_append] at hmem
    rcases hmem with hmem | hmem | hmem
    · obtain ⟨hlt, hnot⟩ := hkept.serial _ _ _ _ hmem hserial req hreq
      refine ⟨Nat.lt_of_lt_of_le hlt hextends.next, fun hout => ?_⟩
      rcases hextends.outstanding req hout with hout | hnew
      · exact hnot hout
      · exact absurd hlt (Nat.not_lt.mpr hnew.1)
    · exact Bool.noConfusion (h.isRan _ hmem)
    · exact ⟨(hextends.ran _ _ _ _ _ hmem req hreq).2,
        hextends.suppressed _ _ _ _ hmem hserial req hreq⟩

/-- What is reported in a step is suppressed or not by what was run before it. -/
theorem Continues.suppressed_iff (h : Continues history evaluated next) (hkept : history.Kept) :
    next.Suppressed ↔ history.Suppressed ∧ ∀ p check req request getRequestMeta,
      .reported p check req request getRequestMeta ∈ evaluated → ¬ history.BatchOfPositive req := by
  have hreported := @h.reported_cases
  obtain ⟨events, hextends, heq, _⟩ := h.extending
  constructor
  · intro hsuppressed
    refine ⟨fun p check requests scheduled hran p' check' req request getRequestMeta hmem => ?_,
      fun p' check' req request getRequestMeta hmem hbatch => ?_⟩
    · refine hsuppressed p check requests scheduled ?_ p' check' req request getRequestMeta ?_
      · exact heq ▸ List.mem_append_left _ hran
      · exact heq ▸ List.mem_append_left _ hmem
    · obtain ⟨p, check, requests, scheduled, hran, _, hreq⟩ := hbatch
      refine hsuppressed p check requests scheduled ?_ p' check' req request getRequestMeta ?_ hreq
      · exact heq ▸ List.mem_append_left _ hran
      · exact heq ▸ List.mem_append_right _ (List.mem_append_left _ hmem)
  · rintro ⟨hsuppressed, hnegative⟩ p check requests scheduled hran p' check' req request
      getRequestMeta hmem hreq
    rw [heq, List.mem_append, List.mem_append] at hran
    rcases hran with hran | hran | hran
    · rcases hreported hmem with hmem | hmem
      · exact hsuppressed _ _ _ _ hran _ _ _ _ _ hmem hreq
      · cases hserial : check.securityTest.allowSerialEvaluation with
        | true =>
          exact (hkept.serial _ _ _ _ hran hserial req hreq).2 (h.reported _ _ _ _ _ hmem)
        | false =>
          exact hnegative _ _ _ _ _ hmem ⟨p, check, requests, scheduled, hran, hserial, hreq⟩
    · exact Bool.noConfusion (h.isRan _ hran)
    · -- A request that was made in this step has not been reported.
      have hlt : req < history.scan.mem.next := by
        rcases hreported hmem with hmem | hmem
        · exact hkept.reported _ _ _ _ _ hmem
        · exact hkept.allocated req (h.reported _ _ _ _ _ hmem)
      exact absurd hlt (Nat.not_lt.mpr (hextends.ran _ _ _ _ _ hran req hreq).1)

end

variable {env : ScanEnv}

theorem step_suppressed_iff {history next : AuditHistory} {op : AuditOp} (hkept : history.Kept)
    (hstep : history.step env op = some next) :
    next.Kept ∧ (next.Suppressed ↔ history.Suppressed ∧ history.StaysNegative op) := by
  rcases step_cases hstep with ⟨req, events, rfl, houtcome, heq⟩ |
    ⟨req, transfer, p, events, rfl, hout, hhandler, houtcome, heq⟩
  · have hcontinues : Continues history [] next :=
      ⟨⟨events, houtcome.extends hkept.allocated, heq, fun event hmem =>
          ⟨_, houtcome.isScheduling event hmem⟩⟩,
        fun _ hmem => (by cases hmem), fun _ _ _ _ _ hmem => (by cases hmem)⟩
    refine ⟨hcontinues.kept hkept, (hcontinues.suppressed_iff hkept).trans ?_⟩
    exact and_congr_right fun _ => iff_of_true (fun _ _ _ _ _ hmem => by cases hmem) trivial
  · have hevaluated := Scan.evaluateCallback_extends env history.scan p req transfer
    have hreported {p' q : Nat} {check : SecurityCheck} {request : Request}
        {getRequestMeta : RequestMetaCallback} :
        .reported p' check q request getRequestMeta ∈ .calledBack p req ::
            ((history.scan.receive req transfer).counted p).evaluateCallbackEvents p req ↔ _ :=
      (List.mem_cons.trans (or_iff_right (by simp))).trans
        Scan.reported_mem_evaluateCallbackEvents
    have hcontinues : Continues history (.calledBack p req ::
        ((history.scan.receive req transfer).counted p).evaluateCallbackEvents p req) next := by
      refine ⟨⟨events, hevaluated.trans (houtcome.extends (hevaluated.allocated hkept.allocated)),
        heq, fun event hmem => ⟨_, houtcome.isScheduling event hmem⟩⟩, ?_, ?_⟩
      · intro event hmem
        rcases List.mem_cons.mp hmem with rfl | hmem
        · rfl
        · exact Scan.isRan_of_mem_evaluateCallbackEvents event hmem
      · intro p' check q request getRequestMeta hmem
        obtain ⟨_, _, _, rfl, _⟩ := hreported.mp hmem
        exact hout
    refine ⟨hcontinues.kept hkept, (hcontinues.suppressed_iff hkept).trans ?_⟩
    refine and_congr_right fun _ => ⟨fun h p' hp' hbatch => ?_, fun h => ?_⟩
    · rw [hhandler] at hp'
      cases hp'
      rintro counted ⟨hfinds, hcallback⟩
      have hpositive := Scan.evaluation_iff_findsPositive.mpr hfinds
      exact h _ _ _ _ _
        (hreported.mpr ⟨⟨hpositive, hcallback⟩, rfl, rfl, rfl, rfl, rfl⟩) hbatch
    · intro p' check q request getRequestMeta hmem hbatch
      obtain ⟨⟨hpositive, hcallback⟩, _, _, rfl, _⟩ := hreported.mp hmem
      exact h p hhandler hbatch ⟨Scan.evaluation_iff_findsPositive.mp hpositive, hcallback⟩

/-- In a run, no request that was made for a tested request which satisfies the rule by itself
    is reported exactly where no callback of such a request, made for a check evaluated in
    batch, makes the check of a runner with an issue callback find something. -/
theorem suppressed_iff_staysNegative {start last : AuditHistory} {ops : List AuditOp}
    (hevents : start.events = []) (hallocated : start.scan.Allocated)
    (hrun : transition.run (step env) start ops = some last) :
    last.Suppressed ↔ Along (step env) StaysNegative start ops := by
  have hkept : start.Kept := by
    refine ⟨fun _ _ _ _ _ hmem => ?_, hallocated, fun _ _ _ _ hmem => ?_⟩
    · rw [hevents] at hmem
      cases hmem
    · rw [hevents] at hmem
      cases hmem
  have hstart : start.Suppressed := by
    intro _ _ _ _ hmem
    rw [hevents] at hmem
    cases hmem
  exact (run_iff_along (I := Kept) (P := Suppressed)
    (fun _ _ _ hkept hstep => step_suppressed_iff hkept hstep) hkept hrun).trans
      (and_iff_right hstart)

/-- The tested request answers with the error that the rule looks for. -/
def erroneous (serial : Bool) : AuditHistory :=
  { scan :=
      { mem := ⟨[{ shopRequest with response := some (pageOf "SQL error").response }]⟩
        selectiveAuditor := { checks := [sqlCheck serial] } } }

/-- Whether the tested request tests positive, and the requests, wherever a check was run. -/
def originals (history : AuditHistory) : List (Bool × List Nat) :=
  history.events.filterMap fun
    | .ran _ (.generic _) positive requests _ => some (positive, requests)
    | _ => none

theorem not_suppressed_of_mem {history : AuditHistory} {requests : List Nat} {req : Nat}
    {satisfied : Bool} (horiginal : (true, requests) ∈ history.originals)
    (hreport : (req, satisfied) ∈ history.reports) (hreq : req ∈ requests) :
    ¬ history.Suppressed := by
  intro hsuppressed
  obtain ⟨ran, hran, heq⟩ := List.mem_filterMap.mp horiginal
  obtain ⟨reported, hreported, heq'⟩ := List.mem_filterMap.mp hreport
  cases ran with
  | ran p check positive made scheduled =>
    cases check with
    | responseTime => cases heq
    | generic check =>
      cases heq
      cases reported with
      | reported p' check' q request getRequestMeta =>
        cases check' with
        | responseTime => cases heq'
        | generic check' =>
          obtain ⟨matcher, _, heq'⟩ := Option.map_eq_some_iff.mp heq'
          cases heq'
          exact hsuppressed _ _ _ _ hran _ _ _ _ _ hreported hreq
      | _ => cases heq'
  | _ => cases heq

/-- The second of two requests finds an error. -/
def errorLast : List AuditOp :=
  [.scheduleFirst 0, .requestCallback 1 (pageOf "ok"), .requestCallback 2 (pageOf "SQL error")]

theorem errorLast_outcome : (transition.run (step (plainEnv true)) (erroneous false) errorLast).map
    (fun history => (history.originals, history.reports)) =
      some ([(true, [1, 2])], [(2, true)]) := by
  decide +kernel

theorem suppressed_iff_staysNegative_errorLast : ∃ last,
    transition.run (step (plainEnv true)) (erroneous false) errorLast = some last ∧
    (last.Suppressed ↔
      Along (step (plainEnv true)) StaysNegative (erroneous false) errorLast) := by
  obtain ⟨last, hrun, _⟩ := Option.map_eq_some_iff.mp errorLast_outcome
  exact ⟨last, hrun, suppressed_iff_staysNegative rfl (fun _ hmem => by cases hmem) hrun⟩

/-- A check evaluated in batch is run on a request that tests positive by itself, and one of its
    requests is reported. -/
theorem erroneous_reported : ∃ last,
    transition.run (step (plainEnv true)) (erroneous false) errorLast = some last ∧
    (true, [1, 2]) ∈ last.originals ∧ (2, true) ∈ last.reports ∧ ¬ last.Suppressed := by
  obtain ⟨last, hrun, houtcome⟩ := Option.map_eq_some_iff.mp errorLast_outcome
  obtain ⟨horiginals, hreports⟩ := Prod.mk.inj houtcome
  have horiginal : (true, [1, 2]) ∈ last.originals := by simp [horiginals]
  have hreport : (2, true) ∈ last.reports := by simp [hreports]
  exact ⟨last, hrun, horiginal, hreport, not_suppressed_of_mem horiginal hreport (by decide)⟩

end AuditHistory

end plusfish

import Plusfish.Audit.Events

open memory transition

namespace plusfish

namespace Scan

section
variable (env : ScanEnv)

/-- The addresses of the requests that the check of a runner makes. -/
def newAddresses (scan : Scan) (p : Nat) : List Nat :=
  (scan.mem.allocAll (scan.newRequests env p).2).1

theorem mem_newAddresses {scan : Scan} {p req : Nat} : req ∈ scan.newAddresses env p ↔
    scan.mem.next ≤ req ∧ req < scan.mem.next + (scan.newRequests env p).2.length :=
  Heap.mem_allocAll_fst

theorem newAddresses_nodup (scan : Scan) (p : Nat) : (scan.newAddresses env p).Nodup :=
  List.nodup_range'

/-- What `Run` on behalf of a fresh runner comes to. All that is outstanding after it and was
    not before is a request that it has made. -/
structure RunOutcome (p : Nat) (scan : Scan) (done : Bool) (after : Scan) : Prop where
  event : scan.runEvent env p = .ran p (scan.runnerAt p).securityCheck
    (scan.originalPositive env p) (scan.newAddresses env p) done
  runs : RunsFor p scan after
  runner : after.runnerAt p = { scan.runnerAt p with requests := scan.newAddresses env p }
  next : after.mem.next = scan.mem.next + (scan.newRequests env p).2.length
  store : after.store = scan.store
  outstanding : ∀ req ∈ after.outstanding,
    req ∈ scan.outstanding ∨ req ∈ scan.newAddresses env p
  suppressed : (scan.runnerAt p).securityCheck.canEvaluateInSerial = true →
    scan.originalPositive env p = true → after.outstanding = scan.outstanding

theorem scheduleRequests_outstanding (p : Nat) (check : SecurityCheck) (reqs : List Nat)
    (scan : Scan) : ∀ req ∈ (scheduleRequests env p check reqs scan).2.outstanding,
      req ∈ scan.outstanding ∨ req ∈ reqs := by
  induction reqs generalizing scan with
  | nil => exact fun _ hmem => Or.inl hmem
  | cons first reqs ih =>
    have hfirst : ∀ req ∈ (scan.scheduleWith env
        (.securityCheckRunner p check.canEvaluateInSerial) first
        (.securityCheckRunner p)).2.outstanding, req ∈ scan.outstanding ∨ req ∈ first :: reqs := by
      intro req hmem
      simp only [scheduleWith, schedule] at hmem
      split at hmem
      · rcases List.mem_append.mp hmem with hmem | hmem
        · exact Or.inl hmem
        · exact Or.inr (List.mem_cons.mpr (Or.inl (List.mem_singleton.mp hmem)))
      · exact Or.inl hmem
    simp only [scheduleRequests]
    split
    · exact hfirst
    · intro req hmem
      rcases ih _ req hmem with hmem | hmem
      · exact hfirst req hmem
      · exact Or.inr (List.mem_cons_of_mem _ hmem)

/-- `Run` makes the requests of the check and schedules some of them, or none. -/
theorem Fresh.run_schedules {scan : Scan} {p : Nat} {nextChecks : List SecurityCheck}
    (h : scan.Fresh p nextChecks) :
    Schedules (scan.newAddresses env p) (scan.createRequests env p).2 (scan.run env p).2 ∧
      ∀ req ∈ (scan.run env p).2.outstanding,
        req ∈ scan.outstanding ∨ req ∈ scan.newAddresses env p := by
  have hrunner := createRequests_runnerAt env h.allocated
  rw [h.requests, List.nil_append] at hrunner
  rcases run_cases env scan p with heq | ⟨_, heq⟩
  · rw [heq]
    exact ⟨⟨rfl, fun _ _ => rfl, rfl, rfl, List.prefix_refl _, List.prefix_refl _⟩,
      fun _ hmem => Or.inl hmem⟩
  · rw [heq, hrunner]
    exact ⟨scheduleRequests_schedules env p _ _ _, scheduleRequests_outstanding env p _ _ _⟩

/-- A check that is evaluated in serial is skipped where the tested request tests positive. -/
theorem run_of_suppressed {scan : Scan} {p : Nat}
    (hserial : ((scan.createRequests env p).2.runnerAt p).securityCheck.canEvaluateInSerial = true)
    (hpositive : scan.originalPositive env p = true) :
    scan.run env p = (false, (scan.createRequests env p).2) := by
  unfold originalPositive at hpositive
  unfold run
  simp only [hserial, hpositive, Bool.and_self, if_true, ite_self]

theorem Fresh.run_outcome {scan after : Scan} {p : Nat} {nextChecks : List SecurityCheck}
    {done : Bool} (h : scan.Fresh p nextChecks) (hrun : scan.run env p = (done, after)) :
    RunOutcome env p scan done after := by
  have hcreated := createRequests_runnerAt env h.allocated
  rw [h.requests, List.nil_append] at hcreated
  obtain ⟨hschedules, hout⟩ := h.run_schedules env
  have hruns := (h.run env).1
  have hstore : (scan.run env p).2.store = scan.store := Schedulings.store (run_schedulings scan p)
  rw [hrun] at hschedules hout hruns hstore
  refine ⟨?_, hruns, ?_, ?_, hstore, hout, fun hserial hpositive => ?_⟩
  · unfold runEvent
    rw [hcreated, hrun]
    rfl
  · rw [runnerAt, hschedules.runnerMem, ← runnerAt, hcreated]
    rfl
  · rw [hschedules.next]
    simp [createRequests, setRunner, newRequests]
  · have heq := run_of_suppressed env (by rw [hcreated]; exact hserial) hpositive
    rw [hrun] at heq
    cases heq
    rfl

/-- `ScheduleNextCheck` on behalf of a fresh runner: what happens, what is returned, and the
    scan after it. -/
inductive Scheduled (p : Nat) :
    List SecurityCheck → Scan → List AuditEvent → Bool → Scan → Prop
  | ran {nextChecks : List SecurityCheck} {scan after : Scan} (hfresh : scan.Fresh p nextChecks)
      (hrun : scan.run env p = (true, after)) :
      Scheduled p nextChecks scan [scan.runEvent env p] true after
  | last {scan after : Scan} (hfresh : scan.Fresh p []) (hrun : scan.run env p = (false, after)) :
      Scheduled p [] scan [scan.runEvent env p] false after
  | skipped {check : SecurityCheck} {checks : List SecurityCheck} {scan after last : Scan}
      {runner : SecurityCheckRunner} {events : List AuditEvent} {done : Bool}
      (hfresh : scan.Fresh p (check :: checks)) (hrun : scan.run env p = (false, after))
      (hnext : (after.runnerAt p).setNextCheck = some runner)
      (hrest : Scheduled p checks (after.setRunner p runner) events done last) :
      Scheduled p (check :: checks) scan (scan.runEvent env p :: events) done last

theorem Fresh.scheduled {scan : Scan} {p : Nat} {nextChecks : List SecurityCheck}
    (h : scan.Fresh p nextChecks) :
    Scheduled env p nextChecks scan (scheduleChecksEvents env p nextChecks scan)
      (Scan.scheduleChecks env p nextChecks scan).1
        (Scan.scheduleChecks env p nextChecks scan).2 := by
  induction nextChecks generalizing scan with
  | nil =>
    rw [scheduleChecksEvents_nil, Scan.scheduleChecks]
    cases hrun : scan.run env p with
    | mk done after =>
      cases done with
      | true => exact .ran h hrun
      | false => exact .last h hrun
  | cons check checks ih =>
    obtain ⟨hruns, ⟨requests, hrunner⟩, _⟩ := h.run env
    obtain ⟨runner, hnext, _, _, _, hfresh⟩ := h.moveOn hruns hrunner
    rw [scheduleChecksEvents_cons, Scan.scheduleChecks]
    cases hrun : scan.run env p with
    | mk done after =>
      rw [hrun] at hnext hfresh
      cases done with
      | true => exact .ran h hrun
      | false =>
        dsimp only at hnext ⊢
        rw [hnext]
        exact .skipped h hrun hnext (ih hfresh)

/-- What a request that is given to the auditor leads to. -/
inductive FirstOutcome (scan : Scan) (req : Nat) : List AuditEvent → Scan → Prop
  | noChecks (hlist : scan.selectiveAuditor.checks = []) : FirstOutcome scan req [] scan
  | nothing {check : SecurityCheck} {checks : List SecurityCheck} {events : List AuditEvent}
      {after : Scan} (hlist : scan.selectiveAuditor.checks = check :: checks)
      (hscheduled : Scheduled env scan.runnerMem.next checks (scan.allocRunner req check checks)
        events false after) : FirstOutcome scan req events after
  | started {check : SecurityCheck} {checks : List SecurityCheck} {events : List AuditEvent}
      {after : Scan} (hlist : scan.selectiveAuditor.checks = check :: checks)
      (hscheduled : Scheduled env scan.runnerMem.next checks (scan.allocRunner req check checks)
        events true after) :
      FirstOutcome scan req (events ++ [.stored scan.runnerMem.next])
        (after.pushRunner scan.runnerMem.next)

theorem scheduleFirst_outcome (scan : Scan) (req : Nat) :
    FirstOutcome env scan req (scan.scheduleFirstEvents env req)
      (scan.scheduleFirst env req).2 := by
  unfold scheduleFirstEvents
  cases hlist : scan.selectiveAuditor.checks with
  | nil =>
    have heq : scan.scheduleFirst env req = (false, scan) := by
      unfold scheduleFirst
      simp only [hlist]
    rw [heq]
    exact .noChecks hlist
  | cons check checks =>
    have hfresh := allocRunner_fresh scan check checks req
    have hscheduled := hfresh.scheduled env
    dsimp only
    rw [scheduleFirst_eq env hlist, scheduleNextCheckEvents, scheduleNextCheck, hfresh.nextChecks]
    generalize scheduleChecksEvents env _ _ _ = events at hscheduled
    generalize Scan.scheduleChecks env _ _ _ = result at hscheduled
    obtain ⟨done, after⟩ := result
    cases done with
    | true => exact .started hlist hscheduled
    | false => exact (List.append_nil events).symm ▸ .nothing hlist hscheduled

/-- What a callback leads to after its evaluation. -/
inductive DoneOutcome (scan : Scan) (p : Nat) : List AuditEvent → Scan → Prop
  | waiting (hunfinished : (scan.runnerAt p).finished = false) : DoneOutcome scan p [] scan
  | ended (hfinished : (scan.runnerAt p).finished = true)
      (hlast : ((scan.scrapeRequests env p).runnerAt p).setNextCheck = none) :
      DoneOutcome scan p ((scan.scrapeRequests env p).eraseRunnerEvents p)
        ((scan.scrapeRequests env p).eraseRunner p)
  | exhausted {runner : SecurityCheckRunner} {events : List AuditEvent} {after : Scan}
      (hfinished : (scan.runnerAt p).finished = true)
      (hnext : ((scan.scrapeRequests env p).runnerAt p).setNextCheck = some runner)
      (hscheduled : Scheduled env p runner.nextChecks
        ((scan.scrapeRequests env p).setRunner p runner) events false after) :
      DoneOutcome scan p (events ++ after.eraseRunnerEvents p) (after.eraseRunner p)
  | goesOn {runner : SecurityCheckRunner} {events : List AuditEvent} {after : Scan}
      (hfinished : (scan.runnerAt p).finished = true)
      (hnext : ((scan.scrapeRequests env p).runnerAt p).setNextCheck = some runner)
      (hscheduled : Scheduled env p runner.nextChecks
        ((scan.scrapeRequests env p).setRunner p runner) events true after) :
      DoneOutcome scan p events after

theorem allocated_scrapeRequests {scan : Scan} {p : Nat}
    (hfinished : (scan.runnerAt p).finished = true) :
    p < (scan.scrapeRequests env p).runnerMem.next := by
  rw [(scrapeRequests_sameAudits env scan p).runnerMem]
  exact allocated_of_finished hfinished

theorem finishedCheckCb_doneOutcome {scan : Scan} {p : Nat}
    (hfinished : (scan.runnerAt p).finished = true) :
    DoneOutcome env scan p (scan.finishedCheckCbEvents env p) (scan.finishedCheckCb env p) := by
  have hp := allocated_scrapeRequests env hfinished
  unfold finishedCheckCbEvents finishedCheckCb
  dsimp only
  cases hnext : ((scan.scrapeRequests env p).runnerAt p).setNextCheck with
  | none => exact .ended hfinished hnext
  | some runner =>
    have hfresh := (Fresh.of_setNextCheck _ hp hnext).1
    have hscheduled := hfresh.scheduled env
    dsimp only
    rw [scheduleNextCheckEvents, scheduleNextCheck, hfresh.nextChecks]
    generalize scheduleChecksEvents env _ _ _ = events at hscheduled
    generalize Scan.scheduleChecks env _ _ _ = result at hscheduled
    obtain ⟨done, after⟩ := result
    cases done with
    | true => exact (List.append_nil events).symm ▸ .goesOn hfinished hnext hscheduled
    | false => exact .exhausted hfinished hnext hscheduled

/-- A callback is counted and evaluated, and then the runner goes on or not. -/
theorem runnerCallback_outcome (scan : Scan) (p req : Nat) :
    ∃ events, DoneOutcome env ((scan.counted p).evaluateCallback env p req) p events
        (scan.runnerCallback env p req) ∧
      scan.runnerCallbackEvents env p req =
        .calledBack p req :: (scan.counted p).evaluateCallbackEvents p req ++ events := by
  have heq : scan.runnerCallback env p req =
      let evaluated := (scan.counted p).evaluateCallback env p req
      if (evaluated.runnerAt p).finished then evaluated.finishedCheckCb env p else evaluated := rfl
  unfold runnerCallbackEvents
  rw [heq]
  generalize (scan.counted p).evaluateCallback env p req = evaluated
  dsimp only
  split
  · rename_i hfinished
    exact ⟨_, finishedCheckCb_doneOutcome env hfinished, rfl⟩
  · rename_i hunfinished
    exact ⟨[], .waiting (by simpa using hunfinished), rfl⟩

variable {env}

theorem Scheduled.isScheduling {p : Nat} {nextChecks : List SecurityCheck} {scan last : Scan}
    {events : List AuditEvent} {done : Bool}
    (h : Scheduled env p nextChecks scan events done last) :
    ∀ event ∈ events, event.isScheduling p := by
  induction h with
  | ran | last =>
    intro event hmem
    rw [List.mem_singleton.mp hmem]
    rfl
  | skipped _ _ _ _ ih =>
    intro event hmem
    rcases List.mem_cons.mp hmem with rfl | hmem
    · rfl
    · exact ih event hmem

theorem Scheduled.runsFor {p : Nat} {nextChecks : List SecurityCheck} {scan last : Scan}
    {events : List AuditEvent} {done : Bool}
    (h : Scheduled env p nextChecks scan events done last) : RunsFor p scan last := by
  induction h with
  | ran hfresh hrun | last hfresh hrun => exact (hfresh.run_outcome env hrun).runs
  | @skipped _ _ _ after _ runner _ _ hfresh hrun _ _ ih =>
    exact (hfresh.run_outcome env hrun).runs.trans ((setRunner_runsFor after p runner).trans ih)

theorem FirstOutcome.isScheduling {scan after : Scan} {req : Nat} {events : List AuditEvent}
    (h : FirstOutcome env scan req events after) :
    ∀ event ∈ events, event.isScheduling scan.runnerMem.next := by
  cases h with
  | noChecks => exact fun _ hmem => by cases hmem
  | nothing _ hscheduled => exact hscheduled.isScheduling
  | started _ hscheduled =>
    intro event hmem
    rcases List.mem_append.mp hmem with hmem | hmem
    · exact hscheduled.isScheduling event hmem
    · rw [List.mem_singleton.mp hmem]
      rfl

theorem isScheduling_of_mem_eraseRunnerEvents {scan : Scan} {p : Nat} :
    ∀ event ∈ scan.eraseRunnerEvents p, event.isScheduling p := by
  intro event hmem
  unfold eraseRunnerEvents at hmem
  split at hmem
  · rw [List.mem_singleton.mp hmem]
    rfl
  · cases hmem

theorem DoneOutcome.isScheduling {scan after : Scan} {p : Nat} {events : List AuditEvent}
    (h : DoneOutcome env scan p events after) : ∀ event ∈ events, event.isScheduling p := by
  cases h with
  | waiting => exact fun _ hmem => by cases hmem
  | ended => exact isScheduling_of_mem_eraseRunnerEvents
  | goesOn _ _ hscheduled => exact hscheduled.isScheduling
  | exhausted _ _ hscheduled =>
    intro event hmem
    rcases List.mem_append.mp hmem with hmem | hmem
    · exact hscheduled.isScheduling event hmem
    · exact isScheduling_of_mem_eraseRunnerEvents event hmem

end

end Scan

namespace AuditHistory

open Scan (AuditOp)

/-- A callback of a runner that waits for it. -/
theorem callback_step (env : ScanEnv) {history : AuditHistory} {req p : Nat} (transfer : Transfer)
    (hout : req ∈ history.scan.outstanding)
    (hhandler : (deref history.scan.mem req).requestHandler = some (.securityCheckRunner p)) :
    ∃ next events, history.step env (.requestCallback req transfer) = some next ∧
      Scan.DoneOutcome env
        (((history.scan.receive req transfer).counted p).evaluateCallback env p req) p events
        next.scan ∧
      next.events = history.events ++ (.calledBack p req ::
        ((history.scan.receive req transfer).counted p).evaluateCallbackEvents p req ++
          events) := by
  have hstep : history.step env (.requestCallback req transfer) =
      some ⟨(history.scan.receive req transfer).runnerCallback env p req,
        history.events ++ (history.scan.receive req transfer).runnerCallbackEvents env p req⟩ := by
    simp only [step, Scan.auditStep, Scan.auditEvents, hout, hhandler, if_true, Option.map_some]
  obtain ⟨events, houtcome, heq⟩ :=
    Scan.runnerCallback_outcome env (history.scan.receive req transfer) p req
  exact ⟨_, events, hstep, houtcome, by rw [heq]⟩

variable {env : ScanEnv}

/-- One step of the history: an audit is started, or a runner is called back. -/
theorem step_cases {history next : AuditHistory} {op : AuditOp}
    (hstep : history.step env op = some next) :
    (∃ req events, op = .scheduleFirst req ∧
      Scan.FirstOutcome env history.scan req events next.scan ∧
      next.events = history.events ++ events) ∨
    ∃ req transfer p events, op = .requestCallback req transfer ∧
      req ∈ history.scan.outstanding ∧
      (deref history.scan.mem req).requestHandler = some (.securityCheckRunner p) ∧
      Scan.DoneOutcome env
        (((history.scan.receive req transfer).counted p).evaluateCallback env p req) p events
        next.scan ∧
      next.events = history.events ++ (.calledBack p req ::
        ((history.scan.receive req transfer).counted p).evaluateCallbackEvents p req ++
          events) := by
  cases op with
  | scheduleFirst req =>
    cases hstep
    exact Or.inl ⟨req, _, rfl, Scan.scheduleFirst_outcome env history.scan req, rfl⟩
  | requestCallback req transfer =>
    obtain ⟨scan, hscan, _⟩ := Option.map_eq_some_iff.mp hstep
    simp only [Scan.auditStep] at hscan
    split at hscan
    · rename_i hout
      split at hscan
      · rename_i p hhandler
        obtain ⟨next', events, hstep', houtcome, heq⟩ := callback_step env transfer hout hhandler
        obtain rfl := Option.some.inj (hstep.symm.trans hstep')
        exact Or.inr ⟨req, transfer, p, events, rfl, hout, hhandler, houtcome, heq⟩
      · cases hscan
    · cases hscan

end AuditHistory

end plusfish

import Plusfish.Audit.Abandonment

open memory

namespace plusfish

namespace Scan

section
variable (env : ScanEnv)

/-- The scans in which `Run` is called for the checks of a runner, one after the other. -/
def scheduleChecksRuns (p : Nat) (nextChecks : List SecurityCheck) (scan : Scan) : List Scan :=
  let (done, after) := scan.run env p
  scan ::
    if done then []
    else
      match nextChecks with
      | [] => []
      | _ :: nextChecks =>
        match (after.runnerAt p).setNextCheck with
        | none => []
        | some runner => scheduleChecksRuns p nextChecks (after.setRunner p runner)

/-- The calls of `Run`: the scan and the runner. -/
def scheduleNextCheckRuns (scan : Scan) (p : Nat) : List (Scan × Nat) :=
  (scheduleChecksRuns env p (scan.runnerAt p).nextChecks scan).map (·, p)

def scheduleFirstRuns (scan : Scan) (req : Nat) : List (Scan × Nat) :=
  match scan.selectiveAuditor.checks with
  | [] => []
  | check :: checks =>
    (scan.allocRunner req check checks).scheduleNextCheckRuns env scan.runnerMem.next

def finishedCheckCbRuns (scan : Scan) (p : Nat) : List (Scan × Nat) :=
  let scan := scan.scrapeRequests env p
  match (scan.runnerAt p).setNextCheck with
  | none => []
  | some runner => (scan.setRunner p runner).scheduleNextCheckRuns env p

def runnerCallbackRuns (scan : Scan) (p req : Nat) : List (Scan × Nat) :=
  let evaluated := (scan.counted p).evaluateCallback env p req
  if (evaluated.runnerAt p).finished then evaluated.finishedCheckCbRuns env p else []

end

/-- The requests of a runner that are under way are requests of its current check, and the
    runner waits for as many callbacks. -/
structure Current (scan : Scan) (p : Nat) : Prop where
  pending : ∀ req ∈ scan.pending p, req ∈ (scan.runnerAt p).requests
  room : (scan.runnerAt p).requestsCompleted + (scan.pending p).length ≤
    (scan.runnerAt p).requests.length
  finished : (scan.runnerAt p).finished = true → scan.pending p = []

/-- The requests of runners that are under way belong to runners that the auditor holds, and
    to the checks that these are running. -/
structure Attended (scan : Scan) : Prop where
  allocated : scan.Allocated
  runners : ∀ p ∈ scan.selectiveAuditor.runners, p < scan.runnerMem.next
  current : ∀ p, scan.Current p
  held : ∀ p, scan.pending p ≠ [] → p ∈ scan.selectiveAuditor.runners

/-- The callbacks of each runner, given with their requests. -/
structure Counts (scan : Scan) (callbacks : List (Nat × Nat)) : Prop where
  allocated : ∀ callback ∈ callbacks, callback.2 < scan.mem.next
  requestsCompleted : ∀ p, (scan.runnerAt p).requestsCompleted = callbacks.countP
    fun callback => callback.1 = p ∧ callback.2 ∈ (scan.runnerAt p).requests

section
variable {env : ScanEnv}

/-- What `ScheduleNextCheck` comes to, where no failed `Run` leaves a request behind. -/
structure MovesOn (p : Nat) (scan : Scan) (done : Bool) (last : Scan) : Prop where
  acts : ActsFor p scan last
  next : scan.mem.next ≤ last.mem.next
  selectiveAuditor : last.selectiveAuditor = scan.selectiveAuditor
  pending : (last.pending p).Sublist (last.runnerAt p).requests
  failed : done = false → last.pending p = []
  notFinished : (last.runnerAt p).finished = false
  requestsCompleted : (last.runnerAt p).requestsCompleted = 0
  requests : ∀ req ∈ (last.runnerAt p).requests, scan.mem.next ≤ req

theorem Fresh.run_movesOn {scan after : Scan} {p : Nat} {nextChecks : List SecurityCheck}
    {done : Bool} (h : scan.Fresh p nextChecks) (hrun : scan.run env p = (done, after))
    (hallocated : scan.Allocated) (hnone : scan.pending p = [])
    (hleaves : scan.LeavesNothing env p) :
    MovesOn p scan done after := by
  have houtcome := h.run_outcome env hrun
  obtain ⟨handed, hsublist, hout, hhandlers⟩ := h.run_hands hrun
  have hpending : after.pending p = handed := by
    rw [houtcome.runs.pending hallocated hout hhandlers p, if_pos rfl, hnone, List.nil_append]
  have hrunner := houtcome.runner
  refine ⟨h.run_actsFor hallocated hrun, houtcome.runs.next, houtcome.runs.selectiveAuditor, ?_,
    ?_, ?_, ?_, ?_⟩
  · rw [hpending, hrunner]
    exact hsublist
  · rintro rfl
    rw [LeavesNothing, hrun] at hleaves
    refine List.eq_nil_iff_forall_not_mem.mpr fun req hreq => hleaves rfl req ?_ hreq
    rw [hrunner]
    exact hsublist.subset (hpending ▸ hreq)
  · rw [hrunner]
    exact h.notFinished
  · rw [hrunner]
    exact h.requestsCompleted
  · rw [hrunner]
    exact fun req hreq => ((mem_newAddresses env).mp hreq).1

theorem scheduleChecksRuns_skipped {scan after : Scan} {p : Nat} {check : SecurityCheck}
    {checks : List SecurityCheck} {runner : SecurityCheckRunner}
    (hrun : scan.run env p = (false, after))
    (hnext : (after.runnerAt p).setNextCheck = some runner) :
    scheduleChecksRuns env p (check :: checks) scan =
      scan :: scheduleChecksRuns env p checks (after.setRunner p runner) := by
  rw [scheduleChecksRuns, hrun]
  simp only [Bool.false_eq_true, if_false, hnext]

theorem mem_scheduleChecksRuns_self (p : Nat) (nextChecks : List SecurityCheck) (scan : Scan) :
    scan ∈ scheduleChecksRuns env p nextChecks scan := by
  rw [scheduleChecksRuns.eq_def]
  exact List.mem_cons_self

theorem Scheduled.movesOn {p : Nat} {nextChecks : List SecurityCheck} {scan last : Scan}
    {events : List AuditEvent} {done : Bool}
    (h : Scheduled env p nextChecks scan events done last) (hallocated : scan.Allocated)
    (hnone : scan.pending p = [])
    (hleaves : ∀ middle ∈ scheduleChecksRuns env p nextChecks scan, middle.LeavesNothing env p) :
    MovesOn p scan done last := by
  induction h with
  | ran hfresh hrun | last hfresh hrun =>
    exact hfresh.run_movesOn hrun hallocated hnone (hleaves _ (mem_scheduleChecksRuns_self p _ _))
  | @skipped _ _ scan after last runner _ _ hfresh hrun hnext hrest ih =>
    rw [scheduleChecksRuns_skipped hrun hnext] at hleaves
    have hfirst := hfresh.run_movesOn hrun hallocated hnone (hleaves _ List.mem_cons_self)
    have hset := setRunner_actsFor after p runner
    have hlater := ih (hset.allocated (hfirst.acts.allocated hallocated)) (hfirst.failed rfl)
      fun middle hmem => hleaves middle (List.mem_cons_of_mem _ hmem)
    exact ⟨hfirst.acts.trans (hset.trans hlater.acts), Nat.le_trans hfirst.next hlater.next,
      hlater.selectiveAuditor.trans hfirst.selectiveAuditor, hlater.pending, hlater.failed,
      hlater.notFinished, hlater.requestsCompleted,
      fun req hreq => Nat.le_trans hfirst.next (hlater.requests req hreq)⟩

/-- `Run` is called for fresh runners. -/
theorem Scheduled.fresh_of_mem_runs {p : Nat} {nextChecks : List SecurityCheck} {scan last : Scan}
    {events : List AuditEvent} {done : Bool}
    (h : Scheduled env p nextChecks scan events done last) (hallocated : scan.Allocated) :
    ∀ middle ∈ scheduleChecksRuns env p nextChecks scan,
      (∃ checks, middle.Fresh p checks) ∧ middle.Allocated := by
  induction h with
  | ran hfresh hrun =>
    intro middle hmem
    rw [scheduleChecksRuns.eq_def, hrun] at hmem
    obtain rfl := List.mem_singleton.mp hmem
    exact ⟨⟨_, hfresh⟩, hallocated⟩
  | last hfresh hrun =>
    intro middle hmem
    rw [scheduleChecksRuns.eq_def, hrun] at hmem
    obtain rfl := List.mem_singleton.mp hmem
    exact ⟨⟨_, hfresh⟩, hallocated⟩
  | @skipped _ _ scan after last runner _ _ hfresh hrun hnext hrest ih =>
    rw [scheduleChecksRuns_skipped hrun hnext]
    intro middle hmem
    rcases List.mem_cons.mp hmem with rfl | hmem
    · exact ⟨⟨_, hfresh⟩, hallocated⟩
    · exact ih ((setRunner_actsFor after p runner).allocated
        ((hfresh.run_actsFor hallocated hrun).allocated hallocated)) middle hmem

theorem MovesOn.current {p : Nat} {scan last : Scan} {done : Bool} (h : MovesOn p scan done last) :
    last.Current p where
  pending _ hmem := h.pending.subset hmem
  room := by
    rw [h.requestsCompleted, Nat.zero_add]
    exact h.pending.length_le
  finished hfinished := by
    rw [h.notFinished] at hfinished
    cases hfinished

/-- What is done for one runner keeps the invariant where it does so for that runner. -/
theorem Attended.of_actsFor {scan next : Scan} {p : Nat} (h : scan.Attended)
    (hacts : ActsFor p scan next) (hp : p < scan.runnerMem.next) (hcurrent : next.Current p)
    (hheld : next.pending p ≠ [] → p ∈ next.selectiveAuditor.runners) : next.Attended where
  allocated := hacts.allocated h.allocated
  runners q hmem := by
    rw [hacts.runnerNext]
    by_cases hq : q = p
    · exact hq ▸ hp
    · exact h.runners q ((hacts.runners q hq).mp hmem)
  current q := by
    by_cases hq : q = p
    · exact hq ▸ hcurrent
    · obtain ⟨hpending, hroom, hfinished⟩ := h.current q
      rw [← hacts.pending q hq, ← hacts.runnerAt q hq] at hpending hroom hfinished
      exact ⟨hpending, hroom, hfinished⟩
  held q hmem := by
    by_cases hq : q = p
    · subst hq
      exact hheld hmem
    · rw [hacts.pending q hq] at hmem
      exact (hacts.runners q hq).mpr (h.held q hmem)

/-- A runner that has no callback behind it, or none of its current check, keeps the count. -/
theorem Counts.of_runner {scan next : Scan} {p : Nat} {callbacks : List (Nat × Nat)}
    (h : scan.Counts callbacks) (hnext : scan.mem.next ≤ next.mem.next)
    (hothers : ∀ q ≠ p, next.runnerAt q = scan.runnerAt q)
    (hown : next.runnerAt p = scan.runnerAt p ∨ ((next.runnerAt p).requestsCompleted = 0 ∧
      ∀ req ∈ (next.runnerAt p).requests, scan.mem.next ≤ req)) : next.Counts callbacks where
  allocated callback hmem := Nat.lt_of_lt_of_le (h.allocated callback hmem) hnext
  requestsCompleted q := by
    by_cases hq : q = p
    · subst hq
      rcases hown with heq | ⟨hzero, hnew⟩
      · rw [heq]
        exact h.requestsCompleted q
      · rw [hzero]
        refine (List.countP_eq_zero.mpr fun callback hmem => ?_).symm
        simp only [decide_eq_true_eq]
        rintro ⟨_, hreq⟩
        exact absurd (h.allocated callback hmem) (Nat.not_lt.mpr (hnew _ hreq))
    · rw [hothers q hq]
      exact h.requestsCompleted q

theorem Attended.pending_next {scan : Scan} (h : scan.Attended) :
    scan.pending scan.runnerMem.next = [] := by
  by_contra hpending
  exact Nat.lt_irrefl _ (h.runners _ (h.held _ hpending))

/-- A new runner waits for nothing. -/
theorem Attended.allocRunner {scan : Scan} (h : scan.Attended) (req : Nat) (check : SecurityCheck)
    (checks : List SecurityCheck) : (scan.allocRunner req check checks).Attended where
  allocated := h.allocated
  runners p hmem := by
    simp only [Scan.allocRunner, Heap.next_alloc]
    exact Nat.lt_succ_of_lt (h.runners p hmem)
  current p := by
    by_cases hp : p = scan.runnerMem.next
    · subst hp
      have hnone : (scan.allocRunner req check checks).pending scan.runnerMem.next = [] :=
        h.pending_next
      refine ⟨fun req hmem => ?_, ?_, fun _ => hnone⟩
      · rw [hnone] at hmem
        cases hmem
      · rw [hnone, allocRunner_runnerAt_next]
        exact Nat.le_refl _
    · obtain ⟨hpending, hroom, hfinished⟩ := h.current p
      rw [← allocRunner_runnerAt scan req check checks hp] at hpending hroom hfinished
      exact ⟨hpending, hroom, hfinished⟩
  held := h.held

theorem Counts.allocRunner {scan : Scan} {callbacks : List (Nat × Nat)} (h : scan.Counts callbacks)
    (req : Nat) (check : SecurityCheck) (checks : List SecurityCheck) :
    (scan.allocRunner req check checks).Counts callbacks := by
  refine h.of_runner (p := scan.runnerMem.next) (Nat.le_refl _)
    (fun q hq => allocRunner_runnerAt scan req check checks hq) (Or.inr ?_)
  rw [allocRunner_runnerAt_next]
  exact ⟨rfl, fun _ hmem => by cases hmem⟩

theorem scheduleFirstRuns_eq {scan : Scan} {check : SecurityCheck} {checks : List SecurityCheck}
    (hlist : scan.selectiveAuditor.checks = check :: checks) (req : Nat) :
    scan.scheduleFirstRuns env req = (scheduleChecksRuns env scan.runnerMem.next checks
      (scan.allocRunner req check checks)).map (·, scan.runnerMem.next) := by
  simp only [scheduleFirstRuns, hlist, scheduleNextCheckRuns, allocRunner_runnerAt_next]

/-- What giving a request to the auditor keeps, where no failed `Run` leaves a request
    behind. -/
theorem Attended.scheduleFirst {scan : Scan} {req : Nat} (h : scan.Attended)
    (hleaves : ∀ call ∈ scan.scheduleFirstRuns env req, call.1.LeavesNothing env call.2) :
    (scan.scheduleFirst env req).2.Attended ∧ ∀ callbacks, scan.Counts callbacks →
      (scan.scheduleFirst env req).2.Counts callbacks := by
  have houtcome := scheduleFirst_outcome env scan req
  have hnext : scan.runnerMem.next < scan.runnerMem.next + 1 := Nat.lt_succ_self _
  -- The checks that are run for the new runner.
  have hscheduled {check : SecurityCheck} {checks : List SecurityCheck}
      {events : List AuditEvent} {done : Bool} {last : Scan}
      (hlist : scan.selectiveAuditor.checks = check :: checks)
      (hscheduled : Scheduled env scan.runnerMem.next checks (scan.allocRunner req check checks)
        events done last) :
      MovesOn scan.runnerMem.next (scan.allocRunner req check checks) done last ∧
        ∀ callbacks, scan.Counts callbacks → last.Counts callbacks := by
    rw [scheduleFirstRuns_eq hlist] at hleaves
    have hmoves := hscheduled.movesOn h.allocated h.pending_next
      fun middle hmem => hleaves _ (List.mem_map_of_mem hmem)
    exact ⟨hmoves, fun callbacks hcounts => (hcounts.allocRunner req check checks).of_runner
      hmoves.next hmoves.acts.runnerAt (Or.inr ⟨hmoves.requestsCompleted, hmoves.requests⟩)⟩
  generalize scan.scheduleFirstEvents env req = events at houtcome
  generalize (scan.scheduleFirst env req).2 = after at houtcome ⊢
  cases houtcome with
  | noChecks => exact ⟨h, fun _ => id⟩
  | @nothing check checks _ _ hlist hnothing =>
    obtain ⟨hmoves, hcounts⟩ := hscheduled hlist hnothing
    refine ⟨(h.allocRunner req check checks).of_actsFor hmoves.acts ?_ hmoves.current
      fun hpending => absurd (hmoves.failed rfl) hpending, hcounts⟩
    simp only [Scan.allocRunner, Heap.next_alloc]
    exact hnext
  | @started check checks _ last hlist hstarted =>
    obtain ⟨hmoves, hcounts⟩ := hscheduled hlist hstarted
    have hnot : scan.runnerMem.next ∉ last.selectiveAuditor.runners := by
      rw [hmoves.selectiveAuditor]
      exact fun hmem => Nat.lt_irrefl _ (h.runners _ hmem)
    refine ⟨(h.allocRunner req check checks).of_actsFor
      (hmoves.acts.trans (pushRunner_actsFor hnot)) ?_ ?_ fun _ => ?_, fun callbacks hold => ?_⟩
    · simp only [Scan.allocRunner, Heap.next_alloc]
      exact hnext
    · exact ⟨hmoves.current.pending, hmoves.current.room, hmoves.current.finished⟩
    · simp [pushRunner]
    · exact ⟨(hcounts callbacks hold).allocated, (hcounts callbacks hold).requestsCompleted⟩

/-- A callback is counted and evaluated. -/
theorem Attended.evaluateCallback (env : ScanEnv) {scan : Scan} {req p : Nat} (transfer : Transfer)
    (h : scan.Attended) (hout : req ∈ scan.outstanding)
    (hhandler : (deref scan.mem req).requestHandler = some (.securityCheckRunner p)) :
    (((scan.receive req transfer).counted p).evaluateCallback env p req).Attended ∧
      ∀ callbacks, scan.Counts callbacks →
        (((scan.receive req transfer).counted p).evaluateCallback env p req).Counts
          (callbacks ++ [(p, req)]) := by
  have hmem : req ∈ scan.pending p := mem_pending.mpr ⟨hout, hhandler⟩
  have hheld : p ∈ scan.selectiveAuditor.runners := h.held p (List.ne_nil_of_mem hmem)
  have hp := h.runners p hheld
  obtain ⟨hacts, hpending⟩ := evaluateCallback_actsFor env transfer h.allocated hhandler
  obtain ⟨hrunner, hauditor⟩ := evaluateCallback_runner env req transfer hp
  have hframe := (evaluateCallback_extends env scan p req transfer).next
  generalize ((scan.receive req transfer).counted p).evaluateCallback env p req = evaluated
    at hacts hpending hrunner hauditor hframe ⊢
  have hlength : (evaluated.pending p).length = (scan.pending p).length - 1 := by
    rw [hpending, List.length_erase_of_mem hmem]
  have hsome : 0 < (scan.pending p).length := List.length_pos_of_mem hmem
  have hroom := (h.current p).room
  refine ⟨h.of_actsFor hacts hp ⟨fun r hr => ?_, ?_, fun hfinished => ?_⟩
    fun _ => hauditor ▸ hheld, fun callbacks hcounts => ⟨fun callback hcallback => ?_, fun q => ?_⟩⟩
  · rw [hpending] at hr
    rw [hrunner]
    exact (h.current p).pending r (List.mem_of_mem_erase hr)
  · rw [hrunner]
    simp only [SecurityCheckRunner.countCallback, hlength]
    omega
  · rw [hrunner] at hfinished
    simp only [SecurityCheckRunner.countCallback] at hfinished
    split at hfinished
    · exact List.eq_nil_of_length_eq_zero (by omega)
    · have hidle := (h.current p).finished hfinished
      rw [hidle] at hmem
      cases hmem
  · rcases List.mem_append.mp hcallback with hcallback | hcallback
    · exact Nat.lt_of_lt_of_le (hcounts.allocated callback hcallback) hframe
    · rw [List.mem_singleton.mp hcallback]
      exact Nat.lt_of_lt_of_le (h.allocated req hout) hframe
  · by_cases hq : q = p
    · subst hq
      rw [hrunner, List.countP_append, List.countP_singleton]
      simp only [SecurityCheckRunner.countCallback, (h.current q).pending req hmem, and_self,
        decide_true, if_true]
      exact congrArg (· + 1) (hcounts.requestsCompleted q)
    · rw [hacts.runnerAt q hq, List.countP_append, List.countP_singleton]
      simp only [Ne.symm hq, false_and, decide_false, Bool.false_eq_true, if_false, Nat.add_zero]
      exact hcounts.requestsCompleted q

theorem finishedCheckCbRuns_eq {scan : Scan} {p : Nat} {runner : SecurityCheckRunner}
    (hfinished : (scan.runnerAt p).finished = true)
    (hnext : ((scan.scrapeRequests env p).runnerAt p).setNextCheck = some runner) :
    scan.finishedCheckCbRuns env p = (scheduleChecksRuns env p runner.nextChecks
      ((scan.scrapeRequests env p).setRunner p runner)).map (·, p) := by
  have hp := allocated_scrapeRequests env hfinished
  simp only [finishedCheckCbRuns, hnext, scheduleNextCheckRuns, runnerAt_setRunner _ hp]

/-- What a callback keeps after its evaluation, where no failed `Run` leaves a request
    behind. -/
theorem Attended.of_doneOutcome {scan after : Scan} {p : Nat} {events : List AuditEvent}
    (h : scan.Attended) (hheld : p ∈ scan.selectiveAuditor.runners)
    (houtcome : DoneOutcome env scan p events after)
    (hleaves : (scan.runnerAt p).finished = true →
      ∀ call ∈ scan.finishedCheckCbRuns env p, call.1.LeavesNothing env call.2) :
    after.Attended ∧ ∀ callbacks, scan.Counts callbacks → after.Counts callbacks := by
  have hsame := scrapeRequests_sameAudits env scan p
  have hscraped : ActsFor p scan (scan.scrapeRequests env p) := hsame.actsFor h.allocated
  have hframe := hsame.frame.next_le
  have hset (runner : SecurityCheckRunner) :
      ActsFor p scan ((scan.scrapeRequests env p).setRunner p runner) :=
    hscraped.trans (setRunner_actsFor _ p runner)
  have hpending : (scan.scrapeRequests env p).pending p = scan.pending p :=
    hsame.pending h.allocated p
  -- The checks that are run after the one that is done.
  have hscheduled {runner : SecurityCheckRunner} {events : List AuditEvent} {done : Bool}
      {last : Scan} (hfinished : (scan.runnerAt p).finished = true)
      (hnext : ((scan.scrapeRequests env p).runnerAt p).setNextCheck = some runner)
      (hscheduled : Scheduled env p runner.nextChecks
        ((scan.scrapeRequests env p).setRunner p runner) events done last) :
      MovesOn p ((scan.scrapeRequests env p).setRunner p runner) done last ∧
        ActsFor p scan last ∧ ∀ callbacks, scan.Counts callbacks → last.Counts callbacks := by
    have hleaves := hleaves hfinished
    rw [finishedCheckCbRuns_eq hfinished hnext] at hleaves
    have hmoves := hscheduled.movesOn ((hset runner).allocated h.allocated)
      (hpending.trans ((h.current p).finished hfinished))
      fun middle hmem => hleaves _ (List.mem_map_of_mem hmem)
    have hacts := (hset runner).trans hmoves.acts
    exact ⟨hmoves, hacts, fun callbacks hcounts => hcounts.of_runner
      (Nat.le_trans hframe hmoves.next) hacts.runnerAt (Or.inr ⟨hmoves.requestsCompleted,
        fun req hreq => Nat.le_trans hframe (hmoves.requests req hreq)⟩)⟩
  cases houtcome with
  | waiting => exact ⟨h, fun _ => id⟩
  | ended hfinished hlast =>
    have hp := allocated_of_finished hfinished
    have hnone : ((scan.scrapeRequests env p).eraseRunner p).pending p = [] :=
      hpending.trans ((h.current p).finished hfinished)
    have hrunner : ((scan.scrapeRequests env p).eraseRunner p).runnerAt p = scan.runnerAt p :=
      hsame.runnerAt p
    have hacts := hscraped.trans (eraseRunner_actsFor (scan.scrapeRequests env p) p)
    refine ⟨h.of_actsFor hacts hp ⟨fun req hreq => ?_, ?_, fun _ => hnone⟩
      fun hsome => absurd hnone hsome, fun callbacks hcounts =>
        hcounts.of_runner hframe hacts.runnerAt (Or.inl hrunner)⟩
    · rw [hnone] at hreq
      cases hreq
    · have hroom := (h.current p).room
      rw [hnone, hrunner, List.length_nil]
      omega
  | goesOn hfinished hnext hgoes =>
    obtain ⟨hmoves, hacts, hcounts⟩ := hscheduled hfinished hnext hgoes
    refine ⟨h.of_actsFor hacts (allocated_of_finished hfinished) hmoves.current fun _ => ?_,
      hcounts⟩
    rw [hmoves.selectiveAuditor]
    exact hsame.selectiveAuditor ▸ hheld
  | @exhausted runner _ last hfinished hnext hexhausted =>
    obtain ⟨hmoves, hacts, hcounts⟩ := hscheduled hfinished hnext hexhausted
    refine ⟨h.of_actsFor (hacts.trans (eraseRunner_actsFor last p))
      (allocated_of_finished hfinished)
      ⟨hmoves.current.pending, hmoves.current.room, hmoves.current.finished⟩
      fun hsome => absurd (hmoves.failed rfl) hsome,
      fun callbacks hold => ⟨(hcounts callbacks hold).allocated,
        (hcounts callbacks hold).requestsCompleted⟩⟩

/-- What a callback of a runner keeps, where no failed `Run` leaves a request behind. -/
theorem Attended.runnerCallback {scan : Scan} {req p : Nat} (h : scan.Attended)
    (transfer : Transfer) (hout : req ∈ scan.outstanding)
    (hhandler : (deref scan.mem req).requestHandler = some (.securityCheckRunner p))
    (hleaves : ∀ call ∈ (scan.receive req transfer).runnerCallbackRuns env p req,
      call.1.LeavesNothing env call.2) :
    ((scan.receive req transfer).runnerCallback env p req).Attended ∧
      ∀ callbacks, scan.Counts callbacks →
        ((scan.receive req transfer).runnerCallback env p req).Counts
          (callbacks ++ [(p, req)]) := by
  obtain ⟨hevaluated, hcounts⟩ := h.evaluateCallback env transfer hout hhandler
  obtain ⟨events, houtcome, _⟩ := runnerCallback_outcome env (scan.receive req transfer) p req
  have hheld : p ∈ scan.selectiveAuditor.runners :=
    h.held p (List.ne_nil_of_mem (mem_pending.mpr ⟨hout, hhandler⟩))
  have hauditor := (evaluateCallback_runner env req transfer (h.runners p hheld)).2
  unfold runnerCallbackRuns at hleaves
  dsimp only at hleaves
  generalize ((scan.receive req transfer).counted p).evaluateCallback env p req = evaluated
    at hevaluated hcounts houtcome hauditor hleaves
  obtain ⟨hafter, hcounts'⟩ := hevaluated.of_doneOutcome (hauditor ▸ hheld) houtcome
    fun hfinished call hmem => hleaves call (by rwa [if_pos hfinished])
  exact ⟨hafter, fun callbacks hold => hcounts' _ (hcounts callbacks hold)⟩

/-- The calls of `Run` for a request that is given to the auditor are for fresh runners. -/
theorem Attended.fresh_of_scheduleFirst {scan : Scan} {req : Nat} (h : scan.Attended) :
    ∀ call ∈ scan.scheduleFirstRuns env req,
      (∃ checks, call.1.Fresh call.2 checks) ∧ call.1.Allocated := by
  intro call hmem
  cases hlist : scan.selectiveAuditor.checks with
  | nil =>
    rw [scheduleFirstRuns, hlist] at hmem
    cases hmem
  | cons check checks =>
    rw [scheduleFirstRuns_eq hlist] at hmem
    obtain ⟨middle, hmiddle, rfl⟩ := List.mem_map.mp hmem
    exact ((allocRunner_fresh scan check checks req).scheduled env).fresh_of_mem_runs h.allocated
      middle hmiddle

/-- The calls of `Run` in a callback are for fresh runners. -/
theorem Attended.fresh_of_runnerCallback {scan : Scan} {req p : Nat} (h : scan.Attended)
    (transfer : Transfer) (hhandler : (deref scan.mem req).requestHandler =
      some (.securityCheckRunner p)) :
    ∀ call ∈ (scan.receive req transfer).runnerCallbackRuns env p req,
      (∃ checks, call.1.Fresh call.2 checks) ∧ call.1.Allocated := by
  have hallocated := (evaluateCallback_actsFor env transfer h.allocated hhandler).1.allocated
    h.allocated
  intro call hmem
  unfold runnerCallbackRuns at hmem
  dsimp only at hmem
  generalize ((scan.receive req transfer).counted p).evaluateCallback env p req = evaluated
    at hallocated hmem
  split at hmem
  · rename_i hfinished
    have hscraped : ActsFor p evaluated (evaluated.scrapeRequests env p) :=
      (scrapeRequests_sameAudits env evaluated p).actsFor hallocated
    cases hnext : ((evaluated.scrapeRequests env p).runnerAt p).setNextCheck with
    | none =>
      simp only [finishedCheckCbRuns, hnext, List.not_mem_nil] at hmem
    | some runner =>
      rw [finishedCheckCbRuns_eq hfinished hnext] at hmem
      obtain ⟨middle, hmiddle, rfl⟩ := List.mem_map.mp hmem
      have hfresh := (Fresh.of_setNextCheck _ (allocated_scrapeRequests env hfinished) hnext).1
      exact (hfresh.scheduled env).fresh_of_mem_runs
        ((setRunner_actsFor _ p runner).allocated (hscraped.allocated hallocated)) middle hmiddle
  · cases hmem

end

end Scan

end plusfish

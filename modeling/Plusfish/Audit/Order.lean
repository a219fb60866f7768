import Plusfish.Audit.Pending
import Plusfish.Audit.Tally
import Plusfish.Library.History

open memory transition history

namespace plusfish

namespace Scan

section
variable {env : ScanEnv} {checks : List SecurityCheck}

/-- The check of a runner is done, and these are still to be run. -/
structure Idle (checks : List SecurityCheck) (scan : Scan) (events : List AuditEvent) (p : Nat)
    (remaining : List SecurityCheck) : Prop where
  answered : Answered p events
  pending : scan.pending p = []
  checks : checksRun p events ++ remaining = checks

/-- The check of a runner has requests that have not been called back. -/
structure Awaits (checks : List SecurityCheck) (scan : Scan) (events : List AuditEvent)
    (p : Nat) : Prop where
  answered : (awaited p events).Perm (called p events ++ scan.pending p)
  pending : scan.pending p ≠ []
  count : (scan.runnerAt p).requestsCompleted + (scan.pending p).length =
    (scan.runnerAt p).requests.length
  finished : (scan.runnerAt p).finished = false
  checks : checksRun p events ++ (scan.runnerAt p).nextChecks = checks

/-- The moments at which a check may be run and a runner erased. -/
def Timely (checks : List SecurityCheck) (past : List AuditEvent) : AuditEvent → Prop
  | .ran p _ _ _ _ => Answered p past
  | .erased p => Answered p past ∧ checksRun p past = checks
  | _ => True

/-- Each check whose `Run` returned true has scheduled a request. -/
def SomeScheduled (events : List AuditEvent) : Prop :=
  ∀ p check positive requests, .ran p check positive requests true ∈ events → requests ≠ []

theorem SomeScheduled.of_append {past events : List AuditEvent}
    (h : SomeScheduled (past ++ events)) : SomeScheduled past ∧ SomeScheduled events :=
  ⟨fun p check positive requests hmem => h p check positive requests (List.mem_append_left _ hmem),
    fun p check positive requests hmem =>
      h p check positive requests (List.mem_append_right _ hmem)⟩

/-- What one call of `Run` leads to. -/
theorem Idle.run (haccepts : ∀ i, env.accepts i = true) {scan after : Scan}
    {events : List AuditEvent} {p : Nat} {nextChecks : List SecurityCheck} {done : Bool}
    (h : Idle checks scan events p ((scan.runnerAt p).securityCheck :: nextChecks))
    (hallocated : scan.Allocated) (hfresh : scan.Fresh p nextChecks)
    (hrun : scan.run env p = (done, after)) :
    Timely checks events (scan.runEvent env p) ∧ after.Allocated ∧
      (done = false → Idle checks after (events ++ [scan.runEvent env p]) p nextChecks) ∧
      (done = true → SomeScheduled [scan.runEvent env p] →
        Awaits checks after (events ++ [scan.runEvent env p]) p) := by
  have houtcome := hfresh.run_outcome env hrun
  have hpending := hfresh.run_pending haccepts hallocated hrun p
  rw [if_pos rfl, h.pending, List.nil_append] at hpending
  have hchecks : checksRun p [scan.runEvent env p] = [(scan.runnerAt p).securityCheck] := by
    simp [checksRun, houtcome.event, AuditEvent.checkRun]
  have hcalled : called p [scan.runEvent env p] = [] := by
    simp [called, houtcome.event, AuditEvent.calledFor]
  refine ⟨?_, (houtcome.extends hallocated).allocated hallocated, fun hdone => ?_,
    fun hdone hsome => ?_⟩
  · rw [houtcome.event]
    exact h.answered
  · subst hdone
    have hawaited : awaited p [scan.runEvent env p] = [] := by
      simp [awaited, houtcome.event, AuditEvent.scheduledFor]
    refine ⟨?_, hpending, ?_⟩
    · rw [Answered, awaited_append, called_append, hawaited, hcalled, List.append_nil,
        List.append_nil]
      exact h.answered
    · rw [checksRun_append, hchecks, List.append_assoc, List.singleton_append]
      exact h.checks
  · subst hdone
    have hawaited : awaited p [scan.runEvent env p] = scan.newAddresses env p := by
      simp [awaited, houtcome.event, AuditEvent.scheduledFor]
    have hne : scan.newAddresses env p ≠ [] :=
      hsome p _ _ _ (List.mem_singleton.mpr houtcome.event.symm)
    refine ⟨?_, ?_, ?_, ?_, ?_⟩
    · rw [awaited_append, called_append, hawaited, hcalled, List.append_nil, hpending]
      exact h.answered.append_right _
    · rw [hpending]
      exact hne
    · rw [houtcome.runner, hpending, hfresh.requestsCompleted]
      simp
    · rw [houtcome.runner]
      exact hfresh.notFinished
    · rw [houtcome.runner, checksRun_append, hchecks, hfresh.nextChecks, List.append_assoc,
        List.singleton_append]
      exact h.checks

/-- What `ScheduleNextCheck` leads to. -/
theorem Idle.scheduled (haccepts : ∀ i, env.accepts i = true) {scan last : Scan}
    {past events : List AuditEvent} {p : Nat} {nextChecks : List SecurityCheck} {done : Bool}
    (hscheduled : Scheduled env p nextChecks scan events done last)
    (h : Idle checks scan past p ((scan.runnerAt p).securityCheck :: nextChecks))
    (hallocated : scan.Allocated) (hsome : SomeScheduled events) :
    Follows (Timely checks) past events ∧
      (done = false → Idle checks last (past ++ events) p []) ∧
      (done = true → Awaits checks last (past ++ events) p) := by
  induction hscheduled generalizing past with
  | ran hfresh hrun =>
    obtain ⟨htimely, _, _, hawaits⟩ := h.run haccepts hallocated hfresh hrun
    exact ⟨follows_singleton.mpr htimely, (fun hdone => by cases hdone),
      fun _ => hawaits rfl hsome⟩
  | last hfresh hrun =>
    obtain ⟨htimely, _, hidle, _⟩ := h.run haccepts hallocated hfresh hrun
    exact ⟨follows_singleton.mpr htimely, fun _ => hidle rfl, fun hdone => by cases hdone⟩
  | @skipped check nextChecks scan after last runner events done hfresh hrun hnext hrest ih =>
    obtain ⟨htimely, hallocated', hidle, _⟩ := h.run haccepts hallocated hfresh hrun
    have houtcome := hfresh.run_outcome env hrun
    obtain ⟨runner', hnext', hcheck, _, hrunner, _⟩ := hfresh.moveOn houtcome.runs houtcome.runner
    obtain rfl : runner = runner' := Option.some.inj (hnext.symm.trans hnext')
    have hidle' : Idle checks (after.setRunner p runner) (past ++ [scan.runEvent env p]) p
        (((after.setRunner p runner).runnerAt p).securityCheck :: nextChecks) := by
      obtain ⟨hanswered, hpending, hchecks⟩ := hidle rfl
      rw [hrunner, hcheck]
      exact ⟨hanswered, hpending, hchecks⟩
    have hlater : SomeScheduled events := fun q check positive requests hmem =>
      hsome q check positive requests (List.mem_cons_of_mem _ hmem)
    obtain ⟨hfollows, hlast, hawaits⟩ := ih hidle' hallocated' hlater
    rw [List.append_assoc, List.singleton_append] at hlast hawaits
    exact ⟨⟨htimely, hfollows⟩, hlast, hawaits⟩

/-- The audit that a runner carries out: while the auditor holds the runner, requests of its
    check are awaited, and all the checks have been run for a runner that it does not hold. -/
inductive Audit (checks : List SecurityCheck) (scan : Scan) (events : List AuditEvent) (p : Nat) :
    Prop
  | held (hmem : p ∈ scan.selectiveAuditor.runners) (hawaits : Awaits checks scan events p)
      (hstored : storings p events = 1) (herased : erasures p events = 0)
  | gone (hmem : p ∉ scan.selectiveAuditor.runners) (hidle : Idle checks scan events p [])
      (hstored : storings p events ≤ 1) (herased : erasures p events = storings p events)

theorem Idle.frame {scan scan' : Scan} {events new : List AuditEvent} {p : Nat}
    {remaining : List SecurityCheck} (h : Idle checks scan events p remaining)
    (hpending : scan'.pending p = scan.pending p) (hquiet : Quiet p new) :
    Idle checks scan' (events ++ new) p remaining where
  answered := by
    rw [Answered, awaited_append, called_append, hquiet.awaited, hquiet.called,
      List.append_nil, List.append_nil]
    exact h.answered
  pending := hpending.trans h.pending
  checks := by
    rw [checksRun_append, hquiet.checksRun, List.append_nil]
    exact h.checks

theorem Awaits.frame {scan scan' : Scan} {events new : List AuditEvent} {p : Nat}
    (h : Awaits checks scan events p) (hpending : scan'.pending p = scan.pending p)
    (hrunner : scan'.runnerAt p = scan.runnerAt p) (hquiet : Quiet p new) :
    Awaits checks scan' (events ++ new) p where
  answered := by
    rw [awaited_append, called_append, hquiet.awaited, hquiet.called, List.append_nil,
      List.append_nil, hpending]
    exact h.answered
  pending := hpending ▸ h.pending
  count := by
    rw [hrunner, hpending]
    exact h.count
  finished := by
    rw [hrunner]
    exact h.finished
  checks := by
    rw [hrunner, checksRun_append, hquiet.checksRun, List.append_nil]
    exact h.checks

/-- The audit of a runner goes on as it was where something is done for another one. -/
theorem Audit.frame {scan scan' : Scan} {events new : List AuditEvent} {p : Nat}
    (h : Audit checks scan events p) (hpending : scan'.pending p = scan.pending p)
    (hrunner : scan'.runnerAt p = scan.runnerAt p)
    (hheld : p ∈ scan'.selectiveAuditor.runners ↔ p ∈ scan.selectiveAuditor.runners)
    (hsilent : Silent p new) : Audit checks scan' (events ++ new) p := by
  have hstorings : storings p (events ++ new) = storings p events := by
    rw [storings_append, hsilent.storings, Nat.add_zero]
  have herasures : erasures p (events ++ new) = erasures p events := by
    rw [erasures_append, hsilent.erasures, Nat.add_zero]
  cases h with
  | held hmem hawaits hstored herased =>
    exact .held (hheld.mpr hmem) (hawaits.frame hpending hrunner hsilent.toQuiet)
      (hstorings.trans hstored) (herasures.trans herased)
  | gone hmem hidle hstored herased =>
    exact .gone (fun h => hmem (hheld.mp h)) (hidle.frame hpending hsilent.toQuiet)
      (hstorings ▸ hstored) (by rw [hstorings, herasures, herased])

/-- A callback is counted: the runner awaits other ones, or its check is done. -/
theorem Awaits.callback {scan after : Scan} {events new : List AuditEvent} {p req : Nat}
    (h : Awaits checks scan events p) (hreq : req ∈ scan.pending p)
    (hrunner : after.runnerAt p = (scan.runnerAt p).countCallback)
    (hpending : after.pending p = (scan.pending p).erase req) (hquiet : Quiet p new) :
    ((after.runnerAt p).finished = false →
      Awaits checks after (events ++ .calledBack p req :: new) p) ∧
    ((after.runnerAt p).finished = true →
      Idle checks after (events ++ .calledBack p req :: new) p (after.runnerAt p).nextChecks) := by
  have hcalled : called p (events ++ .calledBack p req :: new) = called p events ++ [req] := by
    rw [called_append, ← List.singleton_append, called_append, hquiet.called]
    simp [called, AuditEvent.calledFor]
  have hawaited : awaited p (events ++ .calledBack p req :: new) = awaited p events := by
    rw [awaited_append, ← List.singleton_append, awaited_append, hquiet.awaited]
    simp [awaited, AuditEvent.scheduledFor]
  have hchecks : checksRun p (events ++ .calledBack p req :: new) = checksRun p events := by
    rw [checksRun_append, ← List.singleton_append, checksRun_append, hquiet.checksRun]
    simp [checksRun, AuditEvent.checkRun]
  have hperm : (awaited p events).Perm
      (called p events ++ [req] ++ (scan.pending p).erase req) := by
    rw [List.append_assoc, List.singleton_append]
    exact h.answered.trans ((List.perm_cons_erase hreq).append_left _)
  have hlength := List.length_erase_of_mem hreq
  have hpos := List.length_pos_of_mem hreq
  have hcount := h.count
  -- The count is full exactly where no request of the runner is pending any more.
  have hfull : (scan.runnerAt p).countCallback.finished = true ↔
      (scan.pending p).erase req = [] := by
    rw [← List.length_eq_zero_iff]
    simp only [SecurityCheckRunner.countCallback, h.finished]
    split
    · rename_i heq
      exact iff_of_true rfl (by omega)
    · rename_i hne
      exact iff_of_false Bool.false_ne_true (by omega)
  rw [hrunner]
  refine ⟨fun hunfinished => ⟨?_, ?_, ?_, ?_, ?_⟩, fun hfinished => ⟨?_, ?_, ?_⟩⟩
  · rw [hawaited, hcalled, hpending]
    exact hperm
  · rw [hpending]
    intro hnil
    rw [hfull.mpr hnil] at hunfinished
    cases hunfinished
  · rw [hrunner, hpending]
    simp only [SecurityCheckRunner.countCallback]
    omega
  · rw [hrunner]
    exact hunfinished
  · rw [hrunner, hchecks]
    exact h.checks
  · rw [Answered, hawaited, hcalled]
    rwa [hfull.mp hfinished, List.append_nil] at hperm
  · rw [hpending, hfull.mp hfinished]
  · rw [hchecks]
    exact h.checks

theorem Scheduled.tally {scan last : Scan} {events : List AuditEvent} {p : Nat}
    {nextChecks : List SecurityCheck} {done : Bool}
    (h : Scheduled env p nextChecks scan events done last) (q : Nat) :
    storings q events = 0 ∧ erasures q events = 0 := by
  induction h with
  | ran | last => exact ⟨rfl, rfl⟩
  | skipped _ _ _ _ ih =>
    exact ⟨(List.countP_cons_of_neg Bool.false_ne_true).trans ih.1,
      (List.countP_cons_of_neg Bool.false_ne_true).trans ih.2⟩

theorem timely_of_mem_evaluateCallbackEvents {scan : Scan} {p req : Nat} :
    ∀ event ∈ scan.evaluateCallbackEvents p req, ∀ past, Timely checks past event := by
  intro event hmem past
  cases event with
  | ran | erased => simp [evaluateCallbackEvents] at hmem
  | _ => trivial

/-- The runner of which all checks are done is erased. -/
theorem Idle.erase {scan : Scan} {events : List AuditEvent} {p : Nat}
    (h : Idle checks scan events p []) (hnodup : scan.selectiveAuditor.runners.Nodup)
    (hmem : p ∈ scan.selectiveAuditor.runners) (hstored : storings p events = 1)
    (herased : erasures p events = 0) :
    Follows (Timely checks) events (scan.eraseRunnerEvents p) ∧
      Audit checks (scan.eraseRunner p) (events ++ scan.eraseRunnerEvents p) p := by
  have heq : scan.eraseRunnerEvents p = [.erased p] := if_pos hmem
  have hstorings : storings p [.erased p] = 0 := rfl
  have herasures : erasures p [.erased p] = 1 := by simp [erasures, AuditEvent.isErased]
  rw [heq]
  refine ⟨follows_singleton.mpr ⟨h.answered, (List.append_nil _).symm.trans h.checks⟩,
    .gone (fun hin => (hnodup.mem_erase_iff.mp hin).1 rfl) (h.frame rfl ⟨rfl, rfl, rfl⟩) ?_ ?_⟩
  · exact Nat.le_of_eq (by rw [storings_append, hstored, hstorings])
  · rw [storings_append, erasures_append, hstored, hstorings, herased, herasures]

/-- What becomes of the audit of a runner after the evaluation of its callback. -/
theorem Audit.of_doneOutcome (haccepts : ∀ i, env.accepts i = true) {scan after : Scan}
    {past events : List AuditEvent} {p : Nat} (houtcome : DoneOutcome env scan p events after)
    (hallocated : scan.Allocated) (hnodup : scan.selectiveAuditor.runners.Nodup)
    (hmem : p ∈ scan.selectiveAuditor.runners) (hstored : storings p past = 1)
    (herased : erasures p past = 0)
    (hawaits : (scan.runnerAt p).finished = false → Awaits checks scan past p)
    (hidle : (scan.runnerAt p).finished = true →
      Idle checks scan past p (scan.runnerAt p).nextChecks)
    (hsome : SomeScheduled events) :
    Follows (Timely checks) past events ∧ Audit checks after (past ++ events) p := by
  have hsame := scrapeRequests_sameAudits env scan p
  have hscraped : ActsFor p scan (scan.scrapeRequests env p) := hsame.actsFor hallocated
  have hpending := hsame.pending hallocated p
  have hrunner := hsame.runnerAt p
  have hauditor := hsame.selectiveAuditor
  -- The checks that the scheduling starts from, where there is a next check.
  have hnext {runner : SecurityCheckRunner} (hfinished : (scan.runnerAt p).finished = true)
      (hnext : ((scan.scrapeRequests env p).runnerAt p).setNextCheck = some runner) :
      Idle checks ((scan.scrapeRequests env p).setRunner p runner) past p
        ((((scan.scrapeRequests env p).setRunner p runner).runnerAt p).securityCheck ::
          runner.nextChecks) := by
    have hp := allocated_scrapeRequests env hfinished
    obtain ⟨_, hcons⟩ := Fresh.of_setNextCheck _ hp hnext
    obtain ⟨hanswered, hnone, hchecks⟩ := hidle hfinished
    rw [runnerAt_setRunner _ hp, ← hcons, hrunner]
    exact ⟨hanswered, hpending.trans hnone, hchecks⟩
  have hset (runner : SecurityCheckRunner) :
      ((scan.scrapeRequests env p).setRunner p runner).Allocated :=
    hscraped.allocated hallocated
  cases houtcome with
  | waiting hunfinished =>
    rw [List.append_nil]
    exact ⟨trivial, .held hmem (hawaits hunfinished) hstored herased⟩
  | ended hfinished hlast =>
    have hnone : (scan.runnerAt p).nextChecks = [] := by
      rw [hrunner, SecurityCheckRunner.setNextCheck] at hlast
      cases hlist : (scan.runnerAt p).nextChecks with
      | nil => rfl
      | cons =>
        rw [hlist] at hlast
        cases hlast
    obtain ⟨hanswered, hempty, hchecks⟩ := hidle hfinished
    rw [hnone] at hchecks
    exact Idle.erase ⟨hanswered, hpending.trans hempty, hchecks⟩ (hauditor ▸ hnodup)
      (hauditor ▸ hmem) hstored herased
  | goesOn hfinished hsomeNext hscheduled =>
    obtain ⟨hfollows, _, hlater⟩ :=
      Idle.scheduled haccepts hscheduled (hnext hfinished hsomeNext) (hset _) hsome
    obtain ⟨hstorings, herasures⟩ := hscheduled.tally p
    refine ⟨hfollows, .held ?_ (hlater rfl) ?_ ?_⟩
    · rw [hscheduled.runsFor.selectiveAuditor]
      exact hauditor ▸ hmem
    · rw [storings_append, hstored, hstorings]
    · rw [erasures_append, herased, herasures]
  | @exhausted _ events after hfinished hsomeNext hscheduled =>
    obtain ⟨hfollows, hlater, _⟩ := Idle.scheduled haccepts hscheduled (hnext hfinished hsomeNext)
      (hset _) hsome.of_append.1
    obtain ⟨hstorings, herasures⟩ := hscheduled.tally p
    have hkept : after.selectiveAuditor = scan.selectiveAuditor :=
      hscheduled.runsFor.selectiveAuditor.trans hauditor
    obtain ⟨hlast, haudit⟩ := (hlater rfl).erase (hkept ▸ hnodup) (hkept ▸ hmem)
      (by rw [storings_append, hstored, hstorings]) (by rw [erasures_append, herased, herasures])
    rw [List.append_assoc] at haudit
    exact ⟨follows_append.mpr ⟨hfollows, hlast⟩, haudit⟩

end

/-- A scan in which a runner has been made, unless it was there before. -/
structure HasRunner (p : Nat) (scan middle : Scan) : Prop where
  runner : p < middle.runnerMem.next
  next : scan.runnerMem.next ≤ middle.runnerMem.next
  others : ∀ q ≠ p, q < middle.runnerMem.next → q < scan.runnerMem.next
  runnerAt : ∀ q ≠ p, middle.runnerAt q = scan.runnerAt q
  pending : ∀ q, middle.pending q = scan.pending q
  selectiveAuditor : middle.selectiveAuditor = scan.selectiveAuditor
  handled : scan.Handled → middle.Handled
  allocated : scan.Allocated → middle.Allocated

theorem HasRunner.refl {p : Nat} {scan : Scan} (hp : p < scan.runnerMem.next) :
    HasRunner p scan scan :=
  ⟨hp, Nat.le_refl _, fun _ _ => id, fun _ _ => rfl, fun _ => rfl, rfl, id, id⟩

theorem HasRunner.allocRunner (scan : Scan) (req : Nat) (check : SecurityCheck)
    (checks : List SecurityCheck) :
    HasRunner scan.runnerMem.next scan (scan.allocRunner req check checks) := by
  have hnext : (scan.allocRunner req check checks).runnerMem.next = scan.runnerMem.next + 1 := by
    simp [Scan.allocRunner]
  constructor
  · omega
  · omega
  · intro q hq hlt
    omega
  · exact fun q hq => allocRunner_runnerAt scan req check checks hq
  · exact fun q => rfl
  · rfl
  · intro h r hmem
    obtain ⟨q, hq, hr⟩ := h r hmem
    exact ⟨q, by omega, hr⟩
  · exact id

end Scan

namespace AuditHistory

open Scan (AuditOp Audit Timely SomeScheduled Handled)

/-- What holds of the audits in a run in which every request is accepted. -/
structure Orderly (checks : List SecurityCheck) (history : AuditHistory) : Prop where
  registered : history.scan.selectiveAuditor.checks = checks
  nodup : history.scan.selectiveAuditor.runners.Nodup
  runners : ∀ p ∈ history.scan.selectiveAuditor.runners, p < history.scan.runnerMem.next
  allocated : history.scan.Allocated
  handled : history.scan.Handled
  heard : ∀ event ∈ history.events, event.runner < history.scan.runnerMem.next
  audits : ∀ p < history.scan.runnerMem.next, Audit checks history.scan history.events p
  follows : Follows (Timely checks) [] history.events

section
variable {env : ScanEnv} {checks : List SecurityCheck}

/-- What is kept for the other runners where something is done for one that the scan has. -/
theorem Orderly.of_actsFor {history : AuditHistory} (h : history.Orderly checks)
    {middle last : Scan} {p : Nat} {events : List AuditEvent}
    (hhas : Scan.HasRunner p history.scan middle) (hacts : Scan.ActsFor p middle last)
    (hevents : ∀ event ∈ events, event.runner = p)
    (haudit : Audit checks last (history.events ++ events) p)
    (hfollows : Follows (Timely checks) history.events events) :
    Orderly checks ⟨last, history.events ++ events⟩ := by
  have hauditor := hhas.selectiveAuditor
  refine ⟨hacts.checks.trans (hauditor ▸ h.registered), hacts.nodup (hauditor ▸ h.nodup),
    fun q hq => ?_, hacts.allocated (hhas.allocated h.allocated),
    hacts.handled hhas.runner (hhas.handled h.handled), fun event hmem => ?_, fun q hq => ?_,
    follows_append.mpr ⟨h.follows, hfollows⟩⟩
  · rw [hacts.runnerNext]
    by_cases hqp : q = p
    · exact hqp ▸ hhas.runner
    · have hheld := (hacts.runners q hqp).mp hq
      rw [hauditor] at hheld
      exact Nat.lt_of_lt_of_le (h.runners q hheld) hhas.next
  · rw [hacts.runnerNext]
    rcases List.mem_append.mp hmem with hmem | hmem
    · exact Nat.lt_of_lt_of_le (h.heard event hmem) hhas.next
    · exact hevents event hmem ▸ hhas.runner
  · by_cases hqp : q = p
    · exact hqp ▸ haudit
    · rw [hacts.runnerNext] at hq
      refine (h.audits q (hhas.others q hqp hq)).frame
        ((hacts.pending q hqp).trans (hhas.pending q))
        ((hacts.runnerAt q hqp).trans (hhas.runnerAt q hqp)) ?_
        (silent_of_runner_ne fun event hmem => ?_)
      · rw [hacts.runners q hqp, hauditor]
      · rw [hevents event hmem]
        exact Ne.symm hqp

theorem Orderly.callback (haccepts : ∀ i, env.accepts i = true) {history next : AuditHistory}
    {req p : Nat} {transfer : Transfer} {events : List AuditEvent} (h : history.Orderly checks)
    (hout : req ∈ history.scan.outstanding)
    (hhandler : (deref history.scan.mem req).requestHandler = some (.securityCheckRunner p))
    (houtcome : Scan.DoneOutcome env
      (((history.scan.receive req transfer).counted p).evaluateCallback env p req)
        p events next.scan)
    (heq : next.events = history.events ++ (.calledBack p req ::
      ((history.scan.receive req transfer).counted p).evaluateCallbackEvents p req ++ events))
    (hsome : SomeScheduled next.events) : next.Orderly checks := by
  have hpending : req ∈ history.scan.pending p := Scan.mem_pending.mpr ⟨hout, hhandler⟩
  have hp : p < history.scan.runnerMem.next := by
    obtain ⟨q, hq, hreq⟩ := h.handled req hout
    have hother := (Scan.mem_pending.mp hreq).2
    rw [hhandler] at hother
    cases hother
    exact hq
  obtain ⟨hevaluated, herase⟩ :=
    Scan.evaluateCallback_actsFor env transfer h.allocated hhandler
  obtain ⟨hrunner, hauditor⟩ := Scan.evaluateCallback_runner env req transfer hp
  have hshown : ∀ event ∈ ((history.scan.receive req transfer).counted p).evaluateCallbackEvents
      p req, event.runner = p := Scan.runner_of_mem_evaluateCallbackEvents
  have hsilent : Silent p (((history.scan.receive req transfer).counted p).evaluateCallbackEvents
      p req) := Scan.silent_evaluateCallbackEvents _ p req p
  have hasked : ∀ event ∈ ((history.scan.receive req transfer).counted p).evaluateCallbackEvents
      p req, ∀ past, Timely checks past event := Scan.timely_of_mem_evaluateCallbackEvents
  generalize ((history.scan.receive req transfer).counted p).evaluateCallback env p req = evaluated
    at houtcome hevaluated herase hrunner hauditor
  generalize ((history.scan.receive req transfer).counted p).evaluateCallbackEvents p req = shown
    at heq hshown hsilent hasked
  have hacts := hevaluated.trans (houtcome.actsFor (hevaluated.allocated h.allocated))
  have hscheduling := houtcome.isScheduling
  have hrunnerOf : ∀ event ∈ .calledBack p req :: shown ++ events, event.runner = p := by
    intro event hmem
    rcases List.mem_append.mp hmem with hmem | hmem
    · rcases List.mem_cons.mp hmem with rfl | hmem
      · rfl
      · exact hshown event hmem
    · exact (hscheduling event hmem).runner_eq
  rw [heq] at hsome
  -- The runner was held, since one of its requests was pending.
  obtain ⟨hmem, hawaits, hstored, herased⟩ | ⟨_, hidle, _, _⟩ := h.audits p hp
  · obtain ⟨hwaiting, hdone⟩ := hawaits.callback hpending hrunner herase hsilent.toQuiet
    have hstorings : storings p (history.events ++ .calledBack p req :: shown) = 1 := by
      rw [storings_append, hstored]
      exact congrArg (1 + ·) ((List.countP_cons_of_neg Bool.false_ne_true).trans hsilent.storings)
    have herasures : erasures p (history.events ++ .calledBack p req :: shown) = 0 := by
      rw [erasures_append, herased]
      exact congrArg (0 + ·) ((List.countP_cons_of_neg Bool.false_ne_true).trans hsilent.erasures)
    obtain ⟨hfollows, haudit⟩ := Audit.of_doneOutcome haccepts houtcome
      (hevaluated.allocated h.allocated) (hauditor ▸ h.nodup) (hauditor ▸ hmem) hstorings herasures
      hwaiting hdone hsome.of_append.2.of_append.2
    rw [List.append_assoc] at haudit
    have horderly := h.of_actsFor (.refl hp) hacts hrunnerOf haudit
      (follows_append.mpr ⟨⟨trivial, follows_of_forall fun event hmem _ => hasked event hmem _⟩,
        hfollows⟩)
    rwa [← heq] at horderly
  · rw [hidle.pending] at hpending
    cases hpending

section
variable {history : AuditHistory} {req : Nat} {check : SecurityCheck} {rest : List SecurityCheck}

theorem Orderly.silent (h : history.Orderly checks) :
    Silent history.scan.runnerMem.next history.events :=
  silent_of_runner_ne fun event hmem => Nat.ne_of_lt (h.heard event hmem)

theorem Orderly.not_held (h : history.Orderly checks) :
    history.scan.runnerMem.next ∉ history.scan.selectiveAuditor.runners :=
  fun hmem => Nat.lt_irrefl _ (h.runners _ hmem)

/-- Nothing has happened to a new runner. -/
theorem Orderly.allocRunner (h : history.Orderly checks)
    (hlist : history.scan.selectiveAuditor.checks = check :: rest) :
    Scan.Idle checks (history.scan.allocRunner req check rest) history.events
      history.scan.runnerMem.next
      (((history.scan.allocRunner req check rest).runnerAt
        history.scan.runnerMem.next).securityCheck :: rest) := by
  refine ⟨?_, ?_, ?_⟩
  · rw [Answered, h.silent.awaited, h.silent.called]
  · apply List.eq_nil_iff_forall_not_mem.mpr
    intro r hmem
    obtain ⟨hout, hhandler⟩ := Scan.mem_pending.mp hmem
    obtain ⟨q, hq, hr⟩ := h.handled r hout
    have hother := (Scan.mem_pending.mp hr).2
    rw [show (deref history.scan.mem r).requestHandler = _ from hhandler] at hother
    cases hother
    exact Nat.lt_irrefl _ hq
  · rw [h.silent.checksRun, List.nil_append, Scan.allocRunner_runnerAt_next, ← hlist]
    exact h.registered

end

/-- A new runner is held, or all its checks are run without a request being scheduled. -/
theorem Orderly.first (haccepts : ∀ i, env.accepts i = true) {history : AuditHistory}
    {last : Scan} {req : Nat} {events : List AuditEvent} (h : history.Orderly checks)
    (houtcome : Scan.FirstOutcome env history.scan req events last)
    (hsome : SomeScheduled events) : Orderly checks ⟨last, history.events ++ events⟩ := by
  have hrunners := fun event hmem => (houtcome.isScheduling event hmem).runner_eq
  cases houtcome with
  | noChecks =>
    rw [List.append_nil]
    exact h
  | @nothing check rest _ _ hlist hscheduled =>
    have hacts := hscheduled.actsFor h.allocated
    obtain ⟨hfollows, hidle, _⟩ :=
      Scan.Idle.scheduled haccepts hscheduled (h.allocRunner hlist) h.allocated hsome
    obtain ⟨hstorings, herasures⟩ := hscheduled.tally history.scan.runnerMem.next
    refine h.of_actsFor (.allocRunner _ _ _ _) hacts hrunners (.gone ?_ (hidle rfl) ?_ ?_) hfollows
    · rw [hscheduled.runsFor.selectiveAuditor]
      exact h.not_held
    · rw [storings_append, h.silent.storings, hstorings]
      exact Nat.zero_le 1
    · rw [storings_append, erasures_append, h.silent.storings, h.silent.erasures, hstorings,
        herasures]
  | @started check rest events after hlist hscheduled =>
    have hauditor : after.selectiveAuditor = history.scan.selectiveAuditor :=
      hscheduled.runsFor.selectiveAuditor
    have hacts := (hscheduled.actsFor h.allocated).trans
      (Scan.pushRunner_actsFor (hauditor ▸ h.not_held))
    obtain ⟨hfollows, _, hawaits⟩ := Scan.Idle.scheduled haccepts hscheduled (h.allocRunner hlist)
      h.allocated hsome.of_append.1
    obtain ⟨hstorings, herasures⟩ := hscheduled.tally history.scan.runnerMem.next
    have hpushed : Scan.Awaits checks (after.pushRunner history.scan.runnerMem.next)
        (history.events ++ events ++ [.stored history.scan.runnerMem.next])
        history.scan.runnerMem.next := (hawaits rfl).frame rfl rfl ⟨rfl, rfl, rfl⟩
    rw [List.append_assoc] at hpushed
    refine h.of_actsFor (.allocRunner _ _ _ _) hacts hrunners (.held ?_ hpushed ?_ ?_)
      (follows_append.mpr ⟨hfollows, trivial, trivial⟩)
    · simp [Scan.pushRunner]
    · rw [storings_append, storings_append, h.silent.storings, hstorings]
      simp [storings, AuditEvent.isStored]
    · rw [erasures_append, erasures_append, h.silent.erasures, herasures]
      rfl

theorem Orderly.step (haccepts : ∀ i, env.accepts i = true) {history next : AuditHistory}
    {op : AuditOp} (h : history.Orderly checks) (hstep : history.step env op = some next)
    (hsome : SomeScheduled next.events) : next.Orderly checks := by
  rcases step_cases hstep with ⟨req, events, rfl, houtcome, heq⟩ |
    ⟨req, transfer, p, events, rfl, hout, hhandler, houtcome, heq⟩
  · rw [heq] at hsome
    have hfirst := h.first haccepts houtcome hsome.of_append.2
    rwa [← heq] at hfirst
  · exact h.callback haccepts hout hhandler houtcome heq hsome

theorem orderly_of_unused {start : AuditHistory} (hunused : start.scan.Unused)
    (hout : start.scan.outstanding = []) (hevents : start.events = [])
    (hregistered : start.scan.selectiveAuditor.checks = checks) : start.Orderly checks := by
  have hnext : start.scan.runnerMem.next = 0 := by
    rw [hunused.runnerMem]
    rfl
  have hnone (req : Nat) : req ∉ start.scan.outstanding := by
    rw [hout]
    exact List.not_mem_nil
  refine ⟨hregistered, ?_, fun p hmem => ?_, fun req hmem => absurd hmem (hnone req),
    fun req hmem => absurd hmem (hnone req), fun event hmem => ?_, fun p hp => ?_, ?_⟩
  · rw [hunused.runners]
    exact List.nodup_nil
  · rw [hunused.runners] at hmem
    cases hmem
  · rw [hevents] at hmem
    cases hmem
  · rw [hnext] at hp
    cases hp
  · rw [hevents]
    trivial

/-- The checks of every audit are run one after the other. -/
structure RunsInOrder (checks : List SecurityCheck) (history : AuditHistory) : Prop where
  /-- A runner runs the checks in their order, each one once. -/
  inOrder : ∀ p < history.scan.runnerMem.next, checksRun p history.events <+: checks
  /-- A runner that the auditor does not hold has run all of them. -/
  complete : ∀ p < history.scan.runnerMem.next, p ∉ history.scan.selectiveAuditor.runners →
    checksRun p history.events = checks
  /-- The auditor holds a runner exactly while one of its requests has not been called back. -/
  held : ∀ p < history.scan.runnerMem.next,
    p ∈ history.scan.selectiveAuditor.runners ↔ ¬ Answered p history.events
  /-- A runner is stored at most once, and then it is held or it has been erased once. -/
  storedOnce : ∀ p < history.scan.runnerMem.next, storings p history.events ≤ 1
  erasedOnce : ∀ p < history.scan.runnerMem.next, erasures p history.events +
    (if p ∈ history.scan.selectiveAuditor.runners then 1 else 0) = storings p history.events
  /-- A check is run when all that was scheduled before has been called back. -/
  notBefore : ∀ before after p check positive requests scheduled,
    history.events = before ++ .ran p check positive requests scheduled :: after →
      Answered p before
  /-- A runner is erased when that holds and all the checks have been run. -/
  atTheEnd : ∀ before after p, history.events = before ++ .erased p :: after →
    Answered p before ∧ checksRun p before = checks

theorem Orderly.runsInOrder {history : AuditHistory} (h : history.Orderly checks) :
    history.RunsInOrder checks := by
  refine ⟨fun p hp => ?_, fun p hp hnot => ?_, fun p hp => ?_, fun p hp => ?_, fun p hp => ?_,
    fun _ _ _ _ _ _ _ hsplit => h.follows.of_split hsplit,
    fun _ _ _ hsplit => h.follows.of_split hsplit⟩
  all_goals
    obtain ⟨hmem, hawaits, hstored, herased⟩ | ⟨hmem, hidle, hstored, herased⟩ := h.audits p hp
  · exact ⟨_, hawaits.checks⟩
  · exact ⟨[], hidle.checks⟩
  · exact absurd hmem hnot
  · exact (List.append_nil _).symm.trans hidle.checks
  · refine iff_of_true hmem fun hanswered => hawaits.pending ?_
    have hlength := (hawaits.answered.symm.trans hanswered).length_eq
    rw [List.length_append] at hlength
    exact List.eq_nil_of_length_eq_zero (by omega)
  · exact iff_of_false hmem (not_not_intro hidle.answered)
  · exact Nat.le_of_eq hstored
  · exact hstored
  · rw [if_pos hmem, herased, hstored]
  · rw [if_neg hmem, herased, Nat.add_zero]

/-- In every run in which every request is accepted and each check whose `Run` returns true has
    scheduled a request, the checks of every audit are run one after the other. -/
theorem checks_run_in_order (haccepts : ∀ i, env.accepts i = true) {start last : AuditHistory}
    {ops : List AuditOp} (hunused : start.scan.Unused) (hout : start.scan.outstanding = [])
    (hevents : start.events = []) (hregistered : start.scan.selectiveAuditor.checks =
      (checks.foldl SelectiveAuditor.addSecurityCheck {}).checks)
    (hrun : transition.run (step env) start ops = some last) (hsome : SomeScheduled last.events) :
    last.RunsInOrder checks := by
  rw [SelectiveAuditor.foldl_addSecurityCheck, List.nil_append] at hregistered
  have horderly : last.Orderly checks :=
    run_preserves (P := fun history : AuditHistory =>
        SomeScheduled history.events → history.Orderly checks)
      (fun history op next h hstep hsome => by
        obtain ⟨_, _, rfl⟩ := Option.map_eq_some_iff.mp hstep
        exact (h hsome.of_append.1).step haccepts hstep hsome)
      (fun _ => orderly_of_unused hunused hout hevents hregistered) hrun hsome
  exact horderly.runsInOrder

end

/-- Where the check whose `Run` returned true has scheduled a request. -/
def schedulesSome : AuditEvent → Bool
  | .ran _ _ _ requests true => !requests.isEmpty
  | _ => true

theorem someScheduled_of_all {events : List AuditEvent} (h : events.all schedulesSome = true) :
    SomeScheduled events := by
  intro p check positive requests hmem hnil
  have hsome := List.all_eq_true.mp h _ hmem
  rw [hnil] at hsome
  cases hsome

open Scan (oneAudit plainEnv measuredChecks)

/-- The audits of two runners, interleaved: one comes to an end, and the other one does not. -/
def interleaved : List AuditOp :=
  [.scheduleFirst 0, .scheduleFirst 0, .requestCallback 2 {}, .requestCallback 1 {},
    .requestCallback 4 {}]

theorem interleaved_outcome :
    (transition.run (step (plainEnv true)) { scan := oneAudit measuredChecks } interleaved).map
      (fun history => (history.events.all schedulesSome, history.scan.selectiveAuditor.runners)) =
      some (true, [1]) := by
  decide +kernel

theorem checks_run_in_order_interleaved : ∃ last,
    transition.run (step (plainEnv true)) { scan := oneAudit measuredChecks } interleaved =
      some last ∧
    last.scan.selectiveAuditor.runners = [1] ∧ last.RunsInOrder measuredChecks := by
  obtain ⟨last, hrun, houtcome⟩ := Option.map_eq_some_iff.mp interleaved_outcome
  obtain ⟨hsome, hrunners⟩ := Prod.mk.inj houtcome
  exact ⟨last, hrun, hrunners, checks_run_in_order (fun _ => rfl) ⟨rfl, rfl⟩ rfl rfl rfl hrun
    (someScheduled_of_all hsome)⟩

end AuditHistory

end plusfish

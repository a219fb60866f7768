import Plusfish.Audit.Suppression

open memory transition

namespace plusfish

namespace Scan

/-- The outstanding requests of a runner. -/
def pending (scan : Scan) (p : Nat) : List Nat :=
  scan.outstanding.filter fun req =>
    (deref scan.mem req).requestHandler = some (.securityCheckRunner p)

theorem mem_pending {scan : Scan} {p req : Nat} : req ∈ scan.pending p ↔
    req ∈ scan.outstanding ∧
      (deref scan.mem req).requestHandler = some (.securityCheckRunner p) := by
  simp [pending]

theorem pending_eq_of {scan scan' : Scan} (hout : scan'.outstanding = scan.outstanding)
    (hhandler : ∀ req ∈ scan.outstanding, (deref scan'.mem req).requestHandler =
      (deref scan.mem req).requestHandler) (p : Nat) : scan'.pending p = scan.pending p := by
  unfold pending
  rw [hout]
  exact List.filter_congr fun req hmem => by rw [hhandler req hmem]

section
variable {env : ScanEnv}

theorem SameAudits.pending {scan scan' : Scan} (h : SameAudits env scan scan')
    (hallocated : scan.Allocated) (p : Nat) : scan'.pending p = scan.pending p := by
  exact pending_eq_of h.outstanding (fun req hmem =>
    (Frame.deref h.frame (hallocated req hmem)).requestHandler) p

/-- The requests that are handed over for a runner become pending for it. -/
theorem RunsFor.pending {p : Nat} {scan scan' : Scan} (h : RunsFor p scan scan')
    (hallocated : scan.Allocated) {reqs : List Nat}
    (hout : scan'.outstanding = scan.outstanding ++ reqs)
    (hhandler : ∀ req ∈ reqs,
      (plusfish.deref scan'.mem req).requestHandler = some (.securityCheckRunner p)) (q : Nat) :
    scan'.pending q = scan.pending q ++ if q = p then reqs else [] := by
  have hold : scan.outstanding.filter (fun req =>
      (plusfish.deref scan'.mem req).requestHandler = some (.securityCheckRunner q)) =
      scan.pending q :=
    List.filter_congr fun req hmem => by rw [h.deref (hallocated req hmem)]
  have hnew : reqs.filter (fun req =>
      (plusfish.deref scan'.mem req).requestHandler = some (.securityCheckRunner q)) =
      if q = p then reqs else [] := by
    split
    · rename_i heq
      exact List.filter_eq_self.mpr fun req hmem => by simp [hhandler req hmem, heq]
    · rename_i hne
      exact List.filter_eq_nil_iff.mpr fun req hmem => by simp [hhandler req hmem, Ne.symm hne]
  rw [Scan.pending, hout, List.filter_append, hold, hnew]

/-- The request that is called back is no longer pending. -/
theorem receive_pending {scan : Scan} {req p : Nat} (transfer : Transfer)
    (hhandler : (deref scan.mem req).requestHandler = some (.securityCheckRunner p)) (q : Nat) :
    (scan.receive req transfer).pending q =
      if q = p then (scan.pending q).erase req else scan.pending q := by
  have heq : (scan.receive req transfer).pending q = (scan.pending q).erase req := by
    unfold pending
    rw [List.erase_filter]
    exact List.filter_congr fun r _ => by rw [receive_requestHandler]
  rw [heq]
  split
  · rfl
  · rename_i hne
    refine List.erase_of_not_mem fun hmem => hne ?_
    have hother := (mem_pending.mp hmem).2
    rw [hhandler] at hother
    cases hother
    rfl

theorem outstanding_scheduleWith (scan : Scan) (caller : ScheduleCaller) (req : Nat)
    (handler : RequestHandler) : (scan.scheduleWith env caller req handler).2.outstanding =
      scan.outstanding ++ if env.accepts scan.calls.length then [req] else [] := by
  have heq : (scan.scheduleWith env caller req handler).2.outstanding =
      if env.accepts scan.calls.length then scan.outstanding ++ [req] else scan.outstanding := rfl
  rw [heq]
  split
  · rfl
  · exact (List.append_nil _).symm

/-- The loop of `Run` hands some of the requests over, for the runner. -/
theorem scheduleRequests_hands (p : Nat) (check : SecurityCheck) {reqs : List Nat} {scan : Scan}
    (hnodup : reqs.Nodup) (hreqs : ∀ req ∈ reqs, req < scan.mem.next) :
    ∃ handed : List Nat, handed.Sublist reqs ∧
      (scheduleRequests env p check reqs scan).2.outstanding = scan.outstanding ++ handed ∧
      ∀ req ∈ handed, (deref (scheduleRequests env p check reqs scan).2.mem req).requestHandler =
        some (.securityCheckRunner p) := by
  induction reqs generalizing scan with
  | nil => exact ⟨[], .slnil, (List.append_nil _).symm, fun _ hmem => by cases hmem⟩
  | cons req reqs ih =>
    obtain ⟨hnot, hnodup⟩ := List.nodup_cons.mp hnodup
    let first := (scan.scheduleWith env (.securityCheckRunner p check.canEvaluateInSerial) req
      (.securityCheckRunner p)).2
    have hschedules : Schedules [req] scan first := scheduleWith_schedules env scan _ req _
    have hhandler : (deref first.mem req).requestHandler = some (.securityCheckRunner p) :=
      deref_scheduleWith env (hreqs req List.mem_cons_self) _ _
    have hout : first.outstanding =
        scan.outstanding ++ if env.accepts scan.calls.length then [req] else [] :=
      outstanding_scheduleWith scan _ req _
    have heq : scheduleRequests env p check (req :: reqs) scan =
        if !env.accepts scan.calls.length && !check.canEvaluateInSerial then (false, first)
        else scheduleRequests env p check reqs first := rfl
    rw [heq]
    split
    · rename_i hrefused
      have hrefused : env.accepts scan.calls.length = false := by simp_all
      exact ⟨[], List.nil_sublist _, by simpa [hrefused] using hout, fun _ hmem => by cases hmem⟩
    · have hlater : ∀ q ∈ reqs, q < first.mem.next := fun q hq => by
        rw [hschedules.next]
        exact hreqs q (List.mem_cons_of_mem _ hq)
      obtain ⟨handed, hsublist, hlater, hhandlers⟩ := ih hnodup hlater
      refine ⟨(if env.accepts scan.calls.length then [req] else []) ++ handed, ?_, ?_, ?_⟩
      · split
        · exact hsublist.cons_cons req
        · exact hsublist.cons req
      · rw [hlater, hout, List.append_assoc]
      · intro q hq
        rcases List.mem_append.mp hq with hq | hq
        · obtain rfl : q = req := by
            split at hq
            · exact List.mem_singleton.mp hq
            · cases hq
          rw [deref, (scheduleRequests_schedules env p check reqs first).requests q hnot]
          exact hhandler
        · exact hhandlers q hq

/-- `Run` hands some of the requests of the check over, for the runner. -/
theorem Fresh.run_hands {scan after : Scan} {p : Nat} {nextChecks : List SecurityCheck}
    {done : Bool} (h : scan.Fresh p nextChecks) (hrun : scan.run env p = (done, after)) :
    ∃ handed : List Nat, handed.Sublist (scan.newAddresses env p) ∧
      after.outstanding = scan.outstanding ++ handed ∧ ∀ req ∈ handed,
        (deref after.mem req).requestHandler = some (.securityCheckRunner p) := by
  have hrunner := createRequests_runnerAt env h.allocated
  rw [h.requests, List.nil_append] at hrunner
  rcases run_cases env scan p with heq | ⟨_, heq⟩
  · rw [hrun] at heq
    obtain ⟨rfl, rfl⟩ := Prod.mk.inj heq
    exact ⟨[], List.nil_sublist _, (List.append_nil _).symm, fun _ hmem => by cases hmem⟩
  · rw [hrun, hrunner] at heq
    have hnew : ∀ req ∈ scan.newAddresses env p, req < (scan.createRequests env p).2.mem.next := by
      intro req hmem
      simpa [createRequests, setRunner, newRequests] using ((mem_newAddresses env).mp hmem).2
    obtain ⟨rfl, rfl⟩ := Prod.mk.inj heq
    exact scheduleRequests_hands p _ (newAddresses_nodup env scan p) hnew

theorem scheduleRequests_of_accepts (haccepts : ∀ i, env.accepts i = true) (p : Nat)
    (check : SecurityCheck) (reqs : List Nat) (scan : Scan) :
    (scheduleRequests env p check reqs scan).1 = true ∧
      (scheduleRequests env p check reqs scan).2.outstanding = scan.outstanding ++ reqs := by
  induction reqs generalizing scan with
  | nil => exact ⟨rfl, (List.append_nil _).symm⟩
  | cons req reqs ih =>
    obtain ⟨hdone, hout⟩ := ih (scan.scheduleWith env
      (.securityCheckRunner p check.canEvaluateInSerial) req (.securityCheckRunner p)).2
    have hfirst : (scan.scheduleWith env (.securityCheckRunner p check.canEvaluateInSerial) req
        (.securityCheckRunner p)).2.outstanding = scan.outstanding ++ [req] := by
      simp [scheduleWith, schedule, setRequestHandler, haccepts]
    have haccepted : (scan.scheduleWith env (.securityCheckRunner p check.canEvaluateInSerial) req
        (.securityCheckRunner p)).1 = true := haccepts _
    simp only [scheduleRequests, haccepted, Bool.not_true, Bool.false_and, Bool.false_eq_true,
      if_false]
    exact ⟨hdone, by rw [hout, hfirst, List.append_assoc, List.singleton_append]⟩

/-- Where every request is accepted, `Run` hands over all the requests of the check or none. -/
theorem Fresh.run_of_accepts (haccepts : ∀ i, env.accepts i = true) {scan after : Scan} {p : Nat}
    {nextChecks : List SecurityCheck} {done : Bool} (h : scan.Fresh p nextChecks)
    (hrun : scan.run env p = (done, after)) :
    after.outstanding = scan.outstanding ++ (if done then scan.newAddresses env p else []) ∧
      (done = true → ∀ req ∈ scan.newAddresses env p,
        (deref after.mem req).requestHandler = some (.securityCheckRunner p)) := by
  obtain ⟨handed, _, hout, hhandlers⟩ := h.run_hands hrun
  suffices hall : after.outstanding =
      scan.outstanding ++ if done then scan.newAddresses env p else [] by
    have hhanded := List.append_cancel_left (hout.symm.trans hall)
    refine ⟨hall, fun hdone => ?_⟩
    rwa [hhanded, if_pos hdone] at hhandlers
  have hrunner := createRequests_runnerAt env h.allocated
  rw [h.requests, List.nil_append] at hrunner
  rcases run_cases env scan p with heq | ⟨_, heq⟩
  · rw [hrun] at heq
    obtain ⟨rfl, rfl⟩ := Prod.mk.inj heq
    exact (List.append_nil _).symm
  · rw [hrun, hrunner] at heq
    obtain ⟨hdone, hscheduled⟩ := scheduleRequests_of_accepts haccepts p
      (scan.runnerAt p).securityCheck (scan.newAddresses env p) (scan.createRequests env p).2
    obtain ⟨rfl, rfl⟩ := Prod.mk.inj heq
    rw [newAddresses] at hdone hscheduled
    rw [hdone]
    exact hscheduled

/-- Where every request is accepted, what `Run` hands over becomes pending for the runner. -/
theorem Fresh.run_pending (haccepts : ∀ i, env.accepts i = true) {scan after : Scan} {p : Nat}
    {nextChecks : List SecurityCheck} {done : Bool} (h : scan.Fresh p nextChecks)
    (hallocated : scan.Allocated) (hrun : scan.run env p = (done, after)) (q : Nat) :
    after.pending q = scan.pending q ++
      if q = p then (if done then scan.newAddresses env p else []) else [] := by
  obtain ⟨hout, hhandlers⟩ := h.run_of_accepts haccepts hrun
  refine (h.run_outcome env hrun).runs.pending hallocated hout ?_ q
  cases done with
  | true => exact hhandlers rfl
  | false => exact fun _ hmem => by cases hmem

/-- What scheduling keeps of the requests, all but the handlers. -/
theorem scheduleRequests_keeps {α : Type} (g : Request → α)
    (hg : ∀ (request : Request) handler, g { request with requestHandler := handler } = g request)
    (p : Nat) (check : SecurityCheck) (reqs : List Nat) (scan : Scan) (q : Nat) :
    g (deref (scheduleRequests env p check reqs scan).2.mem q) = g (deref scan.mem q) := by
  induction reqs generalizing scan with
  | nil => rfl
  | cons req reqs ih =>
    have hfirst : g (deref (scan.scheduleWith env
        (.securityCheckRunner p check.canEvaluateInSerial) req (.securityCheckRunner p)).2.mem q) =
          g (deref scan.mem q) :=
      deref_modify_keeps g scan.mem req q fun request => hg request _
    simp only [scheduleRequests]
    split
    · exact hfirst
    · exact (ih _).trans hfirst

/-- Where every request is accepted, a check that has made requests is run, unless it is
    evaluated in serial and the tested request tests positive by itself. -/
theorem Fresh.run_done (haccepts : ∀ i, env.accepts i = true) {scan : Scan} {p : Nat}
    {nextChecks : List SecurityCheck} (h : scan.Fresh p nextChecks)
    (hcreated : (scan.newRequests env p).1 = true)
    (hnegative : ((scan.runnerAt p).securityCheck.canEvaluateInSerial &&
      (scan.runnerAt p).securityCheck.evaluateSingle scan.store.getRequestMetadata
        (deref (scan.createRequests env p).2.mem (scan.runnerAt p).testedRequest)) = false) :
    (scan.run env p).1 = true := by
  have hcreated' : (scan.createRequests env p).1 = true := hcreated
  have hstore : (scan.createRequests env p).2.store = scan.store := rfl
  have hrunner := createRequests_runnerAt env h.allocated
  unfold Scan.run
  simp only [hcreated', hrunner, hstore, hnegative, Bool.not_true, Bool.false_eq_true, if_false]
  exact (scheduleRequests_of_accepts haccepts p _ _ _).1

/-- The outstanding requests are those of runners. -/
def Handled (scan : Scan) : Prop :=
  ∀ req ∈ scan.outstanding, ∃ p < scan.runnerMem.next, req ∈ scan.pending p

/-- What acting for one runner leaves alone. -/
structure ActsFor (p : Nat) (scan after : Scan) : Prop where
  runnerAt : ∀ q ≠ p, after.runnerAt q = scan.runnerAt q
  pending : ∀ q ≠ p, after.pending q = scan.pending q
  runnerNext : after.runnerMem.next = scan.runnerMem.next
  checks : after.selectiveAuditor.checks = scan.selectiveAuditor.checks
  nodup : scan.selectiveAuditor.runners.Nodup → after.selectiveAuditor.runners.Nodup
  runners : ∀ q ≠ p, q ∈ after.selectiveAuditor.runners ↔ q ∈ scan.selectiveAuditor.runners
  handled : p < scan.runnerMem.next → scan.Handled → after.Handled
  allocated : scan.Allocated → after.Allocated

theorem ActsFor.refl (p : Nat) (scan : Scan) : ActsFor p scan scan :=
  ⟨fun _ _ => rfl, fun _ _ => rfl, rfl, rfl, id, fun _ _ => Iff.rfl, fun _ => id, id⟩

theorem ActsFor.trans {p : Nat} {a b c : Scan} (hab : ActsFor p a b) (hbc : ActsFor p b c) :
    ActsFor p a c where
  runnerAt q hq := (hbc.runnerAt q hq).trans (hab.runnerAt q hq)
  pending q hq := (hbc.pending q hq).trans (hab.pending q hq)
  runnerNext := hbc.runnerNext.trans hab.runnerNext
  checks := hbc.checks.trans hab.checks
  nodup h := hbc.nodup (hab.nodup h)
  runners q hq := (hbc.runners q hq).trans (hab.runners q hq)
  handled hp h := hbc.handled (hab.runnerNext ▸ hp) (hab.handled hp h)
  allocated h := hbc.allocated (hab.allocated h)

theorem SameAudits.actsFor {p : Nat} {scan after : Scan} (h : SameAudits env scan after)
    (hallocated : scan.Allocated) : ActsFor p scan after := by
  refine ⟨fun q _ => h.runnerAt q, fun q _ => h.pending hallocated q, by rw [h.runnerMem],
    by rw [h.selectiveAuditor], fun hnodup => h.selectiveAuditor ▸ hnodup,
    fun q _ => by rw [h.selectiveAuditor], fun _ hhandled req hmem => ?_, h.extends.allocated⟩
  rw [h.outstanding] at hmem
  rw [h.runnerMem]
  obtain ⟨q, hq, hreq⟩ := hhandled req hmem
  exact ⟨q, hq, h.pending hallocated q ▸ hreq⟩

theorem setRunner_actsFor (scan : Scan) (p : Nat) (runner : SecurityCheckRunner) :
    ActsFor p scan (scan.setRunner p runner) where
  runnerAt _ hq := (setRunner_runsFor scan p runner).runnerAt hq
  pending _ _ := rfl
  runnerNext := (setRunner_runsFor scan p runner).runnerNext
  checks := rfl
  nodup h := h
  runners _ _ := Iff.rfl
  handled _ hhandled req hmem := by
    rw [(setRunner_runsFor scan p runner).runnerNext]
    exact hhandled req hmem
  allocated h := h

theorem receive_actsFor {scan : Scan} {req p : Nat} (transfer : Transfer)
    (hhandler : (deref scan.mem req).requestHandler = some (.securityCheckRunner p)) :
    ActsFor p scan (scan.receive req transfer) where
  runnerAt _ _ := rfl
  pending q hq := by rw [receive_pending transfer hhandler, if_neg hq]
  runnerNext := rfl
  checks := rfl
  nodup h := h
  runners _ _ := Iff.rfl
  handled _ hhandled r hmem := by
    obtain ⟨q, hq, hr⟩ := hhandled r (List.mem_of_mem_erase hmem)
    refine ⟨q, hq, mem_pending.mpr ⟨hmem, ?_⟩⟩
    rw [receive_requestHandler]
    exact (mem_pending.mp hr).2
  allocated h r hmem := by
    have hlt := h r (List.mem_of_mem_erase hmem)
    simpa [receive] using hlt

theorem eraseRunner_actsFor (scan : Scan) (p : Nat) : ActsFor p scan (scan.eraseRunner p) where
  runnerAt _ _ := rfl
  pending _ _ := rfl
  runnerNext := rfl
  checks := rfl
  nodup h := h.erase p
  runners _ hq := List.mem_erase_of_ne hq
  handled _ h := h
  allocated h := h

theorem pushRunner_actsFor {scan : Scan} {p : Nat} (hnot : p ∉ scan.selectiveAuditor.runners) :
    ActsFor p scan (scan.pushRunner p) where
  runnerAt _ _ := rfl
  pending _ _ := rfl
  runnerNext := rfl
  checks := rfl
  nodup h := List.nodup_append.mpr ⟨h, List.nodup_singleton _, fun a ha b hb => by
    rw [List.mem_singleton.mp hb]
    exact fun heq => hnot (heq ▸ ha)⟩
  runners q hq := by simp [pushRunner, hq]
  handled _ h := h
  allocated h := h

/-- What is handed over is for the runner. -/
theorem Fresh.run_actsFor {scan after : Scan} {p : Nat} {nextChecks : List SecurityCheck}
    {done : Bool} (h : scan.Fresh p nextChecks) (hallocated : scan.Allocated)
    (hrun : scan.run env p = (done, after)) : ActsFor p scan after := by
  have houtcome := h.run_outcome env hrun
  obtain ⟨handed, _, hout, hhandlers⟩ := h.run_hands hrun
  have hpending := houtcome.runs.pending hallocated hout hhandlers
  refine ⟨fun q hq => houtcome.runs.runnerAt hq, fun q hq => ?_, houtcome.runs.runnerNext,
    by rw [houtcome.runs.selectiveAuditor], fun h => houtcome.runs.selectiveAuditor ▸ h,
    fun q _ => by rw [houtcome.runs.selectiveAuditor], fun hp hhandled req hmem => ?_,
    (houtcome.extends hallocated).allocated⟩
  · rw [hpending q, if_neg hq, List.append_nil]
  · rw [houtcome.runs.runnerNext]
    rw [hout] at hmem
    rcases List.mem_append.mp hmem with hmem | hmem
    · obtain ⟨q, hq, hreq⟩ := hhandled req hmem
      exact ⟨q, hq, hpending q ▸ List.mem_append_left _ hreq⟩
    · exact ⟨p, hp, hpending p ▸ List.mem_append_right _ (by rwa [if_pos rfl])⟩

theorem Scheduled.actsFor {scan last : Scan} {events : List AuditEvent} {p : Nat}
    {nextChecks : List SecurityCheck} {done : Bool}
    (h : Scheduled env p nextChecks scan events done last) (hallocated : scan.Allocated) :
    ActsFor p scan last := by
  induction h with
  | ran hfresh hrun => exact hfresh.run_actsFor hallocated hrun
  | last hfresh hrun => exact hfresh.run_actsFor hallocated hrun
  | @skipped _ _ _ after _ runner _ _ hfresh hrun _ _ ih =>
    have hfirst := hfresh.run_actsFor hallocated hrun
    have hset := setRunner_actsFor after p runner
    exact hfirst.trans (hset.trans (ih (hset.allocated (hfirst.allocated hallocated))))

theorem DoneOutcome.actsFor {scan after : Scan} {p : Nat} {events : List AuditEvent}
    (h : DoneOutcome env scan p events after) (hallocated : scan.Allocated) :
    ActsFor p scan after := by
  have hscraped : ActsFor p scan (scan.scrapeRequests env p) :=
    (scrapeRequests_sameAudits env scan p).actsFor hallocated
  have hset (runner : SecurityCheckRunner) :
      ActsFor p scan ((scan.scrapeRequests env p).setRunner p runner) :=
    hscraped.trans (setRunner_actsFor _ p runner)
  cases h with
  | waiting => exact .refl p scan
  | ended => exact hscraped.trans (eraseRunner_actsFor _ p)
  | goesOn _ _ hscheduled =>
    exact (hset _).trans (hscheduled.actsFor ((hset _).allocated hallocated))
  | exhausted _ _ hscheduled =>
    exact (hset _).trans ((hscheduled.actsFor ((hset _).allocated hallocated)).trans
      (eraseRunner_actsFor _ p))

/-- A callback up to its evaluation: it is counted, and the request is no longer pending. -/
theorem evaluateCallback_actsFor (env : ScanEnv) {scan : Scan} {req p : Nat} (transfer : Transfer)
    (hallocated : scan.Allocated)
    (hhandler : (deref scan.mem req).requestHandler = some (.securityCheckRunner p)) :
    ActsFor p scan (((scan.receive req transfer).counted p).evaluateCallback env p req) ∧
      (((scan.receive req transfer).counted p).evaluateCallback env p req).pending p =
        (scan.pending p).erase req := by
  have hreceived := receive_actsFor transfer hhandler
  have hcounted := hreceived.trans (setRunner_actsFor (scan.receive req transfer) p
    ((scan.receive req transfer).runnerAt p).countCallback)
  have hsame := evaluateCallback_sameAudits env ((scan.receive req transfer).counted p) p req
  refine ⟨hcounted.trans (hsame.actsFor (hcounted.allocated hallocated)), ?_⟩
  rw [hsame.pending (hcounted.allocated hallocated)]
  exact (receive_pending transfer hhandler p).trans (if_pos rfl)

/-- A callback up to its evaluation changes the count of its runner alone. -/
theorem evaluateCallback_runner (env : ScanEnv) {scan : Scan} {p : Nat} (req : Nat)
    (transfer : Transfer) (hp : p < scan.runnerMem.next) :
    (((scan.receive req transfer).counted p).evaluateCallback env p req).runnerAt p =
        (scan.runnerAt p).countCallback ∧
      (((scan.receive req transfer).counted p).evaluateCallback env p req).selectiveAuditor =
        scan.selectiveAuditor := by
  have hsame := evaluateCallback_sameAudits env ((scan.receive req transfer).counted p) p req
  refine ⟨?_, hsame.selectiveAuditor⟩
  rw [hsame.runnerAt]
  exact counted_runnerAt hp

end

end Scan

end plusfish

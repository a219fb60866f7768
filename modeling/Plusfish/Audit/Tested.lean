import Plusfish.Audit.GenericGenerator
import Plusfish.Audit.Pending
import Plusfish.DataStore.Metadata

open memory transition

namespace plusfish

/-- A generic check is made with a `GenericGenerator`. -/
def SecurityCheck.FromRule (env : RequestEnv) : SecurityCheck → Prop
  | .generic check => ∃ rule, check.generator = GenericGenerator.generator env rule
  | .responseTime _ => True

/-- The requests that a check makes have the tested request as their parent. -/
theorem SecurityCheck.FromRule.parentId {env : RequestEnv} {check : SecurityCheck}
    (h : check.FromRule env) {base request : Request}
    (hmem : request ∈ (check.createRequests env base).2) : request.parentId = base.id := by
  cases check with
  | generic check =>
    obtain ⟨rule, hrule⟩ := h
    simp only [createRequests, GenericSecurityCheck.createRequests, hrule] at hmem
    exact GenericGenerator.generate_parentId hmem
  | responseTime check =>
    rw [List.eq_of_mem_replicate hmem]

namespace Scan

/-- The id of the request that a runner tests. -/
def testedId (scan : Scan) (p : Nat) : Int := (deref scan.mem (scan.runnerAt p).testedRequest).id

/-- What is kept of the requests and the metadata. -/
structure Keeps (scan after : Scan) : Prop where
  next : scan.mem.next ≤ after.mem.next
  lineage : ∀ q < scan.mem.next, (deref scan.mem q).SameLineage (deref after.mem q)
  requestHandler : ∀ q < scan.mem.next,
    (deref after.mem q).requestHandler = (deref scan.mem q).requestHandler
  metadata : ∀ requestId type value,
    scan.store.getRequestMetadata requestId type = some value →
      after.store.getRequestMetadata requestId type = some value

theorem Keeps.refl (scan : Scan) : Keeps scan scan :=
  ⟨Nat.le_refl _, fun _ _ => ⟨rfl, rfl⟩, fun _ _ => rfl, fun _ _ _ => id⟩

theorem Keeps.trans {a b c : Scan} (hab : Keeps a b) (hbc : Keeps b c) : Keeps a c where
  next := Nat.le_trans hab.next hbc.next
  lineage q hq := Request.SameLineage.trans _ _ _ (hab.lineage q hq)
    (hbc.lineage q (Nat.lt_of_lt_of_le hq hab.next))
  requestHandler q hq :=
    (hbc.requestHandler q (Nat.lt_of_lt_of_le hq hab.next)).trans (hab.requestHandler q hq)
  metadata _ _ _ h := hbc.metadata _ _ _ (hab.metadata _ _ _ h)

theorem RunsFor.keeps {p : Nat} {scan after : Scan} (h : RunsFor p scan after)
    (hstore : after.store = scan.store) : Keeps scan after where
  next := h.next
  lineage q hq := by
    rw [h.deref hq]
    exact Request.SameLineage.refl _
  requestHandler q hq := by rw [h.deref hq]
  metadata _ _ _ hvalue := hstore ▸ hvalue

section
variable {env : ScanEnv}

theorem LooksAtPages.keeps {newRequest : Request → Prop} {scan after : Scan}
    (h : LooksAtPages env newRequest scan after) : Keeps scan after := by
  have hmetadata := h.getRequestMetadata
  obtain ⟨mem, store, rfl, heffects⟩ := h
  exact ⟨heffects.lineage.next_le, fun q hq => Frame.deref heffects.lineage hq,
    fun q hq => (Frame.deref heffects.storeEffects.frame hq).requestHandler,
    fun requestId type value hvalue => by rwa [hmetadata]⟩

theorem setRequestMeta_keeps (scan : Scan) (entry : Option (Int × Int)) :
    Keeps scan (scan.setRequestMeta entry) := by
  unfold setRequestMeta
  split
  · exact .refl scan
  · exact ⟨Nat.le_refl _, fun _ _ => ⟨rfl, rfl⟩, fun _ _ => rfl,
      fun _ _ _ => DataStore.addRequestMetadata_keeps _ _ _ _⟩

theorem receive_keeps (scan : Scan) (req : Nat) (transfer : Transfer) :
    Keeps scan (scan.receive req transfer) where
  next := by simp [receive]
  lineage q _ :=
    ⟨deref_modify_keeps (·.id) scan.mem req q fun request => by
        simp only [Request.withTransfer]
        split <;> split <;> rfl,
      deref_modify_keeps (·.parentId) scan.mem req q fun request => by
        simp only [Request.withTransfer]
        split <;> split <;> rfl⟩
  requestHandler q _ := receive_requestHandler scan req transfer q
  metadata _ _ _ hvalue := hvalue

/-- A callback up to its evaluation. -/
theorem evaluateCallback_keeps (env : ScanEnv) (scan : Scan) (req : Nat) (transfer : Transfer)
    (p : Nat) :
    Keeps scan (((scan.receive req transfer).counted p).evaluateCallback env p req) := by
  have hcounted : Keeps scan ((scan.receive req transfer).counted p) :=
    (receive_keeps scan req transfer).trans
      ((setRunner_runsFor (scan.receive req transfer) p _).keeps rfl)
  have hstored := hcounted.trans (setRequestMeta_keeps ((scan.receive req transfer).counted p)
    (((scan.receive req transfer).counted p).evaluation p req).2)
  rw [evaluateCallback_eq]
  split
  · exact hstored.trans (reportIssue_looksAtPages env (fun _ => False) _ p req).keeps
  · exact hstored

theorem Scheduled.store {p : Nat} {nextChecks : List SecurityCheck} {scan last : Scan}
    {events : List AuditEvent} {done : Bool}
    (h : Scheduled env p nextChecks scan events done last) : last.store = scan.store := by
  induction h with
  | ran hfresh hrun | last hfresh hrun => exact (hfresh.run_outcome env hrun).store
  | skipped hfresh hrun _ _ ih => exact ih.trans (hfresh.run_outcome env hrun).store

theorem DoneOutcome.keeps {scan after : Scan} {p : Nat} {events : List AuditEvent}
    (h : DoneOutcome env scan p events after) : Keeps scan after := by
  have hscraped := (scrapeRequests_looksAtPages env scan p).keeps
  have hnext {runner : SecurityCheckRunner} {events : List AuditEvent} {done : Bool}
      {middle : Scan} (hscheduled : Scheduled env p runner.nextChecks
        ((scan.scrapeRequests env p).setRunner p runner) events done middle) : Keeps scan middle :=
    hscraped.trans (((setRunner_runsFor _ p runner).keeps rfl).trans
      (hscheduled.runsFor.keeps hscheduled.store))
  have herase {middle : Scan} (h : Keeps scan middle) : Keeps scan (middle.eraseRunner p) :=
    ⟨h.next, h.lineage, h.requestHandler, h.metadata⟩
  cases h with
  | waiting => exact .refl scan
  | ended => exact herase hscraped
  | goesOn _ _ hscheduled => exact hnext hscheduled
  | exhausted _ _ hscheduled => exact herase (hnext hscheduled)

theorem allocRunner_keeps (scan : Scan) (req : Nat) (check : SecurityCheck)
    (checks : List SecurityCheck) : Keeps scan (scan.allocRunner req check checks) :=
  ⟨Nat.le_refl _, fun _ _ => ⟨rfl, rfl⟩, fun _ _ => rfl, fun _ _ _ => id⟩

theorem FirstOutcome.keeps {scan after : Scan} {req : Nat} {events : List AuditEvent}
    (h : FirstOutcome env scan req events after) : Keeps scan after := by
  have hnext {check : SecurityCheck} {checks : List SecurityCheck} {events : List AuditEvent}
      {done : Bool} {middle : Scan} (hscheduled : Scheduled env scan.runnerMem.next checks
        (scan.allocRunner req check checks) events done middle) : Keeps scan middle :=
    (allocRunner_keeps scan req check checks).trans (hscheduled.runsFor.keeps hscheduled.store)
  cases h with
  | noChecks => exact .refl scan
  | nothing _ hscheduled => exact hnext hscheduled
  | started _ hscheduled =>
    have hkeeps := hnext hscheduled
    exact ⟨hkeeps.next, hkeeps.lineage, hkeeps.requestHandler, hkeeps.metadata⟩

/-- The new requests of a runner have the tested request as their parent. -/
theorem run_parentId {scan after : Scan} {p : Nat} {done : Bool}
    (hrun : scan.run env p = (done, after))
    (hrule : (scan.runnerAt p).securityCheck.FromRule env.request) :
    ∀ q ∈ scan.newAddresses env p, (deref after.mem q).parentId = scan.testedId p := by
  intro q hmem
  have hcreated : (deref (scan.createRequests env p).2.mem q).parentId = scan.testedId p := by
    obtain ⟨hle, hlt⟩ := (mem_newAddresses env).mp hmem
    have hget : (scan.createRequests env p).2.mem.get? q =
        (scan.newRequests env p).2[q - scan.mem.next]? := Heap.get?_allocAll_of_le _ hle
    have hin : q - scan.mem.next < (scan.newRequests env p).2.length := by omega
    rw [List.getElem?_eq_getElem hin] at hget
    rw [deref_of_get? hget]
    exact hrule.parentId (List.getElem_mem hin)
  rcases run_cases env scan p with heq | ⟨_, heq⟩
  · rw [hrun] at heq
    cases heq
    exact hcreated
  · have hafter := congrArg Prod.snd heq
    rw [hrun] at hafter
    rw [show after = _ from hafter, scheduleRequests_keeps (·.parentId) fun _ _ => rfl]
    exact hcreated

theorem Keeps.testedId {scan after : Scan} (h : Keeps scan after) {p : Nat}
    (htested : (scan.runnerAt p).testedRequest < scan.mem.next)
    (hsame : (after.runnerAt p).testedRequest = (scan.runnerAt p).testedRequest) :
    after.testedId p = scan.testedId p := by
  rw [Scan.testedId, hsame]
  exact (h.lineage _ htested).id

/-- A request of a runner has the tested request as its parent. -/
def ParentedAt (scan : Scan) (q : Nat) : Prop :=
  ∀ p, (deref scan.mem q).requestHandler = some (.securityCheckRunner p) →
    p < scan.runnerMem.next ∧ (scan.runnerAt p).testedRequest < scan.mem.next ∧
      (deref scan.mem q).parentId = scan.testedId p

def Parented (scan : Scan) : Prop := ∀ q ∈ scan.outstanding, scan.ParentedAt q

theorem ParentedAt.keeps {scan after : Scan} {q : Nat} (h : scan.ParentedAt q)
    (hq : q < scan.mem.next) (hkeeps : Keeps scan after)
    (hnext : scan.runnerMem.next ≤ after.runnerMem.next)
    (htested : ∀ p < scan.runnerMem.next,
      (after.runnerAt p).testedRequest = (scan.runnerAt p).testedRequest) : after.ParentedAt q := by
  intro p hhandler
  rw [hkeeps.requestHandler q hq] at hhandler
  obtain ⟨hp, hlt, hparent⟩ := h p hhandler
  refine ⟨Nat.lt_of_lt_of_le hp hnext, ?_, ?_⟩
  · rw [htested p hp]
    exact Nat.lt_of_lt_of_le hlt hkeeps.next
  · rw [(hkeeps.lineage q hq).parentId, hkeeps.testedId hlt (htested p hp), hparent]

theorem setRunner_testedRequest (scan : Scan) {p : Nat} {runner : SecurityCheckRunner}
    (hsame : runner.testedRequest = (scan.runnerAt p).testedRequest) {q : Nat}
    (hq : q < scan.runnerMem.next) :
    ((scan.setRunner p runner).runnerAt q).testedRequest = (scan.runnerAt q).testedRequest := by
  by_cases hqp : q = p
  · rw [hqp] at hq ⊢
    rw [runnerAt_setRunner scan hq, hsame]
  · rw [(setRunner_runsFor scan p runner).runnerAt hqp]

theorem Parented.setRunner {scan : Scan} {p : Nat} {runner : SecurityCheckRunner}
    (h : scan.Parented) (hallocated : scan.Allocated)
    (hsame : runner.testedRequest = (scan.runnerAt p).testedRequest) :
    (scan.setRunner p runner).Parented := fun q hmem =>
  (h q hmem).keeps (hallocated q hmem) ((setRunner_runsFor scan p runner).keeps rfl)
    (Nat.le_of_eq (setRunner_runsFor scan p runner).runnerNext.symm)
    fun _ hq' => setRunner_testedRequest scan hsame hq'

theorem setNextCheck_testedRequest {self runner : SecurityCheckRunner}
    (h : self.setNextCheck = some runner) : runner.testedRequest = self.testedRequest := by
  unfold SecurityCheckRunner.setNextCheck at h
  split at h
  · cases h
  · cases h
    rfl

/-- A runner tests one request for as long as it exists. -/
theorem Scheduled.testedRequest {p : Nat} {nextChecks : List SecurityCheck} {scan last : Scan}
    {events : List AuditEvent} {done : Bool}
    (h : Scheduled env p nextChecks scan events done last) :
    (last.runnerAt p).testedRequest = (scan.runnerAt p).testedRequest := by
  induction h with
  | ran hfresh hrun | last hfresh hrun => rw [(hfresh.run_outcome env hrun).runner]
  | skipped hfresh hrun hnext _ ih =>
    have houtcome := hfresh.run_outcome env hrun
    obtain ⟨_, hnext', _, hsame, hrunner, _⟩ := hfresh.moveOn houtcome.runs houtcome.runner
    obtain rfl := Option.some.inj (hnext.symm.trans hnext')
    rw [ih, hrunner, hsame]

theorem DoneOutcome.testedRequest {scan after : Scan} {p : Nat} {events : List AuditEvent}
    (h : DoneOutcome env scan p events after) :
    (after.runnerAt p).testedRequest = (scan.runnerAt p).testedRequest := by
  have hsame := scrapeRequests_sameAudits env scan p
  have hrunner := hsame.runnerAt p
  have hnext {runner : SecurityCheckRunner} {events : List AuditEvent} {done : Bool}
      {middle : Scan} (hfinished : (scan.runnerAt p).finished = true)
      (hnext : ((scan.scrapeRequests env p).runnerAt p).setNextCheck = some runner)
      (hscheduled : Scheduled env p runner.nextChecks
        ((scan.scrapeRequests env p).setRunner p runner) events done middle) :
      (middle.runnerAt p).testedRequest = (scan.runnerAt p).testedRequest := by
    have hp := allocated_scrapeRequests env hfinished
    rw [hscheduled.testedRequest, runnerAt_setRunner _ hp, setNextCheck_testedRequest hnext,
      hrunner]
  cases h with
  | waiting => rfl
  | ended => exact congrArg SecurityCheckRunner.testedRequest hrunner
  | goesOn hfinished hsome hscheduled => exact hnext hfinished hsome hscheduled
  | exhausted hfinished hsome hscheduled =>
    have htested := hnext hfinished hsome hscheduled
    exact htested

variable (env) in
theorem Parented.evaluateCallback {scan : Scan} {req p : Nat} (h : scan.Parented)
    (hallocated : scan.Allocated) (hp : p < scan.runnerMem.next)
    (hhandler : (deref scan.mem req).requestHandler = some (.securityCheckRunner p))
    (transfer : Transfer) :
    (((scan.receive req transfer).counted p).evaluateCallback env p req).Parented := by
  have hevaluated := (evaluateCallback_actsFor env transfer hallocated hhandler).1
  have hsame := evaluateCallback_sameAudits env ((scan.receive req transfer).counted p) p req
  obtain ⟨hrunner, _⟩ := evaluateCallback_runner env req transfer hp
  intro q hmem
  rw [hsame.outstanding] at hmem
  have hin : q ∈ scan.outstanding := List.mem_of_mem_erase hmem
  refine (h q hin).keeps (hallocated q hin) (evaluateCallback_keeps env scan req transfer p)
    (Nat.le_of_eq hevaluated.runnerNext.symm) fun q' _ => ?_
  by_cases hq : q' = p
  · rw [hq, hrunner]
    rfl
  · rw [hevaluated.runnerAt q' hq]

end

end Scan

end plusfish

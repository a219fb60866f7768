import Plusfish.Audit.Scheduling
import Plusfish.DataStore.Acceptance
import Plusfish.Library.Run

open memory transition

namespace plusfish

namespace Scan

section
variable {env : ScanEnv}

theorem Waits.of_sameAudits {scan scan' : Scan} {q : Nat} (h : scan.Waits q)
    (hsame : SameAudits env scan scan') : scan'.Waits q := by
  have hframe := hsame.frame
  obtain ⟨mem, store, rfl, _⟩ := hsame
  refine ⟨h.allocated, fun req hreq => ?_, h.notFinished, h.unfinished, h.outstanding⟩
  obtain ⟨hlt, hhandler⟩ := h.handlers req hreq
  exact ⟨Nat.lt_of_lt_of_le hlt hframe.next_le,
    (Frame.deref hframe hlt).requestHandler.trans hhandler⟩

theorem Waits.of_selectiveAuditor {scan : Scan} {q : Nat} (h : scan.Waits q)
    (selectiveAuditor : SelectiveAuditor) : { scan with selectiveAuditor }.Waits q :=
  ⟨h.allocated, h.handlers, h.notFinished, h.unfinished, h.outstanding⟩

theorem receive_requestHandler (scan : Scan) (req : Nat) (transfer : Transfer) (q : Nat) :
    (deref (scan.receive req transfer).mem q).requestHandler =
      (deref scan.mem q).requestHandler := by
  simp only [receive, deref, Heap.get?_modify]
  split
  · cases scan.mem.get? q with
    | none => rfl
    | some request =>
      simp only [Option.map_some, Option.getD_some, Request.withTransfer]
      split <;> split <;> rfl
  · rfl

theorem countP_le_erase (f : Nat → Bool) (l : List Nat) (a : Nat) :
    l.countP f ≤ (l.erase a).countP f + if f a then 1 else 0 := by
  by_cases ha : a ∈ l
  · have hcount := (List.perm_cons_erase ha).countP_eq f
    rw [List.countP_cons] at hcount
    exact Nat.le_of_eq hcount
  · rw [List.erase_of_not_mem ha]
    omega

/-- Another runner goes on waiting where the request of a runner is called back. -/
theorem Waits.receive {scan : Scan} {p q req : Nat} (h : scan.Waits q) (transfer : Transfer)
    (hhandler : (deref scan.mem req).requestHandler = some (.securityCheckRunner p))
    (hq : q ≠ p) : (scan.receive req transfer).Waits q := by
  have hnot : req ∉ (scan.runnerAt q).requests := by
    intro hmem
    have hother := (h.handlers req hmem).2
    rw [hhandler] at hother
    cases hother
    exact hq rfl
  have hcount := countP_le_erase (· ∈ (scan.runnerAt q).requests) scan.outstanding req
  simp only [hnot, decide_false, Bool.false_eq_true, if_false] at hcount
  refine ⟨h.allocated, fun r hr => ?_, h.notFinished, h.unfinished, ?_⟩
  · obtain ⟨hlt, hr'⟩ := h.handlers r hr
    exact ⟨by simpa [Scan.receive] using hlt, by rw [receive_requestHandler, hr']⟩
  · exact Nat.le_trans h.outstanding (Nat.add_le_add_left hcount _)

/-- A runner goes on waiting where one of its requests is called back, or an earlier one,
    unless the count of its callbacks is full. -/
theorem Waits.count {scan : Scan} {p : Nat} (h : scan.Waits p) (req : Nat) (transfer : Transfer)
    (hunfinished : (scan.runnerAt p).countCallback.finished = false) :
    ((scan.receive req transfer).setRunner p (scan.runnerAt p).countCallback).Waits p := by
  have hlt := h.unfinished
  have hout := h.outstanding
  have hcount := countP_le_erase (· ∈ (scan.runnerAt p).requests) scan.outstanding req
  have hrunner : ((scan.receive req transfer).setRunner p
      (scan.runnerAt p).countCallback).runnerAt p = (scan.runnerAt p).countCallback :=
    runnerAt_setRunner (scan.receive req transfer) h.allocated _
  have hnotFull : (scan.runnerAt p).requestsCompleted + 1 ≠ (scan.runnerAt p).requests.length := by
    intro hfull
    simp [SecurityCheckRunner.countCallback, hfull] at hunfinished
  refine ⟨?_, ?_, ?_, ?_, ?_⟩
  · rw [(setRunner_runsFor _ p _).runnerNext]
    exact h.allocated
  · rw [hrunner]
    intro r hr
    obtain ⟨hlt, hr'⟩ := h.handlers r hr
    exact ⟨by simpa [Scan.receive, setRunner] using hlt,
      (receive_requestHandler scan req transfer r).trans hr'⟩
  · rw [hrunner]
    exact hunfinished
  · rw [hrunner]
    simp only [SecurityCheckRunner.countCallback]
    omega
  · rw [hrunner]
    change (scan.runnerAt p).requests.length ≤ (scan.runnerAt p).requestsCompleted + 1 +
      (scan.outstanding.erase req).countP (· ∈ (scan.runnerAt p).requests)
    split at hcount <;> omega

/-- What a runner whose check is done leaves behind: it waits again, or it is erased. -/
theorem finishedCheckCb_outcome (env : ScanEnv) {scan : Scan} {p : Nat}
    (hp : p < scan.runnerMem.next)
    (hchecks : ∀ check ∈ (scan.runnerAt p).nextChecks, check.measures = true) :
    ∃ middle : Scan, (∀ q ≠ p, scan.Waits q → middle.Waits q) ∧
      (∀ q ≠ p, middle.runnerAt q = scan.runnerAt q) ∧
      (middle.runnerAt p).nextChecks <:+ (scan.runnerAt p).nextChecks ∧
      middle.selectiveAuditor = scan.selectiveAuditor ∧ scan.calls <+: middle.calls ∧
      (scan.finishedCheckCb env p = middle.eraseRunner p ∨
        (scan.finishedCheckCb env p = middle ∧ (middle.NoneRefusedInSerial → middle.Waits p))) := by
  obtain ⟨mem, store, hscraped, heffects⟩ := scrapeRequests_sameAudits env scan p
  have hsame : SameAudits env scan { scan with mem, store } := ⟨mem, store, rfl, heffects⟩
  unfold finishedCheckCb
  simp only [hscraped]
  cases hnext : (({ scan with mem, store } : Scan).runnerAt p).setNextCheck with
  | none =>
    exact ⟨{ scan with mem, store }, fun q _ h => h.of_sameAudits hsame, fun _ _ => rfl,
      List.suffix_refl _, rfl, List.prefix_refl _, Or.inl rfl⟩
  | some runner =>
    obtain ⟨hfresh, hcons⟩ := Fresh.of_setNextCheck { scan with mem, store } hp hnext
    obtain ⟨hruns, hsuffix, hwaits⟩ := hfresh.scheduleNextCheck env
    rw [runnerAt_setRunner { scan with mem, store } hp] at hwaits
    have hmeasures : ∀ check ∈ runner.securityCheck :: runner.nextChecks, check.measures = true :=
      hcons ▸ hchecks
    have hall := (setRunner_runsFor { scan with mem, store } p runner).trans hruns
    dsimp only
    generalize Scan.scheduleNextCheck env _ p = result at hruns hsuffix hwaits hall
    obtain ⟨done, middle⟩ := result
    have hlist : (middle.runnerAt p).nextChecks <:+ (scan.runnerAt p).nextChecks :=
      hsuffix.trans (hcons ▸ List.suffix_cons _ _)
    refine ⟨middle, fun q hq h => (h.of_sameAudits hsame).of_runsFor hall hq,
      fun q hq => hall.runnerAt hq, hlist, hall.selectiveAuditor, hall.calls, ?_⟩
    cases done with
    | true => exact Or.inr ⟨rfl, hwaits hmeasures rfl⟩
    | false => exact Or.inl rfl

/-- Every runner that the auditor holds waits, and every check measures. -/
structure Served (scan : Scan) : Prop where
  nodup : scan.selectiveAuditor.runners.Nodup
  waits : ∀ p ∈ scan.selectiveAuditor.runners, scan.Waits p
  checks : ∀ check ∈ scan.selectiveAuditor.checks, check.measures = true
  nextChecks : ∀ p, ∀ check ∈ (scan.runnerAt p).nextChecks, check.measures = true

theorem allocated_of_finished {scan : Scan} {p : Nat} (h : (scan.runnerAt p).finished = true) :
    p < scan.runnerMem.next := by
  cases hget : scan.runnerMem.get? p with
  | none =>
    rw [runnerAt, hget] at h
    cases h
  | some runner => exact Heap.lt_next_of_get? hget

theorem setRunner_nextChecks (scan : Scan) {p : Nat} (runner : SecurityCheckRunner)
    (hsame : runner.nextChecks = (scan.runnerAt p).nextChecks) (q : Nat) :
    ((scan.setRunner p runner).runnerAt q).nextChecks = (scan.runnerAt q).nextChecks := by
  by_cases hq : q = p
  · subst hq
    cases hget : scan.runnerMem.get? q with
    | none => simp [runnerAt, setRunner, Heap.get?_modify, hget]
    | some found => rw [runnerAt_setRunner scan (Heap.lt_next_of_get? hget), hsame]
  · rw [(setRunner_runsFor scan p runner).runnerAt hq]

/-- The same, where the check of one runner may just have been finished. -/
structure ServedUpTo (scan : Scan) (p : Nat) : Prop where
  nodup : scan.selectiveAuditor.runners.Nodup
  others : ∀ q ∈ scan.selectiveAuditor.runners, q ≠ p → scan.Waits q
  own : p ∈ scan.selectiveAuditor.runners → (scan.runnerAt p).finished = false → scan.Waits p
  checks : ∀ check ∈ scan.selectiveAuditor.checks, check.measures = true
  nextChecks : ∀ q, ∀ check ∈ (scan.runnerAt q).nextChecks, check.measures = true

theorem Served.count {scan : Scan} {p req : Nat} (h : scan.Served) (transfer : Transfer)
    (hhandler : (deref scan.mem req).requestHandler = some (.securityCheckRunner p)) :
    ((scan.receive req transfer).setRunner p (scan.runnerAt p).countCallback).ServedUpTo p where
  nodup := h.nodup
  others q hmem hq :=
    ((h.waits q hmem).receive transfer hhandler hq).of_runsFor (setRunner_runsFor _ p _) hq
  own hmem hunfinished := by
    have hwaits := h.waits p hmem
    rw [runnerAt_setRunner (scan.receive req transfer) hwaits.allocated] at hunfinished
    exact hwaits.count req transfer hunfinished
  checks := h.checks
  nextChecks q := by
    rw [setRunner_nextChecks (scan.receive req transfer) (scan.runnerAt p).countCallback rfl]
    exact h.nextChecks q

theorem ServedUpTo.of_sameAudits {scan scan' : Scan} {p : Nat} (h : scan.ServedUpTo p)
    (hsame : SameAudits env scan scan') : scan'.ServedUpTo p := by
  have hwaits (q : Nat) (hq : scan.Waits q) : scan'.Waits q := hq.of_sameAudits hsame
  obtain ⟨mem, store, rfl, _⟩ := hsame
  exact ⟨h.nodup, fun q hmem hq => hwaits q (h.others q hmem hq),
    fun hmem hunfinished => hwaits p (h.own hmem hunfinished), h.checks, h.nextChecks⟩

/-- A runner whose check is done waits again or is erased. -/
theorem ServedUpTo.finishedCheckCb {scan : Scan} {p : Nat} (h : scan.ServedUpTo p)
    (hp : p < scan.runnerMem.next) (hclean : (scan.finishedCheckCb env p).NoneRefusedInSerial) :
    (scan.finishedCheckCb env p).Served := by
  obtain ⟨middle, hothers, hrunners, hsuffix, hauditor, _, houtcome⟩ :=
    finishedCheckCb_outcome env hp (h.nextChecks p)
  have hnext : ∀ q, ∀ check ∈ (middle.runnerAt q).nextChecks, check.measures = true := by
    intro q
    by_cases hq : q = p
    · subst hq
      exact fun check hmem => h.nextChecks q check (hsuffix.subset hmem)
    · rw [hrunners q hq]
      exact h.nextChecks q
  rcases houtcome with heq | ⟨heq, hown⟩
  · rw [heq]
    refine ⟨?_, fun q hmem => ?_, ?_, hnext⟩
    · simp only [eraseRunner, hauditor]
      exact h.nodup.erase p
    · simp only [eraseRunner, hauditor] at hmem
      obtain ⟨hq, hmem⟩ := h.nodup.mem_erase_iff.mp hmem
      exact (hothers q hq (h.others q hmem hq)).of_selectiveAuditor _
    · simp only [eraseRunner, hauditor]
      exact h.checks
  · rw [heq] at hclean ⊢
    refine ⟨?_, fun q hmem => ?_, ?_, hnext⟩
    · rw [hauditor]
      exact h.nodup
    · by_cases hq : q = p
      · subst hq
        exact hown hclean
      · rw [hauditor] at hmem
        exact hothers q hq (h.others q hmem hq)
    · rw [hauditor]
      exact h.checks

/-- The callback of a runner keeps all the runners served. -/
theorem Served.runnerCallback {scan : Scan} {p req : Nat} {transfer : Transfer}
    (h : scan.Served)
    (hhandler : (deref scan.mem req).requestHandler = some (.securityCheckRunner p))
    (hclean : ((scan.receive req transfer).runnerCallback env p req).NoneRefusedInSerial) :
    ((scan.receive req transfer).runnerCallback env p req).Served := by
  have hcounted := (h.count transfer hhandler).of_sameAudits
    (evaluateCallback_sameAudits env _ p req)
  unfold Scan.runnerCallback at hclean ⊢
  have hrunner : (scan.receive req transfer).runnerAt p = scan.runnerAt p := rfl
  simp only [hrunner] at hclean ⊢
  generalize evaluateCallback env _ p req = evaluated at hcounted hclean ⊢
  split
  · rename_i hfinished
    rw [if_pos hfinished] at hclean
    exact hcounted.finishedCheckCb (allocated_of_finished hfinished) hclean
  · rename_i hunfinished
    refine ⟨hcounted.nodup, fun q hmem => ?_, hcounted.checks, hcounted.nextChecks⟩
    by_cases hq : q = p
    · subst hq
      exact hcounted.own hmem (by simpa using hunfinished)
    · exact hcounted.others q hmem hq

theorem allocRunner_runnerAt (scan : Scan) (req : Nat) (check : SecurityCheck)
    (checks : List SecurityCheck) {q : Nat} (hq : q ≠ scan.runnerMem.next) :
    (scan.allocRunner req check checks).runnerAt q = scan.runnerAt q := by
  simp [allocRunner, runnerAt, Heap.get?_alloc, hq]

theorem Waits.allocRunner {scan : Scan} {q : Nat} (h : scan.Waits q) (req : Nat)
    (check : SecurityCheck) (checks : List SecurityCheck) :
    (scan.allocRunner req check checks).Waits q := by
  have hrunner := allocRunner_runnerAt scan req check checks (Nat.ne_of_lt h.allocated)
  refine ⟨?_, ?_, ?_, ?_, ?_⟩
  · simp only [Scan.allocRunner, Heap.next_alloc]
    exact Nat.lt_succ_of_lt h.allocated
  all_goals rw [hrunner]
  · exact h.handlers
  · exact h.notFinished
  · exact h.unfinished
  · exact h.outstanding

/-- A request is given to the auditor: where tests were scheduled for it, a new runner
    waits. -/
theorem Served.scheduleFirst {scan : Scan} (h : scan.Served) (req : Nat)
    (hclean : (scan.scheduleFirst env req).2.NoneRefusedInSerial) :
    (scan.scheduleFirst env req).2.Served := by
  cases hlist : scan.selectiveAuditor.checks with
  | nil =>
    unfold Scan.scheduleFirst
    simp only [hlist]
    exact h
  | cons check checks =>
    have hmeasures := h.checks
    rw [hlist] at hmeasures
    obtain ⟨hruns, hsuffix, hready⟩ :=
      (allocRunner_fresh scan check checks req).scheduleNextCheck env
    rw [allocRunner_runnerAt_next] at hready
    have hothers (q : Nat) (hmem : q ∈ scan.selectiveAuditor.runners) :=
      ((h.waits q hmem).allocRunner req check checks).of_runsFor hruns
        (Nat.ne_of_lt (h.waits q hmem).allocated)
    have hnext : ∀ q, ∀ check' ∈ (((scan.allocRunner req check checks).scheduleNextCheck env
        scan.runnerMem.next).2.runnerAt q).nextChecks, check'.measures = true := by
      intro q check' hmem
      by_cases hq : q = scan.runnerMem.next
      · subst hq
        exact hmeasures check' (List.mem_cons_of_mem _ (hsuffix.subset hmem))
      · rw [hruns.runnerAt hq, allocRunner_runnerAt scan req check checks hq] at hmem
        exact h.nextChecks q check' hmem
    rw [scheduleFirst_eq env hlist] at hclean ⊢
    generalize (scan.allocRunner req check checks).scheduleNextCheck env
      scan.runnerMem.next = result at hruns hready hothers hnext hclean ⊢
    obtain ⟨done, after⟩ := result
    have hauditor : after.selectiveAuditor = scan.selectiveAuditor := hruns.selectiveAuditor
    have hchecks : ∀ check ∈ after.selectiveAuditor.checks, check.measures = true := by
      rw [hauditor]
      exact h.checks
    have hnotHeld : scan.runnerMem.next ∉ scan.selectiveAuditor.runners := fun hmem =>
      Nat.lt_irrefl _ (h.waits _ hmem).allocated
    cases done with
    | false =>
      refine ⟨?_, fun q hmem => ?_, hchecks, hnext⟩
      · exact hauditor ▸ h.nodup
      · exact hothers q (hauditor ▸ hmem)
    | true =>
      refine ⟨?_, fun q hmem => ?_, hchecks, hnext⟩
      · simp only [if_true, pushRunner, hauditor]
        exact List.nodup_append.mpr ⟨h.nodup, List.nodup_singleton _, fun a ha b hb => by
          rw [List.mem_singleton.mp hb]
          exact fun heq => hnotHeld (heq ▸ ha)⟩
      · simp only [if_true, pushRunner, hauditor] at hmem
        rcases List.mem_append.mp hmem with hmem | hmem
        · exact (hothers q hmem).of_selectiveAuditor _
        · rw [List.mem_singleton.mp hmem]
          exact (hready hmeasures rfl hclean).of_selectiveAuditor _

end

/-- A request is given to the auditor, or a scheduled request is called back. -/
inductive AuditOp where
  | scheduleFirst (req : Nat)
  | requestCallback (req : Nat) (transfer : Transfer)

/-- Each request that was accepted can be called back once. -/
def auditStep (env : ScanEnv) (scan : Scan) : AuditOp → Option Scan
  | .scheduleFirst req => some (scan.scheduleFirst env req).2
  | .requestCallback req transfer =>
    if req ∈ scan.outstanding then
      match (deref scan.mem req).requestHandler with
      | some (.securityCheckRunner p) =>
        some ((scan.receive req transfer).runnerCallback env p req)
      | _ => none
    else none

variable {env : ScanEnv}

/-- What one audit step does: it starts an audit or makes the callback of a runner. -/
theorem auditStep_cases {scan next : Scan} {op : AuditOp}
    (hstep : scan.auditStep env op = some next) :
    (∃ req, next = (scan.scheduleFirst env req).2) ∨
    ∃ req transfer p, (deref scan.mem req).requestHandler = some (.securityCheckRunner p) ∧
      next = (scan.receive req transfer).runnerCallback env p req := by
  cases op with
  | scheduleFirst req =>
    cases hstep
    exact Or.inl ⟨req, rfl⟩
  | requestCallback req transfer =>
    simp only [auditStep] at hstep
    split at hstep
    · split at hstep
      · rename_i p hhandler
        cases hstep
        exact Or.inr ⟨req, transfer, p, hhandler, rfl⟩
      · cases hstep
    · cases hstep

theorem auditStep_calls {scan next : Scan} {op : AuditOp}
    (hstep : scan.auditStep env op = some next) :
    scan.calls <+: next.calls := by
  rcases auditStep_cases hstep with ⟨req, rfl⟩ | ⟨req, transfer, p, _, rfl⟩
  · obtain ⟨calls, hhands, _⟩ := (scheduleFirst_schedulings env scan req).effects.hands
    rw [hhands.calls]
    exact List.prefix_append _ _
  · obtain ⟨calls, hhands, _⟩ :=
      (runnerCallback_effects env (scan.receive req transfer) p req).hands
    have hcalls : ((scan.receive req transfer).runnerCallback env p req).calls =
        scan.calls ++ calls := hhands.calls
    rw [hcalls]
    exact List.prefix_append _ _

theorem Served.auditStep {scan next : Scan} {op : AuditOp} (h : scan.Served)
    (hstep : scan.auditStep env op = some next) (hclean : next.NoneRefusedInSerial) :
    next.Served := by
  rcases auditStep_cases hstep with ⟨req, rfl⟩ | ⟨req, transfer, p, hhandler, rfl⟩
  · exact h.scheduleFirst req hclean
  · exact h.runnerCallback hhandler hclean

/-- An auditor that has not been given any request. -/
structure Unused (scan : Scan) : Prop where
  runners : scan.selectiveAuditor.runners = []
  runnerMem : scan.runnerMem = {}

/-- In every run in which no check with a measurement count below one is used, and in which
    no request of a check evaluated in serial is refused, every runner that the auditor
    holds has an outstanding request of its current check, until it is erased. -/
theorem runners_served_of_run {start last : Scan} {ops : List AuditOp} (hunused : start.Unused)
    (hmeasures : ∀ check ∈ start.selectiveAuditor.checks, check.measures = true)
    (hrun : transition.run (auditStep env) start ops = some last)
    (hclean : last.NoneRefusedInSerial) :
    (∀ p ∈ last.selectiveAuditor.runners,
      ∃ req ∈ (last.runnerAt p).requests, req ∈ last.outstanding) ∧
    (last.outstanding = [] → last.selectiveAuditor.runners = []) := by
  have hstart : start.Served := by
    refine ⟨?_, fun p hmem => ?_, hmeasures, fun p check hmem => ?_⟩
    · rw [hunused.runners]
      exact List.nodup_nil
    · rw [hunused.runners] at hmem
      cases hmem
    · simp only [runnerAt, hunused.runnerMem] at hmem
      cases hmem
  have hserved : last.Served :=
    run_preserves (P := fun scan : Scan => scan.NoneRefusedInSerial → scan.Served)
      (fun _ _ _ h hstep hnext =>
        (h (hnext.mono (auditStep_calls hstep))).auditStep hstep hnext)
      (fun _ => hstart) hrun hclean
  refine ⟨fun p hmem => (hserved.waits p hmem).exists_outstanding, fun hidle => ?_⟩
  apply List.eq_nil_iff_forall_not_mem.mpr
  intro p hmem
  obtain ⟨req, _, hreq⟩ := (hserved.waits p hmem).exists_outstanding
  rw [hidle] at hreq
  cases hreq

/-- A scan of a site whose pages are plain text, with a client that gives one answer to
    every call. -/
def plainEnv (answer : Bool) : ScanEnv where
  store := StoreEnv.literal
  request := RequestEnv.single (ascii "site")
  maxAuditorRunners := 10
  extractLinks := true
  discardBinaryResponses := true
  hasAuditors := true
  hasObjectsFinder := true
  accepts := fun _ => answer
  scrapeHtml := fun _ _ _ => none
  parseFingerprint := fun _ => none

/-- A check that is evaluated in serial, with one request that differs from the original
    in its parent only. -/
def repeatCheck : SecurityCheck :=
  .generic
    { securityTest := { allowSerialEvaluation := true }
      generator := ⟨fun request => [{ request with parentId := request.id }]⟩
      matcher := none }

/-- An auditor with some checks, and one request to test. -/
def oneAudit (checks : List SecurityCheck) : Scan :=
  { mem := ⟨[shopRequest]⟩, selectiveAuditor := { checks } }

def measuredChecks : List SecurityCheck := [.responseTime ⟨1, 8000⟩, repeatCheck]

def measuredOps : List AuditOp := [.scheduleFirst 0, .requestCallback 1 {}]

theorem runners_served_of_run_oneAudit : ∃ last : Scan,
    transition.run (auditStep (plainEnv true)) (oneAudit measuredChecks) measuredOps = some last ∧
      last.selectiveAuditor.runners = [0] ∧
      (∀ p ∈ last.selectiveAuditor.runners,
        ∃ req ∈ (last.runnerAt p).requests, req ∈ last.outstanding) ∧
      (last.outstanding = [] → last.selectiveAuditor.runners = []) := by
  have hmeasures : ∀ check ∈ (oneAudit measuredChecks).selectiveAuditor.checks,
      check.measures = true := by decide
  have hrun : transition.run (auditStep (plainEnv true)) (oneAudit measuredChecks) measuredOps =
      some _ := rfl
  exact ⟨_, hrun, rfl, runners_served_of_run ⟨rfl, rfl⟩ hmeasures hrun (by decide)⟩

/-- A response time check with no measurements leaves a runner that waits for nothing, and
    so does a check evaluated in serial whose only request is refused. -/
theorem oneAudit_stuck :
    (∃ last : Scan, transition.run (auditStep (plainEnv true)) (oneAudit [.responseTime ⟨0, 8000⟩])
        [.scheduleFirst 0] = some last ∧
      last.outstanding = [] ∧ last.selectiveAuditor.runners = [0]) ∧
    ∃ last : Scan, transition.run (auditStep (plainEnv false)) (oneAudit [repeatCheck])
        [.scheduleFirst 0] = some last ∧
      last.outstanding = [] ∧ last.selectiveAuditor.runners = [0] :=
  ⟨⟨_, rfl, rfl, rfl⟩, _, rfl, rfl, rfl⟩

end Scan

end plusfish

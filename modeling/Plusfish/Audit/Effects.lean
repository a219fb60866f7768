import Plusfish.Audit.SelectiveAuditor
import Plusfish.Scan.Effects

open memory Relation

namespace plusfish

namespace Scan

section
variable (env : ScanEnv)

/-- What looking at pages does to requests and the datastore. -/
def LooksAtPages (newRequest : Request → Prop) (scan scan' : Scan) : Prop :=
  ∃ mem store, scan' = { scan with mem, store } ∧
    PageEffects env.store newRequest (scan.mem, scan.store) (mem, store)

variable {env} in
theorem LooksAtPages.sameAudits {newRequest : Request → Prop} {scan scan' : Scan}
    (h : LooksAtPages env newRequest scan scan') : SameAudits env scan scan' := by
  obtain ⟨mem, store, heq, heffects⟩ := h
  exact ⟨mem, store, heq, heffects.storeEffects⟩

variable {env} in
/-- Looking at pages leaves the metadata of the requests alone. -/
theorem LooksAtPages.getRequestMetadata {newRequest : Request → Prop} {scan scan' : Scan}
    (h : LooksAtPages env newRequest scan scan') :
    scan'.store.getRequestMetadata = scan.store.getRequestMetadata := by
  obtain ⟨mem, store, rfl, heffects⟩ := h
  funext requestId type
  unfold DataStore.getRequestMetadata
  rw [heffects.samePlans.requestMeta]

theorem reportIssue_looksAtPages (newRequest : Request → Prop) (scan : Scan) (p req : Nat) :
    LooksAtPages env newRequest scan (scan.reportIssue env p req) := by
  unfold reportIssue
  dsimp only
  split
  · exact ⟨_, _, rfl, .single (.issue scan.mem scan.store _ _)⟩
  · exact ⟨scan.mem, scan.store, rfl, .refl⟩

theorem reportIssue_sameAudits (scan : Scan) (p req : Nat) :
    SameAudits env scan (scan.reportIssue env p req) :=
  (reportIssue_looksAtPages env (fun _ => False) scan p req).sameAudits

theorem addRequestMetadata_effect {env : StoreEnv} (mem : Heap Request) (store : DataStore)
    (requestId : Int) (type : MetaDataType) (value : Int) :
    StoreEffect env (mem, store) (mem, (store.addRequestMetadata requestId type value).2) := by
  apply StoreEffect.keep
  all_goals
    simp only [DataStore.addRequestMetadata]
    split <;> rfl

theorem setRequestMeta_sameAudits (scan : Scan) (entry : Option (Int × Int)) :
    SameAudits env scan (scan.setRequestMeta entry) := by
  unfold setRequestMeta
  split
  · exact .refl env scan
  · exact ⟨scan.mem, _, rfl, .single (addRequestMetadata_effect scan.mem scan.store _ _ _)⟩

theorem evaluateCallback_sameAudits (scan : Scan) (p req : Nat) :
    SameAudits env scan (scan.evaluateCallback env p req) := by
  unfold evaluateCallback
  dsimp only
  split_ifs
  · exact reportIssue_sameAudits env scan p req
  · exact .refl env scan
  · exact (setRequestMeta_sameAudits env scan _).trans env (reportIssue_sameAudits env _ p req)
  · exact setRequestMeta_sameAudits env scan _
  · exact .refl env scan

/-- The scrape callbacks look at the pages that a runner got. -/
theorem scrapeRequests_looksAtPages (scan : Scan) (p : Nat) :
    LooksAtPages env (fun request => ∃ mem req, Crawler.Discovers env mem req request) scan
      (scan.scrapeRequests env p) := by
  unfold scrapeRequests
  dsimp only
  split
  · rename_i hscrapes
    generalize (scan.runnerAt p).requests = reqs
    clear hscrapes
    induction reqs generalizing scan with
    | nil => exact ⟨scan.mem, scan.store, rfl, .refl⟩
    | cons req reqs ih =>
      have hscrape := Crawler.scrapeRequest_pageEffects env scan.mem scan.store req false false
      obtain ⟨mem, store, heq, heffects⟩ := ih _
      exact ⟨mem, store, heq, (hscrape.mono fun request h => ⟨scan.mem, req, h⟩).trans heffects⟩
  · exact ⟨scan.mem, scan.store, rfl, .refl⟩

theorem scrapeRequests_sameAudits (scan : Scan) (p : Nat) :
    SameAudits env scan (scan.scrapeRequests env p) :=
  (scrapeRequests_looksAtPages env scan p).sameAudits

end

variable {env : ScanEnv}

/-- A call that a runner makes. -/
def isRunner : ScheduleCaller → Prop
  | .securityCheckRunner _ _ => True
  | _ => False

theorem setRunner_schedulings (scan : Scan) (p : Nat) (runner : SecurityCheckRunner) :
    Schedulings env isRunner scan (scan.setRunner p runner) :=
  .single (.auditor scan (fun _ _ => trivial) _ scan.selectiveAuditor)

theorem eraseRunner_schedulings (scan : Scan) (p : Nat) :
    Schedulings env isRunner scan (scan.eraseRunner p) :=
  .single (.auditor scan (fun _ _ => trivial) scan.runnerMem _)

theorem scheduleRequests_schedulings (p : Nat) (check : SecurityCheck) (reqs : List Nat)
    (scan : Scan) : Schedulings env isRunner scan (scheduleRequests env p check reqs scan).2 := by
  induction reqs generalizing scan with
  | nil => exact .refl
  | cons req reqs ih =>
    have hfirst : Schedulings env isRunner scan (scan.scheduleWith env
        (.securityCheckRunner p check.canEvaluateInSerial) req (.securityCheckRunner p)).2 :=
      .single (.schedule scan _ trivial req _)
    simp only [scheduleRequests]
    split
    · exact hfirst
    · exact hfirst.trans (ih _)

theorem createRequests_schedulings (scan : Scan) (p : Nat) :
    Schedulings env isRunner scan (scan.createRequests env p).2 :=
  (ReflTransGen.single (.alloc scan _)).trans (setRunner_schedulings _ p _)

theorem run_schedulings (scan : Scan) (p : Nat) :
    Schedulings env isRunner scan (scan.run env p).2 := by
  have hcreated : Schedulings env isRunner scan (scan.createRequests env p).2 :=
    createRequests_schedulings scan p
  unfold run
  dsimp only
  split_ifs
  · exact hcreated
  · exact hcreated
  · exact hcreated.trans (scheduleRequests_schedulings p _ _ _)

theorem scheduleChecks_schedulings (p : Nat) (nextChecks : List SecurityCheck) (scan : Scan) :
    Schedulings env isRunner scan (scheduleChecks env p nextChecks scan).2 := by
  induction nextChecks generalizing scan with
  | nil =>
    have hrun : Schedulings env isRunner scan (scan.run env p).2 := run_schedulings scan p
    rw [scheduleChecks]
    dsimp only
    split
    · exact hrun
    · exact hrun
  | cons check checks ih =>
    have hrun : Schedulings env isRunner scan (scan.run env p).2 := run_schedulings scan p
    rw [scheduleChecks]
    dsimp only
    split
    · exact hrun
    · split
      · exact hrun
      · exact hrun.trans ((setRunner_schedulings _ p _).trans (ih _))

theorem scheduleNextCheck_schedulings (scan : Scan) (p : Nat) :
    Schedulings env isRunner scan (scan.scheduleNextCheck env p).2 :=
  scheduleChecks_schedulings p _ scan

/-- The auditor with a new runner for a request. -/
def allocRunner (scan : Scan) (req : Nat) (check : SecurityCheck) (checks : List SecurityCheck) :
    Scan :=
  { scan with
    runnerMem := (scan.runnerMem.alloc
      { testedRequest := req
        securityCheck := check
        nextChecks := checks
        issueCallback := scan.selectiveAuditor.issueCallback }).2 }

theorem scheduleFirst_eq (env : ScanEnv) {scan : Scan} {check : SecurityCheck}
    {checks : List SecurityCheck} (hlist : scan.selectiveAuditor.checks = check :: checks)
    (req : Nat) : scan.scheduleFirst env req =
      if ((scan.allocRunner req check checks).scheduleNextCheck env scan.runnerMem.next).1 then
        (true, ((scan.allocRunner req check checks).scheduleNextCheck env
          scan.runnerMem.next).2.pushRunner scan.runnerMem.next)
      else (false,
        ((scan.allocRunner req check checks).scheduleNextCheck env scan.runnerMem.next).2) := by
  unfold scheduleFirst
  simp only [hlist, Heap.alloc_fst]
  have halloc : { scan with
      runnerMem := (scan.runnerMem.alloc
        { testedRequest := req
          securityCheck := check
          nextChecks := checks
          issueCallback := scan.selectiveAuditor.issueCallback }).2 } =
      scan.allocRunner req check checks := rfl
  rw [halloc]
  generalize (scan.allocRunner req check checks).scheduleNextCheck env _ = result
  obtain ⟨done, after⟩ := result
  cases done <;> rfl

theorem scheduleFirst_schedulings (env : ScanEnv) (scan : Scan) (req : Nat) :
    Schedulings env isRunner scan (scan.scheduleFirst env req).2 := by
  cases hlist : scan.selectiveAuditor.checks with
  | nil =>
    unfold scheduleFirst
    simp only [hlist]
    exact .refl
  | cons check checks =>
    have halloc : Schedulings env isRunner scan (scan.allocRunner req check checks) :=
      .single (.auditor scan (fun _ _ => trivial) _ scan.selectiveAuditor)
    have hnext : Schedulings env isRunner scan
        ((scan.allocRunner req check checks).scheduleNextCheck env scan.runnerMem.next).2 :=
      halloc.trans (scheduleNextCheck_schedulings _ _)
    rw [scheduleFirst_eq env hlist]
    split
    · exact hnext.trans (.single (.auditor _ (fun _ _ => trivial) _ _))
    · exact hnext

/-- After the scrape callbacks, the checks that come next are scheduled. -/
theorem finishedCheckCb_schedulings (scan : Scan) (p : Nat) :
    Schedulings env isRunner (scan.scrapeRequests env p) (scan.finishedCheckCb env p) := by
  unfold finishedCheckCb
  generalize scan.scrapeRequests env p = scraped
  dsimp only
  split
  · exact eraseRunner_schedulings scraped p
  · rename_i runner _
    have hscheduled : Schedulings env isRunner scraped
        ((scraped.setRunner p runner).scheduleNextCheck env p).2 :=
      (setRunner_schedulings scraped p runner).trans (scheduleNextCheck_schedulings _ p)
    generalize (scraped.setRunner p runner).scheduleNextCheck env p = result at hscheduled
    obtain ⟨done, after⟩ := result
    cases done with
    | true => exact hscheduled
    | false => exact hscheduled.trans (eraseRunner_schedulings after p)

theorem finishedCheckCb_effects (scan : Scan) (p : Nat) :
    Effects env isRunner scan (scan.finishedCheckCb env p) := by
  have hscrape : Effects env isRunner scan (scan.scrapeRequests env p) :=
    .single (.same (scrapeRequests_sameAudits env scan p))
  exact hscrape.trans (finishedCheckCb_schedulings scan p).effects

theorem runnerCallback_effects (env : ScanEnv) (scan : Scan) (p req : Nat) :
    Effects env isRunner scan (scan.runnerCallback env p req) := by
  have hevaluated : Effects env isRunner scan
      ((scan.setRunner p (scan.runnerAt p).countCallback).evaluateCallback env p req) :=
    (setRunner_schedulings scan p _).effects.trans
      (.single (.same (evaluateCallback_sameAudits env _ p req)))
  unfold runnerCallback
  dsimp only
  split
  · exact hevaluated.trans (finishedCheckCb_effects _ p)
  · exact hevaluated

end Scan

end plusfish

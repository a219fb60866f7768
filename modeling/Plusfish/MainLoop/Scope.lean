import Plusfish.Audit.InjectedFields
import Plusfish.Audit.Tested
import Plusfish.MainLoop.Pipeline

open memory ordered_map Relation transition

namespace plusfish

namespace GenericGenerator

variable {env : RequestEnv} {rule : GeneratorRule} {base request : Request}

/-- A generated request is the message of the base request with other fields. -/
theorem exists_mutatedRequest_of_mem_generate (hmem : request ∈ generate env rule base) :
    ∃ target fields, request = mutatedRequest env base target fields := by
  have hinjected (target : GeneratorRule.PayloadTarget) (indices : List Nat)
      (fields : List HttpRequest.RequestField)
      (hin : request ∈ injectFields env rule base target indices fields) :
      ∃ target fields, request = mutatedRequest env base target fields := by
    induction indices generalizing fields with
    | nil => cases hin
    | cons i indices ih =>
      rcases List.mem_append.mp hin with hin | hin
      · obtain ⟨injection, _, rfl⟩ := List.mem_map.mp hin
        exact ⟨_, _, rfl⟩
      · exact ih _ hin
  rw [generate_eq] at hmem
  obtain ⟨target, _, hin⟩ := List.mem_flatMap.mp hmem
  exact hinjected target _ _ hin

end GenericGenerator

/-- The requests that a check makes name the host that the tested request names. -/
theorem SecurityCheck.FromRule.sameHost {env : RequestEnv} {check : SecurityCheck}
    (h : check.FromRule env) {base request : Request}
    (hmem : request ∈ (check.createRequests env base).2) : Request.SameHost base request := by
  cases check with
  | generic check =>
    obtain ⟨rule, hrule⟩ := h
    simp only [createRequests, GenericSecurityCheck.createRequests, hrule] at hmem
    obtain ⟨target, fields, rfl⟩ := GenericGenerator.exists_mutatedRequest_of_mem_generate hmem
    exact (GenericGenerator.mutatedRequest_rest env base target fields).2.1
  | responseTime check =>
    rw [List.eq_of_mem_replicate hmem]
    obtain ⟨url, added, hproto, _⟩ := GenericGenerator.ofProto_proto env base.proto
    have hhost := congrArg HttpRequest.hostField hproto
    exact hhost

/-- A runner tests a page that the crawler has handed to the HTTP client, with checks that are
    made from rules, and its requests name the host of this page. -/
structure SecurityCheckRunner.OnTarget (env : ScanEnv) (mem : Heap Request) (crawled : List Nat)
    (runner : SecurityCheckRunner) : Prop where
  tested : runner.testedRequest ∈ crawled
  check : runner.securityCheck.FromRule env.request
  nextChecks : ∀ check ∈ runner.nextChecks, check.FromRule env.request
  requests : ∀ req ∈ runner.requests, req < mem.next ∧
    Request.SameHost (deref mem runner.testedRequest) (deref mem req)

theorem SecurityCheckRunner.OnTarget.of_frame {env : ScanEnv} {mem mem' : Heap Request}
    {crawled crawled' : List Nat} {runner : SecurityCheckRunner}
    (h : runner.OnTarget env mem crawled) (hallocated : ∀ req ∈ crawled, req < mem.next)
    (hframe : Heap.Frame Request.SameHost mem mem') (hcrawled : ∀ req ∈ crawled, req ∈ crawled') :
    runner.OnTarget env mem' crawled' := by
  refine ⟨hcrawled _ h.tested, h.check, h.nextChecks, fun req hmem => ?_⟩
  obtain ⟨hreq, hsame⟩ := h.requests req hmem
  refine ⟨Nat.lt_of_lt_of_le hreq hframe.next_le, ?_⟩
  have hbefore : Request.SameHost (deref mem runner.testedRequest) _ :=
    Frame.deref hframe (hallocated _ h.tested)
  have hafter : Request.SameHost (deref mem req) (deref mem' req) := Frame.deref hframe hreq
  exact Eq.trans (Eq.trans hafter hsame) (Eq.symm hbefore)

namespace Scan

/-- The request names the host of a page that the crawler has handed to the HTTP client. -/
def FromPage (scan : Scan) (req : Nat) : Prop :=
  req < scan.mem.next ∧ ∃ page ∈ scan.crawled, page < scan.mem.next ∧
    Request.SameHost (deref scan.mem page) (deref scan.mem req)

/-- What is audited are pages that the crawler has handed to the HTTP client. -/
structure OnTarget (env : ScanEnv) (scan : Scan) : Prop where
  allocated : scan.Allocated
  crawledAllocated : ∀ req ∈ scan.crawled, req < scan.mem.next
  pages : ∀ req ∈ scan.underWay (· = some .crawler), req ∈ scan.crawled
  auditQueue : ∀ req ∈ scan.store.auditQueue, req ∈ scan.crawled
  checks : ∀ check ∈ scan.selectiveAuditor.checks, check.FromRule env.request
  runners : ∀ p runner, scan.runnerMem.get? p = some runner →
    runner.OnTarget env scan.mem scan.crawled
  made : ∀ call ∈ scan.calls, isRunner call.caller → scan.FromPage call.req

section
variable {env : ScanEnv} {scan next : Scan} {p : Nat}

theorem FromPage.of_frame {req : Nat} (h : scan.FromPage req)
    (hframe : Heap.Frame Request.SameHost scan.mem next.mem)
    (hcrawled : ∀ req ∈ scan.crawled, req ∈ next.crawled) : next.FromPage req := by
  obtain ⟨hreq, page, hpage, hallocated, hsame⟩ := h
  refine ⟨Nat.lt_of_lt_of_le hreq hframe.next_le, page, hcrawled page hpage,
    Nat.lt_of_lt_of_le hallocated hframe.next_le, ?_⟩
  have hbefore : Request.SameHost (deref scan.mem page) (deref next.mem page) :=
    Frame.deref hframe hallocated
  have hafter : Request.SameHost (deref scan.mem req) (deref next.mem req) :=
    Frame.deref hframe hreq
  exact Eq.trans (Eq.trans hafter hsame) (Eq.symm hbefore)

namespace OnTarget

/-- What happens to requests, calls and queues keeps the audits on target, as long as requests
    keep their hosts and nothing is handed over for a runner without being made from a page. -/
theorem of_frame (h : scan.OnTarget env) (hframe : Heap.Frame Request.SameHost scan.mem next.mem)
    (hallocated : next.Allocated)
    (hcrawled : ∀ req ∈ scan.crawled, req ∈ next.crawled)
    (hnew : ∀ req ∈ next.crawled, req ∈ scan.crawled ∨ req < next.mem.next)
    (hpages : ∀ req ∈ next.underWay (· = some .crawler),
      req ∈ scan.underWay (· = some .crawler) ∨ req ∈ next.crawled)
    (haudit : ∀ req ∈ next.store.auditQueue, req ∈ scan.store.auditQueue ∨ req ∈ next.crawled)
    (hchecks : next.selectiveAuditor.checks = scan.selectiveAuditor.checks)
    (hrunners : next.runnerMem = scan.runnerMem)
    (hmade : ∀ call ∈ next.calls, isRunner call.caller →
      call ∈ scan.calls ∨ scan.FromPage call.req) : next.OnTarget env := by
  refine ⟨hallocated, fun req hmem => ?_, fun req hmem => ?_, fun req hmem => ?_, ?_,
    fun q runner hget => ?_, fun call hmem hcaller => ?_⟩
  · rcases hnew req hmem with hold | hlt
    · exact Nat.lt_of_lt_of_le (h.crawledAllocated req hold) hframe.next_le
    · exact hlt
  · rcases hpages req hmem with hold | hin
    · exact hcrawled req (h.pages req hold)
    · exact hin
  · rcases haudit req hmem with hold | hin
    · exact hcrawled req (h.auditQueue req hold)
    · exact hin
  · rw [hchecks]
    exact h.checks
  · rw [hrunners] at hget
    exact (h.runners q runner hget).of_frame h.crawledAllocated hframe hcrawled
  · rcases hmade call hmem hcaller with hold | hfrom
    · exact (h.made call hold hcaller).of_frame hframe hcrawled
    · exact hfrom.of_frame hframe hcrawled

/-- The same, where other components than the crawler and the runners do something. -/
theorem of_changes {caller : ScheduleCaller → Prop} (h : scan.OnTarget env)
    (hchanges : Changes env caller scan next)
    (hcaller : ∀ c, caller c → c = .notFoundDetector ∨ c = .hiddenObjectsFinder)
    (hframe : Heap.Frame Request.SameHost scan.mem next.mem)
    (haudit : ∀ req ∈ next.store.auditQueue, req ∈ scan.store.auditQueue)
    (hcalls : ∃ made, next.calls = scan.calls ++ made ∧ ∀ call ∈ made, caller call.caller) :
    next.OnTarget env := by
  obtain ⟨made, hmade, hcallers⟩ := hcalls
  have hnot (call : ScheduleCall) (hmem : call ∈ made) : ¬ isRunner call.caller ∧
      call.caller ≠ .crawler := by
    rcases hcaller _ (hcallers call hmem) with heq | heq <;> simp [heq, isRunner]
  have hcrawled : next.crawled = scan.crawled := by
    have hnone : made.filter (fun call => call.caller = .crawler) = [] :=
      List.filter_eq_nil_iff.mpr fun call hmem => by simpa using (hnot call hmem).2
    rw [crawled_of_calls hmade, hnone, List.map_nil, List.append_nil]
  obtain ⟨hallocated, hunderWay⟩ := hchanges.underWay h.allocated
  obtain ⟨hrunnerMem, hauditor⟩ := hchanges.runners fun q serial hc => by
    rcases hcaller _ hc with heq | heq <;> cases heq
  refine h.of_frame hframe hallocated (fun req => by rw [hcrawled]; exact id)
    (fun req hmem => Or.inl (hcrawled ▸ hmem)) (fun req hmem => Or.inl ?_)
    (fun req hmem => Or.inl (haudit req hmem)) (by rw [hauditor]) hrunnerMem
    fun call hmem hrunner => ?_
  · refine (hunderWay (· = some .crawler) fun c hc => ?_).subset hmem
    rcases hcaller c hc with rfl | rfl <;> rfl
  · rw [hmade] at hmem
    rcases List.mem_append.mp hmem with hold | hin
    · exact Or.inl hold
    · exact absurd hrunner (hnot call hin).1

theorem move (h : scan.OnTarget env) (hmove : Move env scan next) : next.OnTarget env := by
  cases hmove with
  | @site mem store htarget hrecords haudit =>
    refine h.of_frame (DataStore.Grows.records hrecords).hosts (fun req hmem => ?_)
      (fun _ => id) (fun _ => Or.inl)
      (fun req hmem => Or.inl ?_) (fun req hmem => Or.inl (haudit req hmem)) rfl rfl
      fun _ hmem _ => Or.inl hmem
    · exact Nat.lt_of_lt_of_le (h.allocated req hmem) htarget.next_le
    · obtain ⟨hout, hhandler⟩ := List.mem_filter.mp hmem
      have hsame : Request.SameTarget (deref scan.mem req) (deref mem req) :=
        Frame.deref htarget (h.allocated req hout)
      rw [hsame.requestHandler] at hhandler
      exact List.mem_filter.mpr ⟨hout, hhandler⟩
  | done req =>
    refine h.of_frame (.refl Request.SameHost.refl _) (fun q hmem => ?_) (fun _ => id)
      (fun _ => Or.inl) (fun q hmem => Or.inl ?_) (fun _ => Or.inl) rfl rfl
      fun _ hmem _ => Or.inl hmem
    · exact h.allocated q (List.mem_of_mem_erase hmem)
    · exact (List.Sublist.filter _ List.erase_sublist).subset hmem
  | detector | finder =>
    exact h.of_frame (.refl Request.SameHost.refl _) h.allocated (fun _ => id) (fun _ => Or.inl)
      (fun _ => Or.inl) (fun _ => Or.inl) rfl rfl fun _ hmem _ => Or.inl hmem
  | probe url =>
    have hmade : Heap.Frame Request.SameHost scan.mem (scan.newRequest env url).2.mem :=
      .alloc Request.SameHost.refl scan.mem _
    have hchanges : Changes env (· = .notFoundDetector) scan
        ((scan.newRequest env url).2.scheduleWith env .notFoundDetector scan.mem.next
          .notFoundDetector).2 := newRequest_scheduleWith_changes scan (by rfl) url
    refine h.of_changes hchanges (fun c hc => Or.inl hc) (hmade.trans Request.SameHost.trans
      (.modify Request.SameHost.refl _ _ fun _ => rfl)) (fun _ => id) ⟨[_], rfl, ?_⟩
    exact List.forall_mem_singleton.mpr rfl

theorem moves (h : scan.OnTarget env) (hmoves : Moves env scan next) : next.OnTarget env := by
  induction hmoves with
  | refl => exact h
  | tail _ hmove ih => exact ih.move hmove

/-! What the runners do. -/

theorem setRunner {runner : SecurityCheckRunner} (h : scan.OnTarget env)
    (hrunner : p < scan.runnerMem.next → runner.OnTarget env scan.mem scan.crawled) :
    (scan.setRunner p runner).OnTarget env := by
  refine ⟨h.allocated, h.crawledAllocated, h.pages, h.auditQueue, h.checks,
    fun q found hget => ?_, h.made⟩
  rw [Scan.setRunner, Heap.get?_modify] at hget
  split at hget
  · rename_i heq
    obtain ⟨old, hold, rfl⟩ := Option.map_eq_some_iff.mp hget
    exact hrunner (heq ▸ Heap.lt_next_of_get? hold)
  · exact h.runners q found hget

/-- A runner that exists is on target. -/
theorem runnerAt (h : scan.OnTarget env) (hp : p < scan.runnerMem.next) :
    (scan.runnerAt p).OnTarget env scan.mem scan.crawled := by
  obtain ⟨runner, hget⟩ := Heap.get?_of_lt_next hp
  rw [Scan.runnerAt, hget]
  exact h.runners p runner hget

theorem fromPage (h : scan.OnTarget env) {req : Nat} (hmem : req ∈ (scan.runnerAt p).requests) :
    scan.FromPage req := by
  by_cases hp : p < scan.runnerMem.next
  · have hrunner := h.runnerAt hp
    obtain ⟨hreq, hsame⟩ := hrunner.requests req hmem
    exact ⟨hreq, _, hrunner.tested, h.crawledAllocated _ hrunner.tested, hsame⟩
  · have hnone : scan.runnerMem.get? p = none :=
      Option.eq_none_iff_forall_ne_some.mpr fun _ hget => hp (Heap.lt_next_of_get? hget)
    rw [Scan.runnerAt, hnone] at hmem
    cases hmem

theorem createRequests (h : scan.OnTarget env) :
    (scan.createRequests env p).2.OnTarget env := by
  have hframe : Heap.Frame Request.SameHost scan.mem
      (scan.mem.allocAll (scan.newRequests env p).2).2 := fun q request hget =>
    ⟨request, (Heap.get?_allocAll_of_lt _ (Heap.lt_next_of_get? hget)).trans hget, rfl⟩
  have hmade : ({ scan with mem := (scan.mem.allocAll (scan.newRequests env p).2).2 } :
      Scan).OnTarget env := by
    refine h.of_frame hframe (fun req hmem => ?_) (fun _ => id) (fun _ => Or.inl)
      (fun req hmem => Or.inl ?_) (fun _ => Or.inl) rfl rfl fun _ hmem _ => Or.inl hmem
    · exact Nat.lt_of_lt_of_le (h.allocated req hmem) hframe.next_le
    · obtain ⟨hout, hhandler⟩ := List.mem_filter.mp hmem
      rw [deref, Heap.get?_allocAll_of_lt _ (h.allocated req hout), ← deref] at hhandler
      exact List.mem_filter.mpr ⟨hout, hhandler⟩
  refine hmade.setRunner fun hp => ?_
  have hrunner := h.runnerAt hp
  have hkept := hrunner.of_frame h.crawledAllocated hframe fun _ => id
  refine ⟨hkept.tested, hkept.check, hkept.nextChecks, List.forall_mem_append.mpr
    ⟨hkept.requests, fun req hmem => ?_⟩⟩
  obtain ⟨hle, hlt⟩ := (mem_newAddresses env).mp hmem
  have hget : (scan.mem.allocAll (scan.newRequests env p).2).2.get? req =
      (scan.newRequests env p).2[req - scan.mem.next]? := Heap.get?_allocAll_of_le _ hle
  have hin : req - scan.mem.next < (scan.newRequests env p).2.length := by omega
  rw [List.getElem?_eq_getElem hin] at hget
  refine ⟨by simpa using hlt, ?_⟩
  have htested : Request.SameHost (deref scan.mem (scan.runnerAt p).testedRequest)
      (deref (scan.mem.allocAll (scan.newRequests env p).2).2 (scan.runnerAt p).testedRequest) :=
    Frame.deref hframe (h.crawledAllocated _ hrunner.tested)
  have hcopied := hrunner.check.sameHost (List.getElem_mem hin)
  rw [← deref_of_get? hget] at hcopied
  exact Eq.trans hcopied (Eq.symm htested)

theorem scheduleRequests (check : SecurityCheck) {reqs : List Nat} (h : scan.OnTarget env)
    (hreqs : ∀ req ∈ reqs, scan.FromPage req) :
    (Scan.scheduleRequests env p check reqs scan).2.OnTarget env := by
  induction reqs generalizing scan with
  | nil => exact h
  | cons req reqs ih =>
    obtain ⟨hreq, hrest⟩ := List.forall_mem_cons.mp hreqs
    let scheduled : Scan := (scan.scheduleWith env
      (.securityCheckRunner p check.canEvaluateInSerial) req (.securityCheckRunner p)).2
    have hframe : Heap.Frame Request.SameHost scan.mem scheduled.mem :=
      .modify Request.SameHost.refl scan.mem req fun _ => rfl
    have hcalls : scheduled.calls = scan.calls ++ [_] := rfl
    have hcrawled : scheduled.crawled = scan.crawled := by
      rw [crawled_of_calls hcalls]
      simp
    have hscheduled : scheduled.OnTarget env := by
      refine h.of_frame hframe (fun q hmem => ?_) (fun q => by rw [hcrawled]; exact id)
        (fun q hmem => Or.inl (hcrawled ▸ hmem)) (fun q hmem => Or.inl ?_) (fun _ => Or.inl) rfl rfl
        fun call hmem _ => ?_
      · rw [outstanding_scheduleWith] at hmem
        refine Nat.lt_of_lt_of_le ?_ hframe.next_le
        rcases List.mem_append.mp hmem with hold | hnew
        · exact h.allocated q hold
        · split at hnew
          · rw [List.mem_singleton.mp hnew]
            exact hreq.1
          · cases hnew
      · exact (scheduleWith_underWay _ _ (by simp) hreq.1).subset hmem
      · rw [hcalls] at hmem
        rcases List.mem_append.mp hmem with hold | hnew
        · exact Or.inl hold
        · rw [List.mem_singleton.mp hnew]
          exact Or.inr hreq
    simp only [Scan.scheduleRequests]
    split
    · exact hscheduled
    · exact ih hscheduled fun q hmem =>
        (hrest q hmem).of_frame hframe fun q => by rw [hcrawled]; exact id

theorem run (h : scan.OnTarget env) : (scan.run env p).2.OnTarget env := by
  have hcreated : (scan.createRequests env p).2.OnTarget env := h.createRequests
  rcases run_cases env scan p with heq | ⟨_, heq⟩
  · rw [heq]
    exact hcreated
  · rw [heq]
    exact hcreated.scheduleRequests _ fun req hmem => hcreated.fromPage hmem

theorem setNextCheck {runner : SecurityCheckRunner} (h : scan.OnTarget env)
    (hnext : (scan.runnerAt p).setNextCheck = some runner) :
    (scan.setRunner p runner).OnTarget env := by
  refine h.setRunner fun hp => ?_
  have hrunner := h.runnerAt hp
  unfold SecurityCheckRunner.setNextCheck at hnext
  split at hnext
  · cases hnext
  · rename_i check checks hchecks
    cases hnext
    have hnexts := hrunner.nextChecks
    rw [hchecks] at hnexts
    obtain ⟨hcheck, hlater⟩ := List.forall_mem_cons.mp hnexts
    exact ⟨hrunner.tested, hcheck, hlater, List.forall_mem_nil _⟩

theorem scheduleChecks (nextChecks : List SecurityCheck) (h : scan.OnTarget env) :
    (Scan.scheduleChecks env p nextChecks scan).2.OnTarget env := by
  induction nextChecks generalizing scan with
  | nil =>
    have hrun : (scan.run env p).2.OnTarget env := h.run
    rw [Scan.scheduleChecks]
    dsimp only
    split
    · exact hrun
    · exact hrun
  | cons check checks ih =>
    have hrun : (scan.run env p).2.OnTarget env := h.run
    rw [Scan.scheduleChecks]
    dsimp only
    split
    · exact hrun
    · split
      · exact hrun
      · rename_i hnext
        exact ih (hrun.setNextCheck hnext)

/-- The auditor's list of runners says nothing about their targets. -/
theorem setRunners (h : scan.OnTarget env) (runners : List Nat) :
    ({ scan with selectiveAuditor := { scan.selectiveAuditor with runners } } : Scan).OnTarget
      env :=
  ⟨h.allocated, h.crawledAllocated, h.pages, h.auditQueue, h.checks, h.runners, h.made⟩

theorem scheduleFirst {req : Nat} (h : scan.OnTarget env) (hreq : req ∈ scan.crawled) :
    (scan.scheduleFirst env req).2.OnTarget env := by
  cases hlist : scan.selectiveAuditor.checks with
  | nil =>
    unfold Scan.scheduleFirst
    simp only [hlist]
    exact h
  | cons check checks =>
    have hrules := h.checks
    rw [hlist] at hrules
    obtain ⟨hcheck, hlater⟩ := List.forall_mem_cons.mp hrules
    have halloc : (scan.allocRunner req check checks).OnTarget env := by
      refine ⟨h.allocated, h.crawledAllocated, h.pages, h.auditQueue, h.checks,
        fun q found hget => ?_, h.made⟩
      rw [Scan.allocRunner, Heap.get?_alloc] at hget
      split at hget
      · cases hget
        exact ⟨hreq, hcheck, hlater, List.forall_mem_nil _⟩
      · exact h.runners q found hget
    have hnext : ((scan.allocRunner req check checks).scheduleNextCheck env
        scan.runnerMem.next).2.OnTarget env := halloc.scheduleChecks _
    rw [scheduleFirst_eq env hlist]
    split
    · exact hnext.setRunners _
    · exact hnext

theorem finishedCheckCb (h : scan.OnTarget env) : (scan.finishedCheckCb env p).OnTarget env := by
  have hscraped := h.moves (scrapeRequests_moves env scan p)
  unfold Scan.finishedCheckCb
  dsimp only
  generalize scan.scrapeRequests env p = scraped at hscraped
  split
  · exact hscraped.setRunners _
  · rename_i runner hnext
    have hscheduled : ((scraped.setRunner p runner).scheduleNextCheck env p).2.OnTarget env :=
      (hscraped.setNextCheck hnext).scheduleChecks _
    generalize (scraped.setRunner p runner).scheduleNextCheck env p = result at hscheduled
    obtain ⟨done, after⟩ := result
    cases done with
    | true => exact hscheduled
    | false => exact hscheduled.setRunners _

theorem runnerCallback (h : scan.OnTarget env) (req : Nat) :
    (scan.runnerCallback env p req).OnTarget env := by
  have hcounted : (scan.setRunner p (scan.runnerAt p).countCallback).OnTarget env :=
    h.setRunner fun hp => by
      have hrunner := h.runnerAt hp
      exact ⟨hrunner.tested, hrunner.check, hrunner.nextChecks, hrunner.requests⟩
  have hevaluated := hcounted.moves (evaluateCallback_moves env _ p req)
  unfold Scan.runnerCallback
  dsimp only
  split
  · exact hevaluated.finishedCheckCb
  · exact hevaluated

/-! The callbacks. -/

/-- The queues of the datastore are changed, but no request is added to the audit queue. -/
theorem setStore (h : scan.OnTarget env) (store : DataStore)
    (haudit : ∀ req ∈ store.auditQueue, req ∈ scan.store.auditQueue) :
    ({ scan with store } : Scan).OnTarget env :=
  h.of_frame (.refl Request.SameHost.refl _) h.allocated (fun _ => id) (fun _ => Or.inl)
    (fun _ => Or.inl) (fun req hmem => Or.inl (haudit req hmem)) rfl rfl fun _ hmem _ => Or.inl hmem

/-- The crawler looks at a page that it has handed over. -/
theorem crawlerCallback (h : scan.OnTarget env) {req : Nat} (hreq : req ∈ scan.crawled)
    {mem : Heap Request} {store : DataStore} (hcallback : Crawler.requestCallback env
      scan.passiveAuditor scan.mem scan.store req = (mem, store)) :
    ({ scan with mem, store } : Scan).OnTarget env := by
  have hgrows := DataStore.Grows.records
    (Crawler.requestCallback_records env scan.passiveAuditor scan.mem scan.store req)
  have hchanges := Crawler.requestCallback_siteChanges env scan.passiveAuditor scan.mem scan.store
    req
  have haudit : (Crawler.requestCallback env scan.passiveAuditor scan.mem scan.store
      req).2.auditQueue = _ := Crawler.requestCallback_auditQueue scan.passiveAuditor
  rw [hcallback] at hgrows hchanges haudit
  have hall : Changes env (fun _ => False) scan { scan with mem, store } := .of_site hchanges
  obtain ⟨hallocated, hunderWay⟩ := hall.underWay h.allocated
  refine h.of_frame hgrows.hosts hallocated (fun _ => id) (fun _ => Or.inl)
    (fun q hmem => Or.inl ?_) (fun q hmem => ?_) rfl rfl fun _ hmem _ => Or.inl hmem
  · exact (hunderWay _ fun _ hc => hc.elim).subset hmem
  · rw [show store.auditQueue = _ from haudit] at hmem
    rcases List.mem_append.mp hmem with hold | hnew
    · exact Or.inl hold
    · obtain ⟨action, _, hin⟩ := List.mem_flatMap.mp hnew
      split at hin
      · rw [List.mem_singleton.mp hin]
        exact Or.inr hreq
      · cases hin

theorem addFoundObject {req : Nat} (h : scan.OnTarget env) (htidy : scan.TidyTests)
    (hfound : scan.addFoundObject env req = some next) : next.OnTarget env := by
  have hchanges : Changes env (· = .hiddenObjectsFinder) scan next :=
    addFoundObject_changes (by rfl) htidy.kept hfound
  obtain ⟨added, mem, store, mem', store', completed, found, _, hadd, hissue, rfl⟩ :=
    addFoundObject_cases hfound
  obtain ⟨_, _, hqueue⟩ := DataStore.addRequest_keeps env.store scan.mem scan.store added
  have hremembers := DataStore.addRequest_remembers env.store scan.mem scan.store added
  rw [hadd] at hqueue hremembers
  have hadded : Heap.Frame Request.SameHost scan.mem mem :=
    hremembers.asked.mono fun _ _ hsame => hsame.host
  have hnoted : Heap.Frame Request.SameHost mem mem' ∧ store'.auditQueue = store.auditQueue := by
    rcases hissue with heq | ⟨requestId, issue, heq⟩
    · cases heq
      exact ⟨.refl Request.SameHost.refl _, rfl⟩
    · have hissued : PageEffect env.store (fun _ => False) (mem, store)
        (store.addIssueDetails env.store mem requestId issue).2 := .issue mem store requestId issue
      rw [← heq] at hissued
      have heffects : PageEffects env.store (fun _ => False) (mem, store) (mem', store') :=
        .single hissued
      have hrecords : DataStore.Records env.store env.Makes (mem, store) (mem', store') :=
        heffects.records fun _ => False.elim
      exact ⟨(DataStore.Grows.records hrecords).hosts, heffects.samePlans.auditQueue⟩
  refine h.of_changes hchanges (fun _ hc => Or.inr hc)
    (hadded.trans Request.SameHost.trans hnoted.1) (fun q hmem => ?_)
    ⟨[], (List.append_nil _).symm, List.forall_mem_nil _⟩
  exact hqueue ▸ hnoted.2 ▸ hmem

theorem hiddenObjectCallback {req : Nat} (h : scan.OnTarget env) (htidy : scan.TidyTests)
    (hcallback : scan.hiddenObjectCallback env req = some next) : next.OnTarget env := by
  rcases hiddenObjectCallback_cases env scan req with ⟨_, completed, heq⟩ | ⟨_, heq⟩
  · rw [heq] at hcallback
    cases hcallback
    exact (h.move (eraseTest_move env _ _)).move (recount_move env _ completed _)
  · rw [heq] at hcallback
    have hcounted : (scan.recount (scan.objectsFinder.numCompletedRequests + 1)
        scan.objectsFinder.numObjectsFound).TidyTests :=
      ⟨htidy.nodup, htidy.allocated, htidy.kept, htidy.keys⟩
    exact (h.move (recount_move env _ _ _)).addFoundObject hcounted hcallback

theorem requestCallback {req : Nat} {transfer : Transfer} (h : scan.OnTarget env)
    (horder : scan.InOrder) (hcallback : scan.requestCallback env req transfer = some next) :
    next.OnTarget env := by
  have hreceived := h.moves (receive_moves env scan req transfer)
  have hhandler := receive_requestHandler scan req transfer req
  unfold Scan.requestCallback at hcallback
  split at hcallback
  · cases hcallback
  · rename_i hout
    dsimp only at hcallback
    split at hcallback
    · cases hcallback
    · rename_i hcrawler
      have hpage : req ∈ scan.crawled := by
        rw [hhandler] at hcrawler
        exact h.pages req (List.mem_filter.mpr ⟨not_not.mp hout, by simpa using hcrawler⟩)
      cases hcallback
      exact hreceived.crawlerCallback hpage rfl
    · rename_i p _
      cases hcallback
      exact hreceived.runnerCallback req
    · cases hcallback
      exact hreceived.moves (notFoundCallback_moves env _ req)
    · have hchanges : Changes env (fun _ => False) scan (scan.receive req transfer) :=
        receive_changes scan req transfer
      exact hreceived.hiddenObjectCallback (horder.of_changes hchanges id).tidy hcallback

/-! The loop body. -/

theorem serveProbeQueue {number : ProbeNumber} (h : scan.OnTarget env)
    (hserve : scan.serveProbeQueue env number = some next) : next.OnTarget env := by
  unfold Scan.serveProbeQueue at hserve
  split at hserve
  · cases hserve
    exact h
  · rename_i req rest hqueue
    dsimp only at hserve
    obtain ⟨stored, hstored, rfl⟩ := Option.map_eq_some_iff.mp hserve
    have hpopped : ({ scan with store := scan.store.getRequestFromProbeQueue.2 } :
        Scan).OnTarget env := h.setStore _ fun _ => id
    have hprobed := hpopped.moves (addProbeUrl_moves env _ (deref scan.mem req).url number)
    have hsearched (probed : Bool) (url : Bytes) :=
      hprobed.moves (offerUrl_moves env _ probed url)
    exact (hsearched _ _).setStore _ fun _ => id

theorem crawl {req : Nat} (h : scan.OnTarget env) (hreq : req < scan.mem.next) :
    (Crawler.crawl env scan req).2.OnTarget env := by
  let after : Scan := (Crawler.crawl env scan req).2
  have hframe : Heap.Frame Request.SameHost scan.mem after.mem :=
    .modify Request.SameHost.refl scan.mem req fun _ => rfl
  have hcrawled : after.crawled = scan.crawled ++ [req] := by
    rw [crawled_of_calls (show after.calls = scan.calls ++ [_] from rfl)]
    simp
  have hout (q : Nat) (hmem : q ∈ after.outstanding) : q ∈ scan.outstanding ∨ q = req := by
    have hmem' : q ∈ (scan.scheduleWith env .crawler req .crawler).2.outstanding := hmem
    rw [outstanding_scheduleWith] at hmem'
    rcases List.mem_append.mp hmem' with hold | hnew
    · exact Or.inl hold
    · split at hnew
      · exact Or.inr (List.mem_singleton.mp hnew)
      · cases hnew
  refine h.of_frame hframe (fun q hmem => ?_) (fun q hmem => ?_) (fun q hmem => ?_)
    (fun q hmem => ?_) (fun _ => Or.inl) rfl rfl fun call hmem hrunner => ?_
  · refine Nat.lt_of_lt_of_le ?_ hframe.next_le
    rcases hout q hmem with hold | rfl
    · exact h.allocated q hold
    · exact hreq
  · rw [hcrawled]
    exact List.mem_append_left _ hmem
  · rw [hcrawled] at hmem
    rcases List.mem_append.mp hmem with hold | hnew
    · exact Or.inl hold
    · rw [List.mem_singleton.mp hnew]
      exact Or.inr (Nat.lt_of_lt_of_le hreq hframe.next_le)
  · obtain ⟨hmem, hhandler⟩ := List.mem_filter.mp hmem
    by_cases heq : q = req
    · rw [heq, hcrawled]
      exact Or.inr (List.mem_append_right _ (List.mem_singleton_self req))
    · have hold := (hout q hmem).resolve_right heq
      have hother : after.mem.get? q = scan.mem.get? q :=
        (scheduleWith_schedules env scan .crawler req .crawler).requests q
          fun hin => heq (List.mem_singleton.mp hin)
      rw [deref, hother, ← deref] at hhandler
      exact Or.inl (List.mem_filter.mpr ⟨hold, hhandler⟩)
  · rcases List.mem_append.mp hmem with hold | hnew
    · exact Or.inl hold
    · rw [List.mem_singleton.mp hnew] at hrunner
      exact hrunner.elim

theorem serveCrawlQueue (h : scan.OnTarget env) (hindexed : scan.Indexed)
    (hserve : scan.serveCrawlQueue env = some next) : next.OnTarget env := by
  unfold Scan.serveCrawlQueue at hserve
  split at hserve
  · cases hserve
    exact h
  · rename_i req rest hqueue
    obtain ⟨stored, hstored, rfl⟩ := Option.map_eq_some_iff.mp hserve
    have hallocated := (hindexed stored (Or.inr (Or.inr ⟨_, hstored⟩))).allocated
    have hpopped : ({ scan with store := scan.store.getRequestFromCrawlQueue.2 } :
        Scan).OnTarget env := h.setStore _ fun _ => id
    exact hpopped.crawl hallocated

theorem testObject (h : scan.OnTarget env) (testUrl : Bytes) :
    (scan.testObject env testUrl).OnTarget env := by
  have hchanges : Changes env (· = .hiddenObjectsFinder) scan (scan.testObject env testUrl) :=
    testObject_changes (by rfl) scan testUrl
  have hscheduled : Schedulings env (· = .hiddenObjectsFinder) scan (scan.testObject env testUrl) :=
    testObject_schedulings env scan testUrl
  obtain ⟨made, hhands, hcallers⟩ := hscheduled.effects.hands
  refine h.of_changes hchanges (fun _ hc => Or.inr hc)
    (DataStore.Grows.record (Schedulings.record hscheduled)).hosts
    (fun req hmem => ?_) ⟨made, hhands.calls, hcallers⟩
  rwa [Schedulings.store hscheduled] at hmem

theorem scheduleTests (amount : Nat) (h : scan.OnTarget env) :
    (scan.scheduleTests env amount).OnTarget env := by
  induction amount generalizing scan with
  | zero => exact h
  | succ amount ih =>
    rw [Scan.scheduleTests]
    split
    · exact h
    · have hpopped : Move env scan scan.popTestUrl := .finder scan _ (.refl _)
      exact ih ((h.move hpopped).testObject _)

theorem serveObjectsFinder (h : scan.OnTarget env)
    (hserve : scan.serveObjectsFinder env = some next) : next.OnTarget env := by
  unfold Scan.serveObjectsFinder at hserve
  split at hserve
  · cases hserve
    have hrefilled : Move env scan { scan with objectsFinder := scan.objectsFinder.refill } :=
      .finder scan _ (by rw [refill_requests])
    exact (h.move hrefilled).scheduleTests _
  · cases hserve

/-- What is audited is in the audit queue before. -/
theorem serveAuditQueue (h : scan.OnTarget env) : (scan.serveAuditQueue env).OnTarget env := by
  unfold Scan.serveAuditQueue
  split
  · split
    · exact h
    · rename_i req rest hqueue
      have hreq : req ∈ scan.crawled := h.auditQueue req (hqueue ▸ List.mem_cons_self)
      exact (h.move (getRequestFromAuditQueue_move env scan)).scheduleFirst hreq
  · exact h

theorem iterate {number : ProbeNumber} (h : scan.OnTarget env) (horder : scan.InOrder)
    (hiterate : scan.iterate env number = some next) : next.OnTarget env := by
  obtain ⟨probed, crawled, tested, hprobe, hcrawl, htest, rfl⟩ := (iterate_eq_some env).mp hiterate
  have hprobed := h.serveProbeQueue hprobe
  have hindexed := (serveProbeQueue_inOrder horder hprobe).1.indexed
  exact ((hprobed.serveCrawlQueue hindexed hcrawl).serveObjectsFinder htest).serveAuditQueue

theorem addUrl (h : scan.OnTarget env) (url : Bytes) : (scan.addUrl env url).2.OnTarget env := by
  unfold Scan.addUrl
  dsimp only
  split
  · exact h
  · have hhost : ({ scan with
        store := scan.store.addHost (Request.ofUrl env.request url none).host } :
          Scan).OnTarget env := h.setStore _ fun _ => id
    exact hhost.moves (addNewRequest_moves (Or.inl ⟨url, none, rfl⟩) _)

end OnTarget

theorem configured_onTarget (env : ScanEnv) (config : ScanConfig)
    (hrules : ∀ check ∈ config.checks, check.FromRule env.request) :
    (configured env config).OnTarget env := by
  have haudit : (configured env config).store.auditQueue = [] :=
    configured_store env config (·.auditQueue)
      (fun store regex => by unfold DataStore.addWhitelistRegex; split <;> rfl)
      fun store regex => by unfold DataStore.addBlacklistRegex; split <;> rfl
  refine ⟨List.forall_mem_nil _, List.forall_mem_nil _, List.forall_mem_nil _, ?_, hrules,
    fun p runner hget => ?_, List.forall_mem_nil _⟩
  · rw [haudit]
    exact List.forall_mem_nil _
  · exact absurd (Heap.lt_next_of_get? hget) (Nat.not_lt_zero p)

end

end Scan

namespace MainLoop

variable {env : ScanEnv} {config : ScanConfig} {ops : List ScanOp} {loop next last : MainLoop}

theorem step_onTarget {op : ScanOp} (h : loop.scan.OnTarget env) (horder : loop.scan.InOrder)
    (hstep : loop.step env op = some next) : next.scan.OnTarget env := by
  unfold step at hstep
  split at hstep
  · cases hstep
  · cases op with
    | addUrl url =>
      cases hstep
      exact h.addUrl url
    | addRequest proto =>
      cases hstep
      exact h.moves (Scan.addNewRequest_moves (Or.inr (Or.inl ⟨proto, rfl⟩)) _)
    | requestCallback req transfer =>
      obtain ⟨scan, hcallback, rfl⟩ := Option.map_eq_some_iff.mp hstep
      exact h.requestCallback horder hcallback
    | giveUp req =>
      obtain ⟨scan, hgiveUp, rfl⟩ := Option.map_eq_some_iff.mp hstep
      exact h.move (Scan.giveUp_move env hgiveUp)
    | iterate number keepRunning =>
      obtain ⟨scan, hiterate, rfl⟩ := Option.map_eq_some_iff.mp hstep
      exact h.iterate horder hiterate

theorem run_onTarget (hrules : ∀ check ∈ config.checks, check.FromRule env.request)
    (hrun : run (step env) (start env config) ops = some last) : last.scan.OnTarget env := by
  have hboth := run_preserves (P := fun loop : MainLoop => loop.scan.OnTarget env ∧
    loop.scan.InOrder) (fun _ _ _ h hstep => ⟨step_onTarget h.1 h.2 hstep, step_inOrder h.2 hstep⟩)
    ⟨Scan.configured_onTarget env config hrules, Scan.configured_inOrder env config⟩ hrun
  exact hboth.1

/-- In every run, whatever the crawler or a runner hands to the HTTP client is a request that
    names no host, or the host of a seed. -/
theorem auditsInScope_of_run (hrules : ∀ check ∈ config.checks, check.FromRule env.request)
    (hrun : run (step env) (start env config) ops = some last) :
    ∀ call ∈ last.scan.calls, call.caller = .crawler ∨ Scan.isRunner call.caller →
      ∀ host, (deref last.scan.mem call.req).proto.hostField = some host →
        ∃ op ∈ ops, op.Seeds env host := by
  have htarget := run_onTarget hrules hrun
  obtain ⟨hosts, hseeds, order, hline⟩ :=
    run_pipelined (Scan.configured_pipelined env config) hrun
  have hpage (page : Nat) (hpage : page ∈ last.scan.crawled) (host : Bytes)
      (heq : (deref last.scan.mem page).proto.hostField = some host) :
      ∃ op ∈ ops, op.Seeds env host := by
    have hmem : page ∈ order := by
      rw [show order = _ from hline.served]
      simp [hpage]
    have hallowed := (hline.records.admits page hmem).host host heq
    rw [hline.allowedHosts, hseeds] at hallowed
    exact hallowed.resolve_left List.not_mem_nil
  intro call hmem hcaller host heq
  rcases hcaller with hcrawler | hrunner
  · refine hpage call.req ?_ host heq
    exact List.mem_map_of_mem (List.mem_filter.mpr ⟨hmem, by simpa using hcrawler⟩)
  · obtain ⟨_, page, hcrawled, _, hsame⟩ := htarget.made call hmem hrunner
    exact hpage page hcrawled host (hsame ▸ heq)

/-- One page is audited. -/
theorem auditsInScope_of_run_onePage : ∃ last,
    run (step siteEnv) (start siteEnv (timed 1)) onePage = some last ∧
      (last.scan.calls.filter fun call => call.caller = .securityCheckRunner 0 false).length = 1 ∧
      ∀ call ∈ last.scan.calls, call.caller = .crawler ∨ Scan.isRunner call.caller →
        ∀ host, (deref last.scan.mem call.req).proto.hostField = some host →
          ∃ op ∈ onePage, op.Seeds siteEnv host := by
  have hends : (run (step siteEnv) (start siteEnv (timed 1)) onePage).map (fun last =>
      (last.scan.calls.filter fun call => call.caller = .securityCheckRunner 0 false).length) =
      some 1 := by decide +kernel
  obtain ⟨last, hrun, hlast⟩ := Option.map_eq_some_iff.mp hends
  have hrules : ∀ check ∈ (timed 1).checks, check.FromRule siteEnv.request :=
    List.forall_mem_singleton.mpr trivial
  exact ⟨last, hrun, hlast, auditsInScope_of_run hrules hrun⟩

/-- In every run, each request that waits for its audit and each that a runner tests is one that
    the crawler has handed to the HTTP client before, and what the runner has made for it names
    its host. -/
theorem auditsCrawled_of_run (hrules : ∀ check ∈ config.checks, check.FromRule env.request)
    (hrun : run (step env) (start env config) ops = some last) :
    (∀ req ∈ last.scan.store.auditQueue, req ∈ last.scan.crawled) ∧
      ∀ p < last.scan.runnerMem.next,
        (last.scan.runnerAt p).testedRequest ∈ last.scan.crawled ∧
        ∀ req ∈ (last.scan.runnerAt p).requests, Request.SameHost
          (deref last.scan.mem (last.scan.runnerAt p).testedRequest) (deref last.scan.mem req) := by
  have htarget := run_onTarget hrules hrun
  refine ⟨htarget.auditQueue, fun p hp => ?_⟩
  have hrunner := htarget.runnerAt hp
  exact ⟨hrunner.tested, fun req hmem => (hrunner.requests req hmem).2⟩

theorem auditsCrawled_of_run_onePage : ∃ last,
    run (step siteEnv) (start siteEnv (timed 1)) onePage = some last ∧
      last.scan.crawled = [0] ∧ (last.scan.runnerAt 0).testedRequest ∈ last.scan.crawled := by
  have hends : (run (step siteEnv) (start siteEnv (timed 1)) onePage).map (fun last =>
      (last.scan.crawled, last.scan.runnerMem.next)) = some ([0], 1) := by decide +kernel
  obtain ⟨last, hrun, hlast⟩ := Option.map_eq_some_iff.mp hends
  have hcrawled : last.scan.crawled = [0] := congrArg Prod.fst hlast
  have hnext : last.scan.runnerMem.next = 1 := congrArg Prod.snd hlast
  have hrules : ∀ check ∈ (timed 1).checks, check.FromRule siteEnv.request :=
    List.forall_mem_singleton.mpr trivial
  have htested := (auditsCrawled_of_run hrules hrun).2 0
  exact ⟨last, hrun, hcrawled, (htested (by omega)).1⟩

end MainLoop

end plusfish

import Plusfish.DataStore.Structure

open memory ordered_map transition

namespace plusfish

theorem Request.issuesOf_addIssue (request : Request) (issue : IssueDetails)
    (issueType : IssueDetails.IssueType) : (request.addIssue issue).issuesOf issueType =
      request.issuesOf issueType ++ if issueType = issue.type then [issue] else [] := by
  simp only [Request.issuesOf, Request.addIssue, find_assign]
  by_cases htype : issueType = issue.type
  · simp [htype]
  · simp [htype, Ne.symm htype]

namespace Site

/-- The issues attached to the requests are those stored for their ids, the counters
    count the stored issues, and no issue is stored twice. -/
structure Accounted (env : StoreEnv) (site : Site) : Prop where
  unknown : ∀ requestId, site.store.getRequestById requestId = none →
    ∀ issueType, site.store.issuesAt requestId issueType = []
  attached : ∀ requestId req, site.store.getRequestById requestId = some req →
    ∀ issueType, (deref site.mem req).issuesOf issueType =
      site.store.issuesAt requestId issueType
  perType : ∀ issueType, site.store.issueCounter issueType =
    (site.store.storedIssues.countP (·.type = issueType) : Int)
  perSeverity : ∀ severity, site.store.severityCounter severity =
    site.store.storedIssues.countP (·.severity = severity)
  different : ∀ requestId issueType, (site.store.issuesAt requestId issueType).Pairwise
    fun entry issue => env.messageDifferencerEquals entry issue = false

section
variable {env : StoreEnv} {site site' : Site}

theorem Accounted.start : Accounted env {} where
  unknown := fun _ _ _ => rfl
  attached := fun _ _ h => by cases h
  perType := fun _ => rfl
  perSeverity := fun severity => by cases severity <;> rfl
  different := fun _ _ => List.Pairwise.nil

/-- Accounts are kept by what neither stores an issue nor forgets one, where the known
    requests keep their issues. -/
theorem Accounted.of_sameIssues (hsite : Accounted env site)
    (hissues : site.store.SameIssues site'.store)
    (hunknown : ∀ requestId, site'.store.getRequestById requestId = none →
      site.store.getRequestById requestId = none)
    (hattached : ∀ requestId req, site'.store.getRequestById requestId = some req →
      ∀ issueType, (deref site'.mem req).issuesOf issueType =
        site.store.issuesAt requestId issueType) : Accounted env site' where
  unknown := fun requestId h issueType => by
    rw [hissues.issuesAt, hsite.unknown requestId (hunknown requestId h)]
  attached := fun requestId req h issueType => by
    rw [hissues.issuesAt, hattached requestId req h]
  perType := fun issueType => by
    rw [DataStore.issueCounter, hissues.checkIssueCounters, hissues.storedIssues.countP_eq,
      ← hsite.perType, DataStore.issueCounter]
  perSeverity := fun severity => by
    rw [DataStore.severityCounter, hissues.issueCountPerSeverity, hissues.storedIssues.countP_eq,
      ← hsite.perSeverity, DataStore.severityCounter]
  different := fun requestId issueType => by
    rw [hissues.issuesAt]
    exact hsite.different requestId issueType

theorem Accounted.keeps (hsite : Accounted env site) (hcoherent : Coherent env site)
    (hkeeps : Keeps env site site') (hattached : KeepsAttached site site')
    (hissues : site.store.SameIssues site'.store) : Accounted env site' := by
  have hbyId (requestId : Int) :
      site'.store.getRequestById requestId = site.store.getRequestById requestId := by
    simp only [DataStore.getRequestById, hkeeps.requestsById]
  refine hsite.of_sameIssues hissues (fun requestId h => ?_) (fun requestId req h issueType => ?_)
  · rwa [hbyId] at h
  · rw [hbyId] at h
    have hentry := hcoherent.getRequestById_iff.mp h
    have hsame := Frame.deref hattached (hcoherent.allocated _ hentry)
    rw [← hsite.attached requestId req h, Request.issuesOf, hsame, Request.issuesOf]

theorem Accounted.accepts (hsite : Accounted env site) (hcoherent : Coherent env site)
    {fresh : FreshRequest} (haccepts : Accepts env site fresh site')
    (hattached : KeepsAttached site site') (hissues : site.store.SameIssues site'.store) :
    Accounted env site' := by
  have hnext : site.store.getRequestById ((site.store.requestId + 1 : Nat) : Int) = none := by
    rw [DataStore.getRequestById, hcoherent.requestsById, hcoherent.find_next]
  have hbyId (requestId : Int) : site'.store.getRequestById requestId =
      if ((site.store.requestId + 1 : Nat) : Int) = requestId then some site.mem.next
      else site.store.getRequestById requestId := by
    simp only [DataStore.getRequestById, haccepts.requestsById, find_assign]
  refine hsite.of_sameIssues hissues (fun requestId h => ?_) (fun requestId req h issueType => ?_)
  · rw [hbyId] at h
    split at h
    · cases h
    · exact h
  · rw [hbyId] at h
    split at h
    · rename_i hid
      cases h
      subst hid
      rw [hsite.unknown _ hnext, deref_of_get? haccepts.new, Request.issuesOf, fresh.noIssues]
      rfl
    · have hentry := hcoherent.getRequestById_iff.mp h
      have hsame := Frame.deref hattached (hcoherent.allocated _ hentry)
      rw [← hsite.attached requestId req h, Request.issuesOf, hsame, Request.issuesOf]

/-- An issue is attached to the request with its id, and to no other. -/
theorem Accounted.attached_recorded (hsite : Accounted env site) {requestId : Int}
    {issue : IssueDetails} {req : Nat} (hreq : site.store.getRequestById requestId = some req)
    (hmem : site'.mem = site.mem.modify req (·.addIssue issue))
    (hissues : site.store.RecordsIssue requestId issue site'.store) {requestId' : Int} {req' : Nat}
    (hreq' : site.store.getRequestById requestId' = some req') (hallocated : req' < site.mem.next)
    (hids : requestId' ≠ requestId → req ≠ req') (issueType : IssueDetails.IssueType) :
    (deref site'.mem req').issuesOf issueType = site'.store.issuesAt requestId' issueType := by
  have hold := hsite.attached requestId' req' hreq' issueType
  obtain ⟨request, hget⟩ := Heap.get?_of_lt_next hallocated
  rw [deref_of_get? hget] at hold
  rw [hissues.issuesAt, deref, hmem, Heap.get?_modify, hget]
  by_cases hid : requestId' = requestId
  · subst hid
    cases hreq.symm.trans hreq'
    simp only [if_true, Option.map_some, Option.getD_some, true_and,
      Request.issuesOf_addIssue, hold]
    split
    · rename_i htype
      rw [htype]
    · simp
  · simp [hids hid, hid, hold]

theorem Accounted.attached_issued (hsite : Accounted env site) (hcoherent : Coherent env site)
    {requestId : Int} {issue : IssueDetails} {req : Nat}
    (hreq : site.store.getRequestById requestId = some req)
    (hmem : site'.mem = site.mem.modify req (·.addIssue issue))
    (hissues : site.store.RecordsIssue requestId issue site'.store) {requestId' : Int} {req' : Nat}
    (hreq' : site.store.getRequestById requestId' = some req')
    (issueType : IssueDetails.IssueType) :
    (deref site'.mem req').issuesOf issueType = site'.store.issuesAt requestId' issueType := by
  have hentry := hcoherent.getRequestById_iff.mp hreq
  have hentry' := hcoherent.getRequestById_iff.mp hreq'
  refine hsite.attached_recorded hreq hmem hissues hreq' (hcoherent.allocated _ hentry')
    ?_ issueType
  rintro hid rfl
  have hids := hcoherent.idOf _ hentry
  rw [hcoherent.idOf _ hentry'] at hids
  exact hid hids

/-- An issue that was let through is different from those before it. -/
theorem Accounted.different_issued (hsite : Accounted env site) {requestId : Int}
    {issue : IssueDetails} {req : Nat}
    (hadmitted : ¬ site.store.issueRefused env site.mem requestId req issue)
    (hissues : site.store.RecordsIssue requestId issue site'.store) (requestId' : Int)
    (issueType : IssueDetails.IssueType) :
    (site'.store.issuesAt requestId' issueType).Pairwise
      fun entry issue => env.messageDifferencerEquals entry issue = false := by
  rw [hissues.issuesAt]
  split
  · apply List.pairwise_append.mpr
    refine ⟨hsite.different requestId issue.type, List.pairwise_singleton _ _, ?_⟩
    intro entry hmem last hlast
    cases List.mem_singleton.mp hlast
    have hnew : ¬ ∃ entry ∈ site.store.issuesAt requestId issue.type,
        env.messageDifferencerEquals entry issue = true :=
      fun h => hadmitted (Or.inr (Or.inl h))
    by_contra hold
    exact hnew ⟨entry, hmem, by simpa using hold⟩
  · exact hsite.different requestId' issueType

/-- An issue is counted once. -/
theorem Accounted.recorded (hsite : Accounted env site) {requestId : Int} {issue : IssueDetails}
    {req : Nat} (hindex : site'.store.requestsById = site.store.requestsById)
    (hreq : site.store.getRequestById requestId = some req)
    (hadmitted : ¬ site.store.issueRefused env site.mem requestId req issue)
    (hissues : site.store.RecordsIssue requestId issue site'.store)
    (hattached : ∀ requestId' req', site.store.getRequestById requestId' = some req' →
      ∀ issueType, (deref site'.mem req').issuesOf issueType =
        site'.store.issuesAt requestId' issueType) : Accounted env site' := by
  have hbyId (requestId : Int) :
      site'.store.getRequestById requestId = site.store.getRequestById requestId := by
    simp only [DataStore.getRequestById, hindex]
  refine ⟨fun requestId' h issueType => ?_, fun requestId' req' h issueType => ?_,
    fun issueType => ?_, fun severity => ?_, hsite.different_issued hadmitted hissues⟩
  · rw [hbyId] at h
    rw [hissues.issuesAt, if_neg, hsite.unknown requestId' h]
    rintro ⟨rfl, _⟩
    rw [hreq] at h
    cases h
  · rw [hbyId] at h
    exact hattached requestId' req' h issueType
  · rw [hissues.issueCounter, hissues.storedIssues.countP_eq, List.countP_cons, hsite.perType]
    by_cases htype : issueType = issue.type
    · simp [htype]
    · simp [htype, Ne.symm htype]
  · rw [hissues.severityCounter, hissues.storedIssues.countP_eq, List.countP_cons,
      hsite.perSeverity]
    by_cases hseverity : severity = issue.severity
    · simp [hseverity]
    · simp [hseverity, Ne.symm hseverity]

theorem Accounted.issued (hsite : Accounted env site) (hcoherent : Coherent env site)
    {requestId : Int} {issue : IssueDetails} {req : Nat} (hkeeps : Keeps env site site')
    (hreq : site.store.getRequestById requestId = some req)
    (hadmitted : ¬ site.store.issueRefused env site.mem requestId req issue)
    (hmem : site'.mem = site.mem.modify req (·.addIssue issue))
    (hissues : site.store.RecordsIssue requestId issue site'.store) : Accounted env site' :=
  hsite.recorded hkeeps.requestsById hreq hadmitted hissues fun _ _ hreq' =>
    hsite.attached_issued hcoherent hreq hmem hissues hreq'

theorem Accounted.step {op : StoreOp} (hsite : Accounted env site)
    (hcoherent : Coherent env site) (hstep : site.step env op = some site') :
    Accounted env site' := by
  cases step_outcome hstep with
  | kept hkeeps hattached hissues _ => exact hsite.keeps hcoherent hkeeps hattached hissues
  | accepted fresh haccepts hattached hissues =>
    exact hsite.accepts hcoherent haccepts hattached hissues
  | issued requestId issue req _ hkeeps hreq hadmitted hmem hissues =>
    exact hsite.issued hcoherent hkeeps hreq hadmitted hmem hissues

theorem accounted_of_reachable (hreach : Reachable (Site.step env) {} site) :
    Accounted env site :=
  (hreach.invariant (P := fun site => Coherent env site ∧ Accounted env site)
    ⟨Coherent.start, Accounted.start⟩
    fun _ _ _ h hstep => ⟨h.1.step hstep, h.2.step h.1 hstep⟩).2

end

/-- A call that returned false stored no issue, changed no counter and attached no
    issue to a request. -/
def FalseWithoutTrace (site : Site) (result : Bool × Heap Request × DataStore) : Prop :=
  result.1 = false → result.2.1 = site.mem ∧ site.store.SameIssues result.2.2

theorem addIssueDetails_falseWithoutTrace (env : StoreEnv) (site : Site) (requestId : Int)
    (issue : IssueDetails) : site.FalseWithoutTrace
      (site.store.addIssueDetails env site.mem requestId issue) := by
  have houtcome := DataStore.addIssueDetails_outcome env site.mem site.store requestId issue
  generalize site.store.addIssueDetails env site.mem requestId issue = result at houtcome
  cases houtcome with
  | refused store' _ hissues _ => exact fun _ => ⟨rfl, hissues⟩
  | stored req store' _ _ _ _ => exact fun h => by cases h

/-- What the datastore promises about issues. -/
structure IssuesConsistent (env : StoreEnv) (site : Site) : Prop where
  attached : ∀ requestId req, site.store.getRequestById requestId = some req →
    ∀ issueType, (deref site.mem req).issuesOf issueType =
      site.store.issuesAt requestId issueType
  perType : ∀ issueType, site.store.issueCounter issueType =
    (site.store.storedIssues.countP (·.type = issueType) : Int)
  perSeverity : ∀ severity, site.store.severityCounter severity =
    site.store.storedIssues.countP (·.severity = severity)
  different : ∀ requestId issueType, (site.store.issuesAt requestId issueType).Pairwise
    fun a b => env.messageDifferencerEquals a b = false ∧
      env.messageDifferencerEquals b a = false
  addIssue : ∀ requestId issueType severity testRequest, site.FalseWithoutTrace
    (site.store.addIssue env site.mem requestId issueType severity testRequest)
  addIssueById : ∀ requestId issueType severity result,
    site.store.addIssueById env site.mem requestId issueType severity = some result →
      site.FalseWithoutTrace result
  addIssueDetails : ∀ requestId issue, site.FalseWithoutTrace
    (site.store.addIssueDetails env site.mem requestId issue)

/-- After any calls, the four tallies of the issues agree, no issue is stored twice,
    and the next call that returns false leaves no trace among them. -/
theorem issuesConsistent_of_reachable {env : StoreEnv}
    (hsymm : ∀ a b, env.messageDifferencerEquals a b = env.messageDifferencerEquals b a)
    {site : Site} (hreach : Reachable (step env) {} site) : IssuesConsistent env site := by
  have hsite := accounted_of_reachable hreach
  refine ⟨hsite.attached, hsite.perType, hsite.perSeverity, fun requestId issueType => ?_,
    fun requestId issueType severity testRequest => ?_,
    fun requestId issueType severity result hresult => ?_, fun requestId issue => ?_⟩
  · refine (hsite.different requestId issueType).imp fun {a b} hab => ⟨hab, ?_⟩
    rw [hsymm, hab]
  · exact addIssueDetails_falseWithoutTrace env site requestId _
  · obtain ⟨req, _, rfl⟩ := Option.map_eq_some_iff.mp hresult
    exact addIssueDetails_falseWithoutTrace env site requestId _
  · exact addIssueDetails_falseWithoutTrace env site requestId issue

/-- A page for which one issue is reported twice, and two other issues once. -/
theorem shopRequest_noIssues : shopRequest.issues = [] := rfl

def shopIssues : List StoreOp :=
  [.addHost (ascii "site"), .addRequest ⟨shopRequest, shopRequest_noIssues⟩,
    .addIssueById 1 .xssReflected .high, .addIssueById 1 .xssReflected .high,
    .addIssueById 1 .xssReflected .low, .addIssueById 1 .mixedContent .low]

theorem issuesConsistent_of_reachable_shop :
    ∃ site, run (step StoreEnv.literal) {} shopIssues = some site ∧
      site.store.storedIssues.length = 3 ∧ IssuesConsistent StoreEnv.literal site := by
  have hsymm (a b : IssueDetails) : StoreEnv.literal.messageDifferencerEquals a b =
      StoreEnv.literal.messageDifferencerEquals b a := by
    simp only [StoreEnv.literal, eq_comm]
  exact ⟨_, rfl, by decide, issuesConsistent_of_reachable hsymm ⟨shopIssues, rfl⟩⟩

/-- No request has more issues than the limit per URL. -/
def Capped (env : StoreEnv) (site : Site) : Prop :=
  ∀ requestId, ((site.store.issuesFor requestId).length : Int) ≤ env.maxIssuesPerUrl.toInt

/-- A call that reports no issue for a request that has as many issues already as the
    limit per URL allows, unless the issue is refused: because these issues are all of
    different types, because it is stored already, or because of a limit per type. -/
def ReportsBelowCap (env : StoreEnv) (site : Site) (op : StoreOp) : Prop :=
  ∀ requestId issue req, site.report op = some (requestId, issue) →
    site.store.getRequestById requestId = some req →
      ((site.store.issuesFor requestId).length : Int) < env.maxIssuesPerUrl.toInt ∨
        site.store.issueRefused env site.mem requestId req issue

theorem capped_step_iff {env : StoreEnv} {site site' : Site} {op : StoreOp}
    (hsite : Capped env site) (hstep : site.step env op = some site') :
    Capped env site' ↔ ReportsBelowCap env site op := by
  cases step_outcome hstep with
  | kept hkeeps hattached hissues hreport =>
    refine iff_of_true (fun requestId => ?_) (fun requestId issue req h hreq => ?_)
    · rw [(hissues.issuesFor requestId).length_eq]
      exact hsite requestId
    · exact Or.inr (hreport requestId issue h req hreq)
  | accepted fresh haccepts hattached hissues =>
    refine iff_of_true (fun requestId => ?_) (fun _ _ _ h => by cases h)
    rw [(hissues.issuesFor requestId).length_eq]
    exact hsite requestId
  | issued requestId issue req hreport hkeeps hreq hadmitted hmem hissues =>
    have hlength := (hissues.issuesFor requestId).length_eq
    rw [if_pos rfl, List.length_cons] at hlength
    constructor
    · intro hcapped requestId' issue' req' hreport' hreq'
      cases hreport.symm.trans hreport'
      have hbound := hcapped requestId
      exact Or.inl (by omega)
    · intro hbelow requestId'
      have hlength' := (hissues.issuesFor requestId').length_eq
      by_cases hid : requestId' = requestId
      · subst hid
        rcases hbelow requestId' issue req hreport hreq with hroom | hrefused
        · omega
        · exact absurd hrefused hadmitted
      · rw [if_neg hid] at hlength'
        rw [hlength']
        exact hsite requestId'

theorem report_of_stuck {env : StoreEnv} {site : Site} {op : StoreOp}
    (hstuck : site.step env op = none) : site.report op = none := by
  cases op with
  | addIssue => cases hstuck
  | addIssueDetails => cases hstuck
  | addIssueById requestId issueType severity =>
    simp only [step, DataStore.addIssueById, Option.map_map, Option.map_eq_none_iff] at hstuck
    simp only [report, hstuck, Option.map_none]
  | _ => rfl

/-- A run stays within the limit of issues per URL in all its states exactly if each of
    its calls reports below the limit. -/
theorem capped_run_iff {env : StoreEnv} (hlimit : 1 ≤ env.maxIssuesPerUrl.toInt)
    (ops : List StoreOp) :
    (∀ before after site, ops = before ++ after → run (step env) {} before = some site →
      Capped env site) ↔ Along (step env) (ReportsBelowCap env) {} ops := by
  refine forall_prefix_iff_along (I := fun _ => True) (fun _ _ _ _ _ => trivial)
    (fun _ _ _ _ => capped_step_iff) (fun site op hstuck => ?_) trivial ?_ ops
  · intro requestId issue req hreport
    rw [report_of_stuck hstuck] at hreport
    cases hreport
  · intro requestId
    have hnone : (({} : Site).store.issuesFor requestId).length = 0 := rfl
    omega

/-- Limits that allow two issues for a request. -/
def twoIssues : StoreEnv := { StoreEnv.literal with maxIssuesPerUrl := 2 }

theorem capped_run_iff_twoIssues :
    (∀ before after site, shopIssues = before ++ after →
      run (step twoIssues) {} before = some site → Capped twoIssues site) ↔
      Along (step twoIssues) (ReportsBelowCap twoIssues) {} shopIssues :=
  capped_run_iff (by decide) shopIssues

/-- Three issues of two types are stored for a request that may have two issues. -/
theorem shopIssues_not_capped : ∃ site,
    Reachable (step twoIssues) {} site ∧
      (site.store.issuesFor 1).length = 3 ∧ ¬ Capped twoIssues site := by
  refine ⟨_, ⟨shopIssues, rfl⟩, by decide, fun hcapped => ?_⟩
  exact absurd (hcapped 1) (by decide)

end Site

end plusfish

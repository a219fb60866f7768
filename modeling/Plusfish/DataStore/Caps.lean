import Plusfish.DataStore.Accounting

open memory ordered_map transition

namespace plusfish

namespace Site

/-- No limit of issues per type is exceeded, neither for a request nor over all requests. -/
structure CappedPerCheck (env : StoreEnv) (site : Site) : Prop where
  perUrl : ∀ requestId issueType,
    ((site.store.issuesAt requestId issueType).length : Int) ≤ env.maxIssuesPerCheckPerUrl.toInt
  perCheck : ∀ issueType,
    (site.store.storedIssues.countP (·.type = issueType) : Int) ≤ env.maxIssuesPerCheck.toInt

/-- Where one of the two limits is 0, the call reports no issue for a known request, unless
    the issue is refused: because the request has issues of as many types as the limit per URL,
    because it is stored already, or because of a limit per type that is tested. -/
def ReportsWithinLimits (env : StoreEnv) (site : Site) (op : StoreOp) : Prop :=
  (1 ≤ env.maxIssuesPerCheckPerUrl.toInt ∧ 1 ≤ env.maxIssuesPerCheck.toInt) ∨
  ∀ requestId issue req, site.report op = some (requestId, issue) →
    site.store.getRequestById requestId = some req →
      site.store.issueRefused env site.mem requestId req issue

section
variable {env : StoreEnv} {site site' : Site}

theorem CappedPerCheck.of_sameIssues (hsite : CappedPerCheck env site)
    (hissues : site.store.SameIssues site'.store) : CappedPerCheck env site' where
  perUrl requestId issueType := by
    rw [hissues.issuesAt]
    exact hsite.perUrl requestId issueType
  perCheck issueType := by
    rw [hissues.storedIssues.countP_eq]
    exact hsite.perCheck issueType

/-- An issue that was let through found room below the limit for its request, unless that
    limit is 0: the first issue of a request is not compared with it. -/
theorem room_perUrl {requestId : Int} {req : Nat} {issue : IssueDetails}
    (hbound : ((site.store.issuesAt requestId issue.type).length : Int) ≤
      env.maxIssuesPerCheckPerUrl.toInt)
    (hadmitted : ¬ site.store.issueRefused env site.mem requestId req issue)
    (hlimit : 1 ≤ env.maxIssuesPerCheckPerUrl.toInt) :
    ((site.store.issuesAt requestId issue.type).length : Int) <
      env.maxIssuesPerCheckPerUrl.toInt := by
  have hsize := sizeT_of_nonneg (n := env.maxIssuesPerCheckPerUrl) (by omega)
  cases hfound : find site.store.issuePerId requestId with
  | none =>
    have hempty : site.store.issuesAt requestId issue.type = [] := by
      simp [DataStore.issuesAt, DataStore.issueMap, hfound, find]
    rw [hempty, List.length_nil]
    omega
  | some issueMap =>
    have hne : (site.store.issuesAt requestId issue.type).length ≠
        sizeT env.maxIssuesPerCheckPerUrl := fun heq =>
      hadmitted (Or.inr (Or.inr (Or.inl ⟨by rw [hfound]; rfl, heq⟩)))
    omega

/-- The same for the limit over all requests, which the first issue of a type is not
    compared with. -/
theorem room_perCheck {requestId : Int} {req : Nat} {issue : IssueDetails}
    (haccounted : Accounted env site)
    (hbound : (site.store.storedIssues.countP (·.type = issue.type) : Int) ≤
      env.maxIssuesPerCheck.toInt)
    (hadmitted : ¬ site.store.issueRefused env site.mem requestId req issue)
    (hlimit : 1 ≤ env.maxIssuesPerCheck.toInt) :
    (site.store.storedIssues.countP (·.type = issue.type) : Int) <
      env.maxIssuesPerCheck.toInt := by
  have hcount := haccounted.perType issue.type
  unfold DataStore.issueCounter at hcount
  cases hfound : find site.store.checkIssueCounters issue.type with
  | none =>
    rw [hfound, Option.getD_none] at hcount
    omega
  | some count =>
    have hne : count ≠ env.maxIssuesPerCheck.toInt := fun heq =>
      hadmitted (Or.inr (Or.inr (Or.inr (by rw [hfound, heq]))))
    rw [hfound, Option.getD_some] at hcount
    omega

/-- One more issue keeps to the limits if they are positive, and only then. -/
theorem cappedPerCheck_issued_iff {requestId : Int} {req : Nat} {issue : IssueDetails}
    (haccounted : Accounted env site) (hsite : CappedPerCheck env site)
    (hadmitted : ¬ site.store.issueRefused env site.mem requestId req issue)
    (hissues : site.store.RecordsIssue requestId issue site'.store) :
    CappedPerCheck env site' ↔
      1 ≤ env.maxIssuesPerCheckPerUrl.toInt ∧ 1 ≤ env.maxIssuesPerCheck.toInt := by
  have hcount (issueType : IssueDetails.IssueType) :
      site'.store.storedIssues.countP (·.type = issueType) =
        site.store.storedIssues.countP (·.type = issueType) +
          if issue.type = issueType then 1 else 0 := by
    rw [hissues.storedIssues.countP_eq, List.countP_cons]
    simp
  constructor
  · intro hcapped
    have hurl := hcapped.perUrl requestId issue.type
    have hcheck := hcapped.perCheck issue.type
    rw [hissues.issuesAt, if_pos ⟨rfl, rfl⟩, List.length_append, List.length_singleton] at hurl
    rw [hcount, if_pos rfl] at hcheck
    omega
  · rintro ⟨hurl, hcheck⟩
    refine ⟨fun requestId' issueType => ?_, fun issueType => ?_⟩
    · have hroom := room_perUrl (hsite.perUrl requestId issue.type) hadmitted hurl
      rw [hissues.issuesAt]
      split
      · rw [List.length_append, List.length_singleton]
        omega
      · exact hsite.perUrl requestId' issueType
    · rw [hcount]
      split
      · rename_i htype
        subst htype
        have hroom := room_perCheck haccounted (hsite.perCheck issue.type) hadmitted hcheck
        omega
      · exact hsite.perCheck issueType

theorem cappedPerCheck_step_iff {op : StoreOp} (haccounted : Accounted env site)
    (hsite : CappedPerCheck env site) (hstep : site.step env op = some site') :
    CappedPerCheck env site' ↔ ReportsWithinLimits env site op := by
  cases step_outcome hstep with
  | kept _ _ hissues hreport =>
    exact iff_of_true (hsite.of_sameIssues hissues)
      (Or.inr fun requestId issue req h hreq => hreport requestId issue h req hreq)
  | accepted fresh _ _ hissues =>
    exact iff_of_true (hsite.of_sameIssues hissues) (Or.inr fun _ _ _ h => by cases h)
  | issued requestId issue req hreport _ hreq hadmitted _ hissues =>
    rw [cappedPerCheck_issued_iff haccounted hsite hadmitted hissues]
    exact ⟨Or.inl, fun h => h.resolve_right fun hrefused =>
      hadmitted (hrefused requestId issue req hreport hreq)⟩

end

/-- A run keeps to both limits per issue type in all its states exactly if each of its calls
    reports within the limits: always where they are positive. -/
theorem cappedPerCheck_run_iff {env : StoreEnv} (hurl : 0 ≤ env.maxIssuesPerCheckPerUrl.toInt)
    (hcheck : 0 ≤ env.maxIssuesPerCheck.toInt) (ops : List StoreOp) :
    (∀ before after site, ops = before ++ after → run (step env) {} before = some site →
      CappedPerCheck env site) ↔ Along (step env) (ReportsWithinLimits env) {} ops := by
  refine forall_prefix_iff_along (I := fun site => Coherent env site ∧ Accounted env site)
    (fun _ _ _ h hstep => ⟨h.1.step hstep, h.2.step h.1 hstep⟩)
    (fun _ _ _ h => cappedPerCheck_step_iff h.2) (fun site op hstuck => ?_)
    ⟨Coherent.start, Accounted.start⟩ ⟨fun _ _ => hurl, fun _ => hcheck⟩ ops
  refine Or.inr fun requestId issue req hreport => ?_
  rw [report_of_stuck hstuck] at hreport
  cases hreport

/-- Limits that allow one issue of each type. -/
def oneOfEachType : StoreEnv :=
  { StoreEnv.literal with maxIssuesPerCheckPerUrl := 1, maxIssuesPerCheck := 1 }

theorem cappedPerCheck_run_iff_oneOfEachType :
    (∀ before after site, shopIssues = before ++ after →
      run (step oneOfEachType) {} before = some site → CappedPerCheck oneOfEachType site) ↔
      Along (step oneOfEachType) (ReportsWithinLimits oneOfEachType) {} shopIssues :=
  cappedPerCheck_run_iff (by decide) (by decide) shopIssues

/-- A limit of 0 for each request. -/
def nonePerUrl : StoreEnv := { StoreEnv.literal with maxIssuesPerCheckPerUrl := 0 }

/-- A limit of 0 over all requests. -/
def nonePerCheck : StoreEnv := { StoreEnv.literal with maxIssuesPerCheck := 0 }

/-- A limit of 0 does not stop the first issue of a request or of a type, nor any that come
    after it. -/
theorem zeroLimits_not_cappedPerCheck :
    (∃ site, Reachable (step nonePerUrl) {} site ∧
      (site.store.issuesAt 1 .xssReflected).length = 2 ∧ ¬ CappedPerCheck nonePerUrl site) ∧
    ∃ site, Reachable (step nonePerCheck) {} site ∧
      site.store.storedIssues.countP (·.type = .xssReflected) = 2 ∧
      ¬ CappedPerCheck nonePerCheck site := by
  refine ⟨⟨_, ⟨shopIssues, rfl⟩, by decide, fun hcapped => ?_⟩,
    ⟨_, ⟨shopIssues, rfl⟩, by decide, fun hcapped => ?_⟩⟩
  · exact absurd (hcapped.perUrl 1 .xssReflected) (by decide)
  · exact absurd (hcapped.perCheck .xssReflected) (by decide)

end Site

end plusfish

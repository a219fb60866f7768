import Plusfish.DataStore

open memory ordered_map

namespace plusfish

/-- The issues attached to a request, of one type. -/
def Request.issuesOf (self : Request) (issueType : IssueDetails.IssueType) : List IssueDetails :=
  (find self.issues issueType).getD []

namespace DataStore

/-- The issues that `issue_per_id_` has for a request id, of one type. -/
def issuesAt (self : DataStore) (requestId : Int) (issueType : IssueDetails.IssueType) :
    List IssueDetails := (find (self.issueMap requestId) issueType).getD []

/-- The issues that `issue_per_id_` has for a request id. -/
def issuesFor (self : DataStore) (requestId : Int) : List IssueDetails :=
  (self.issueMap requestId).flatMap (·.2)

/-- All stored issues. -/
def storedIssues (self : DataStore) : List IssueDetails :=
  self.issuePerId.flatMap fun entry => entry.2.flatMap (·.2)

/-- The counter of `check_issue_counters_` for an issue type. -/
def issueCounter (self : DataStore) (issueType : IssueDetails.IssueType) : Int :=
  (find self.checkIssueCounters issueType).getD 0

def severityCounter (self : DataStore) (severity : Severity) : Nat :=
  (find self.issueCountPerSeverity severity).getD 0

/-- The two datastores agree on all but the issues. -/
structure SameRequests (store store' : DataStore) : Prop where
  sitePivots : store'.sitePivots = store.sitePivots
  requestsById : store'.requestsById = store.requestsById
  requestId : store'.requestId = store.requestId
  probeQueue : store'.probeQueue = store.probeQueue

/-- The two datastores have the same issues and the same counts of them. One of them
    may have an empty set where the other has none. -/
structure SameIssues (store store' : DataStore) : Prop where
  issuesAt : ∀ requestId issueType,
    store'.issuesAt requestId issueType = store.issuesAt requestId issueType
  issuesFor : ∀ requestId, (store'.issuesFor requestId).Perm (store.issuesFor requestId)
  storedIssues : store'.storedIssues.Perm store.storedIssues
  checkIssueCounters : store'.checkIssueCounters = store.checkIssueCounters
  issueCountPerSeverity : store'.issueCountPerSeverity = store.issueCountPerSeverity

/-- The second datastore has one more issue than the first, and has counted it. -/
structure RecordsIssue (requestId : Int) (issue : IssueDetails) (store store' : DataStore) :
    Prop where
  issuesAt : ∀ requestId' issueType, store'.issuesAt requestId' issueType =
    if requestId' = requestId ∧ issueType = issue.type then
      store.issuesAt requestId issue.type ++ [issue]
    else store.issuesAt requestId' issueType
  issuesFor : ∀ requestId', (store'.issuesFor requestId').Perm
    (if requestId' = requestId then issue :: store.issuesFor requestId
      else store.issuesFor requestId')
  storedIssues : store'.storedIssues.Perm (issue :: store.storedIssues)
  issueCounter : ∀ issueType, store'.issueCounter issueType =
    store.issueCounter issueType + if issueType = issue.type then 1 else 0
  severityCounter : ∀ severity, store'.severityCounter severity =
    store.severityCounter severity + if severity = issue.severity then 1 else 0

namespace SameIssues

theorem refl (store : DataStore) : SameIssues store store :=
  ⟨fun _ _ => rfl, fun _ => List.Perm.refl _, List.Perm.refl _, rfl, rfl⟩

theorem of_eq {store store' : DataStore} (hissues : store'.issuePerId = store.issuePerId)
    (hcounters : store'.checkIssueCounters = store.checkIssueCounters)
    (hseverities : store'.issueCountPerSeverity = store.issueCountPerSeverity) :
    SameIssues store store' :=
  ⟨fun _ _ => by simp only [DataStore.issuesAt, issueMap, hissues],
    fun _ => List.Perm.of_eq (by simp only [DataStore.issuesFor, issueMap, hissues]),
    List.Perm.of_eq (by simp only [DataStore.storedIssues, hissues]), hcounters, hseverities⟩

end SameIssues

/-- The datastore with a list of issues stored under a request id and a type. -/
def setIssues (self : DataStore) (requestId : Int) (issueType : IssueDetails.IssueType)
    (issues : List IssueDetails) : DataStore :=
  { self with
    issuePerId := assign self.issuePerId requestId
      (assign (self.issueMap requestId) issueType issues) }

section
variable (self : DataStore) (requestId : Int) (issueType : IssueDetails.IssueType)
  (issues : List IssueDetails)

theorem setIssues_issueMap (requestId' : Int) :
    (self.setIssues requestId issueType issues).issueMap requestId' =
      if requestId = requestId' then assign (self.issueMap requestId) issueType issues
      else self.issueMap requestId' := by
  simp only [setIssues, issueMap, find_assign]
  split <;> rfl

theorem setIssues_issuesAt (requestId' : Int) (issueType' : IssueDetails.IssueType) :
    (self.setIssues requestId issueType issues).issuesAt requestId' issueType' =
      if requestId' = requestId ∧ issueType' = issueType then issues
      else self.issuesAt requestId' issueType' := by
  simp only [issuesAt, setIssues_issueMap]
  by_cases hid : requestId = requestId'
  · subst hid
    simp only [if_true, true_and, find_assign]
    by_cases htype : issueType = issueType'
    · simp [htype]
    · simp [htype, Ne.symm htype]
  · simp [hid, Ne.symm hid]

theorem setIssues_issuesFor_of_ne {requestId' : Int} (hne : requestId' ≠ requestId) :
    (self.setIssues requestId issueType issues).issuesFor requestId' =
      self.issuesFor requestId' := by
  simp only [issuesFor, setIssues_issueMap, if_neg (Ne.symm hne)]

theorem perm_issuesFor : (self.issuesFor requestId).Perm (self.issuesAt requestId issueType ++
    (erase (self.issueMap requestId) issueType).flatMap (·.2)) := by
  have hperm := perm_flatMap_find (self.issueMap requestId) issueType (·.2)
  have hissues : ((find (self.issueMap requestId) issueType).map fun v => v).getD [] =
      self.issuesAt requestId issueType := by simp [issuesAt]
  rwa [hissues] at hperm

theorem setIssues_issuesFor : ((self.setIssues requestId issueType issues).issuesFor requestId).Perm
    (issues ++ (erase (self.issueMap requestId) issueType).flatMap (·.2)) := by
  simp only [issuesFor, setIssues_issueMap, if_true]
  exact perm_flatMap_assign (self.issueMap requestId) issueType issues (·.2)

theorem perm_storedIssues : self.storedIssues.Perm (self.issuesFor requestId ++
    (erase self.issuePerId requestId).flatMap fun entry => entry.2.flatMap (·.2)) := by
  have hperm := perm_flatMap_find self.issuePerId requestId fun entry => entry.2.flatMap (·.2)
  have hissues : ((find self.issuePerId requestId).map fun v => v.flatMap (·.2)).getD [] =
      self.issuesFor requestId := by
    unfold issuesFor issueMap
    cases find self.issuePerId requestId <;> rfl
  rwa [hissues] at hperm

theorem setIssues_storedIssues : (self.setIssues requestId issueType issues).storedIssues.Perm
    ((self.setIssues requestId issueType issues).issuesFor requestId ++
      (erase self.issuePerId requestId).flatMap fun entry => entry.2.flatMap (·.2)) := by
  have hperm := perm_flatMap_assign self.issuePerId requestId
    (assign (self.issueMap requestId) issueType issues) fun entry => entry.2.flatMap (·.2)
  simp only [issuesFor, setIssues_issueMap, if_true]
  exact hperm

/-- Storing the issues that are there already only creates the set. -/
theorem setIssues_self_sameIssues :
    SameIssues self (self.setIssues requestId issueType (self.issuesAt requestId issueType)) := by
  have hfor := (setIssues_issuesFor self requestId issueType
    (self.issuesAt requestId issueType)).trans
    (perm_issuesFor self requestId issueType).symm
  refine ⟨fun requestId' issueType' => ?_, fun requestId' => ?_, ?_, rfl, rfl⟩
  · rw [setIssues_issuesAt]
    split
    · rename_i h
      rw [h.1, h.2]
    · rfl
  · by_cases hid : requestId' = requestId
    · subst hid
      exact hfor
    · rw [setIssues_issuesFor_of_ne _ _ _ _ hid]
  · exact (setIssues_storedIssues _ _ _ _).trans
      ((hfor.append_right _).trans (perm_storedIssues self requestId).symm)

end

/-- The datastore after an issue got past all limits. -/
def record (self : DataStore) (requestId : Int) (issue : IssueDetails) : DataStore :=
  { self.setIssues requestId issue.type (self.issuesAt requestId issue.type ++ [issue]) with
    checkIssueCounters :=
      assign self.checkIssueCounters issue.type (self.issueCounter issue.type + 1)
    issueCountPerSeverity :=
      assign self.issueCountPerSeverity issue.severity (self.severityCounter issue.severity + 1) }

theorem record_sameRequests (self : DataStore) (requestId : Int) (issue : IssueDetails) :
    SameRequests self (self.record requestId issue) :=
  ⟨rfl, rfl, rfl, rfl⟩

theorem record_recordsIssue (self : DataStore) (requestId : Int) (issue : IssueDetails) :
    RecordsIssue requestId issue self (self.record requestId issue) := by
  have hfor := (setIssues_issuesFor self requestId issue.type
    (self.issuesAt requestId issue.type ++ [issue])).trans
      (List.perm_append_comm.append_right _ |>.trans
        ((perm_issuesFor self requestId issue.type).symm.cons issue))
  refine ⟨fun requestId' issueType => ?_, fun requestId' => ?_, ?_, fun issueType => ?_,
    fun severity => ?_⟩
  · exact setIssues_issuesAt _ _ _ _ _ _
  · by_cases hid : requestId' = requestId
    · subst hid
      rw [if_pos rfl]
      exact hfor
    · rw [if_neg hid]
      exact List.Perm.of_eq (setIssues_issuesFor_of_ne self requestId issue.type _ hid)
  · exact (setIssues_storedIssues _ _ _ _).trans
      ((hfor.append_right _).trans ((perm_storedIssues self requestId).symm.cons issue))
  · simp only [record, issueCounter, find_assign]
    by_cases htype : issueType = issue.type
    · simp [htype]
    · simp [htype, Ne.symm htype]
  · simp only [record, severityCounter, find_assign]
    by_cases hseverity : severity = issue.severity
    · simp [hseverity]
    · simp [hseverity, Ne.symm hseverity]

theorem SameIssues.recordsIssue {requestId : Int} {issue : IssueDetails}
    {store store' store'' : DataStore} (hsame : SameIssues store store')
    (hrecord : RecordsIssue requestId issue store' store'') :
    RecordsIssue requestId issue store store'' := by
  refine ⟨fun requestId' issueType => ?_, fun requestId' => ?_, ?_, fun issueType => ?_,
    fun severity => ?_⟩
  · rw [hrecord.issuesAt, hsame.issuesAt, hsame.issuesAt]
  · apply (hrecord.issuesFor requestId').trans
    split
    · exact (hsame.issuesFor requestId).cons issue
    · exact hsame.issuesFor requestId'
  · exact hrecord.storedIssues.trans (hsame.storedIssues.cons issue)
  · simpa only [issueCounter, hsame.checkIssueCounters] using hrecord.issueCounter issueType
  · simpa only [severityCounter, hsame.issueCountPerSeverity] using hrecord.severityCounter severity

section
variable {env : StoreEnv} {mem : Heap Request} {self : DataStore} {requestId : Int} {req : Nat}
  {issue : IssueDetails}

theorem registerIssue_eq : self.registerIssue env mem requestId req issue =
    if find self.checkIssueCounters issue.type = some env.maxIssuesPerCheck.toInt then
      (false, mem, self)
    else (true, mem.modify req (·.addIssue issue), self.record requestId issue) := by
  simp only [registerIssue, checkAndUpdateIssueCounters]
  cases hcount : find self.checkIssueCounters issue.type with
  | none => simp [record, issueCounter, hcount, setIssues, issuesAt, issueMap, severityCounter]
  | some count =>
    by_cases hlimit : count = env.maxIssuesPerCheck.toInt
    · simp [hlimit]
    · simp [hlimit, record, issueCounter, hcount, setIssues, issuesAt, issueMap, severityCounter]

/-- The reasons for which an issue of a known request is not stored. -/
def issueRefused (env : StoreEnv) (mem : Heap Request) (self : DataStore) (requestId : Int)
    (req : Nat) (issue : IssueDetails) : Prop :=
  -- The request has issues of as many types as it may have issues.
  (deref mem req).issues.length = sizeT env.maxIssuesPerUrl ∨
  -- The issue is stored already.
  (∃ entry ∈ self.issuesAt requestId issue.type,
    env.messageDifferencerEquals entry issue = true) ∨
  -- One of the limits per issue type is reached.
  ((find self.issuePerId requestId).isSome = true ∧
    (self.issuesAt requestId issue.type).length = sizeT env.maxIssuesPerCheckPerUrl) ∨
  find self.checkIssueCounters issue.type = some env.maxIssuesPerCheck.toInt

/-- A counter at its limit refuses the issue, and any other stores it. -/
theorem registerIssue_cases (env : StoreEnv) (mem : Heap Request) (self : DataStore)
    (requestId : Int) (req : Nat) (issue : IssueDetails) :
    (find self.checkIssueCounters issue.type = some env.maxIssuesPerCheck.toInt ∧
      self.registerIssue env mem requestId req issue = (false, mem, self)) ∨
    (find self.checkIssueCounters issue.type ≠ some env.maxIssuesPerCheck.toInt ∧
      self.registerIssue env mem requestId req issue =
        (true, mem.modify req (·.addIssue issue), self.record requestId issue)) := by
  rw [registerIssue_eq]
  split
  · rename_i hlimit
    exact Or.inl ⟨hlimit, rfl⟩
  · rename_i hbelow
    exact Or.inr ⟨hbelow, rfl⟩

/-- The datastore where the set of issues of a request and a type has been created. -/
def touch (self : DataStore) (requestId : Int) (issueType : IssueDetails.IssueType) : DataStore :=
  self.setIssues requestId issueType (self.issuesAt requestId issueType)

theorem addIssueDetails_of_unknown (h : self.getRequestById requestId = none) :
    self.addIssueDetails env mem requestId issue = (false, mem, self) := by
  simp only [addIssueDetails, h]

theorem addIssueDetails_of_known (h : self.getRequestById requestId = some req) :
    self.addIssueDetails env mem requestId issue =
      if (deref mem req).issues.length = sizeT env.maxIssuesPerUrl then (false, mem, self)
      else if (find self.issuePerId requestId).isNone then
        self.registerIssue env mem requestId req issue
      else if (self.issuesAt requestId issue.type).any fun entry =>
          env.messageDifferencerEquals entry issue then (false, mem, self)
      else if (self.issuesAt requestId issue.type).length = sizeT env.maxIssuesPerCheckPerUrl then
        (false, mem, self.touch requestId issue.type)
      else (self.touch requestId issue.type).registerIssue env mem requestId req issue := by
  simp only [addIssueDetails, h]
  cases hmap : find self.issuePerId requestId with
  | none => simp
  | some issueMap =>
    have hissues : (find issueMap issue.type).getD [] = self.issuesAt requestId issue.type := by
      simp [issuesAt, DataStore.issueMap, hmap]
    have htouch : self.touch requestId issue.type =
        { self with
          issuePerId := assign self.issuePerId requestId
            (assign issueMap issue.type (self.issuesAt requestId issue.type)) } := by
      simp [touch, setIssues, DataStore.issueMap, hmap]
    simp only [hissues, htouch, Option.isNone_some, Bool.false_eq_true, if_false]

/-- What `AddIssueDetails` can do: refuse an issue without a trace among the issues
    and the counters, or attach it to its request and count it. -/
inductive IssueOutcome (env : StoreEnv) (mem : Heap Request) (self : DataStore)
    (requestId : Int) (issue : IssueDetails) : Bool × Heap Request × DataStore → Prop
  | refused (store' : DataStore)
      (hrefused : ∀ req, self.getRequestById requestId = some req →
        issueRefused env mem self requestId req issue)
      (hissues : SameIssues self store') (hrequests : SameRequests self store') :
      IssueOutcome env mem self requestId issue (false, mem, store')
  | stored (req : Nat) (store' : DataStore) (hreq : self.getRequestById requestId = some req)
      (hadmitted : ¬ issueRefused env mem self requestId req issue)
      (hissues : RecordsIssue requestId issue self store')
      (hrequests : SameRequests self store') :
      IssueOutcome env mem self requestId issue
        (true, mem.modify req (·.addIssue issue), store')

/-- Where a registration can only fail at the counter of the issue type. -/
theorem IssueOutcome.of_registerIssue {store : DataStore}
    (hreq : self.getRequestById requestId = some req) (hissues : SameIssues self store)
    (hrequests : SameRequests self store)
    (hcounter : issueRefused env mem self requestId req issue →
      find self.checkIssueCounters issue.type = some env.maxIssuesPerCheck.toInt) :
    IssueOutcome env mem self requestId issue
      (store.registerIssue env mem requestId req issue) := by
  rcases registerIssue_cases env mem store requestId req issue with
    ⟨hlimit, hregister⟩ | ⟨hbelow, hregister⟩
  · rw [hregister]
    rw [hissues.checkIssueCounters] at hlimit
    refine .refused store (fun req' hreq' => ?_) hissues hrequests
    cases hreq.symm.trans hreq'
    exact Or.inr (Or.inr (Or.inr hlimit))
  · rw [hregister]
    rw [hissues.checkIssueCounters] at hbelow
    have hrecord := record_sameRequests store requestId issue
    exact .stored req _ hreq (fun hrefused => hbelow (hcounter hrefused))
      (hissues.recordsIssue (record_recordsIssue _ _ _))
      ⟨hrecord.sitePivots.trans hrequests.sitePivots,
        hrecord.requestsById.trans hrequests.requestsById,
        hrecord.requestId.trans hrequests.requestId,
        hrecord.probeQueue.trans hrequests.probeQueue⟩

theorem addIssueDetails_outcome (env : StoreEnv) (mem : Heap Request) (self : DataStore)
    (requestId : Int) (issue : IssueDetails) : IssueOutcome env mem self requestId issue
      (self.addIssueDetails env mem requestId issue) := by
  cases hreq : self.getRequestById requestId with
  | none =>
    rw [addIssueDetails_of_unknown hreq]
    refine .refused self (fun req h => ?_) (SameIssues.refl self) ⟨rfl, rfl, rfl, rfl⟩
    rw [hreq] at h
    cases h
  | some req =>
    have hunique (hrefused : issueRefused env mem self requestId req issue) :
        ∀ req', self.getRequestById requestId = some req' →
          issueRefused env mem self requestId req' issue := by
      intro req' hreq'
      cases hreq.symm.trans hreq'
      exact hrefused
    rw [addIssueDetails_of_known hreq]
    split_ifs with htypes hmissing hdup hfull
    · exact .refused self (hunique (Or.inl htypes)) (SameIssues.refl self) ⟨rfl, rfl, rfl, rfl⟩
    · refine .of_registerIssue hreq (SameIssues.refl self) ⟨rfl, rfl, rfl, rfl⟩ ?_
      have hnone : find self.issuePerId requestId = none := by simpa using hmissing
      have hempty : self.issuesAt requestId issue.type = [] := by
        simp [issuesAt, issueMap, hnone, find]
      simp [issueRefused, htypes, hempty, hnone]
    · have hold : ∃ entry ∈ self.issuesAt requestId issue.type,
          env.messageDifferencerEquals entry issue = true := by simpa using hdup
      exact .refused self (hunique (Or.inr (Or.inl hold))) (SameIssues.refl self)
        ⟨rfl, rfl, rfl, rfl⟩
    · have hsome : (find self.issuePerId requestId).isSome = true := by
        simpa [Option.isSome_iff_ne_none] using hmissing
      exact .refused _ (hunique (Or.inr (Or.inr (Or.inl ⟨hsome, hfull⟩))))
        (setIssues_self_sameIssues self requestId issue.type) ⟨rfl, rfl, rfl, rfl⟩
    · refine .of_registerIssue hreq (setIssues_self_sameIssues self requestId issue.type)
        ⟨rfl, rfl, rfl, rfl⟩ ?_
      rintro (h | h | ⟨_, h⟩ | h)
      · exact absurd h htypes
      · exact absurd (by simpa using h) hdup
      · exact absurd h hfull
      · exact h

end

/-- The two datastores agree on all but the issues and the counts of them. -/
def SameButIssues (store store' : DataStore) : Prop :=
  ∃ issuePerId checkIssueCounters issueCountPerSeverity,
    store' = { store with issuePerId, checkIssueCounters, issueCountPerSeverity }

namespace SameButIssues

theorem refl (store : DataStore) : SameButIssues store store :=
  ⟨store.issuePerId, store.checkIssueCounters, store.issueCountPerSeverity, rfl⟩

theorem trans {store₁ store₂ store₃ : DataStore} (h₁ : SameButIssues store₁ store₂)
    (h₂ : SameButIssues store₂ store₃) : SameButIssues store₁ store₃ := by
  obtain ⟨_, _, _, rfl⟩ := h₁
  obtain ⟨issuePerId, checkIssueCounters, issueCountPerSeverity, rfl⟩ := h₂
  exact ⟨issuePerId, checkIssueCounters, issueCountPerSeverity, rfl⟩

end SameButIssues

theorem registerIssue_sameButIssues (env : StoreEnv) (mem : Heap Request) (self : DataStore)
    (requestId : Int) (req : Nat) (issue : IssueDetails) :
    SameButIssues self (self.registerIssue env mem requestId req issue).2.2 := by
  rcases registerIssue_cases env mem self requestId req issue with ⟨_, heq⟩ | ⟨_, heq⟩
  · rw [heq]
    exact .refl self
  · rw [heq]
    exact ⟨_, _, _, rfl⟩

theorem addIssueDetails_sameButIssues (env : StoreEnv) (mem : Heap Request) (self : DataStore)
    (requestId : Int) (issue : IssueDetails) :
    SameButIssues self (self.addIssueDetails env mem requestId issue).2.2 := by
  have htouch : SameButIssues self (self.touch requestId issue.type) := ⟨_, _, _, rfl⟩
  cases hreq : self.getRequestById requestId with
  | none =>
    rw [addIssueDetails_of_unknown hreq]
    exact .refl self
  | some req =>
    rw [addIssueDetails_of_known hreq]
    split_ifs
    · exact .refl self
    · exact registerIssue_sameButIssues env mem self requestId req issue
    · exact .refl self
    · exact htouch
    · exact htouch.trans (registerIssue_sameButIssues env mem _ requestId req issue)

end DataStore

end plusfish

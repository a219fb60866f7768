import Plusfish.Audit.Effects
import Plusfish.MainLoop

open memory ordered_map Relation

namespace plusfish

/-- The calls of a `HiddenObjectsFinder`: those of the scanner, and that of the HTTP client when
    it is done with a test request, with what it has fetched. -/
inductive FinderOp where
  | addUrl (url : Bytes)
  | scheduleRequests (amount : Nat)
  | requestCallback (req : Nat) (transfer : Option Transfer)

namespace Scan

/-- The HTTP client is done with a request, for which it may have fetched a response. -/
def finish (scan : Scan) (req : Nat) : Option Transfer → Scan
  | some transfer => scan.receive req transfer
  | none => { scan with outstanding := scan.outstanding.erase req }

/-- The test requests of the finder that have been scheduled and are not completed. -/
def testRequests (scan : Scan) : List Nat :=
  scan.outstanding.filter fun req =>
    (deref scan.mem req).requestHandler == some .hiddenObjectsFinder

def finderStep (env : ScanEnv) (scan : Scan) : FinderOp → Option Scan
  | .addUrl url => some { scan with objectsFinder := scan.objectsFinder.addUrl url }
  | .scheduleRequests amount => some (scan.scheduleObjectRequests env amount)
  | .requestCallback req transfer =>
    if req ∉ scan.testRequests then none
    else (scan.finish req transfer).hiddenObjectCallback env req

/-- A finder that has its lists and nothing else. -/
structure FreshFinder (scan : Scan) : Prop where
  testRequests : scan.testRequests = []
  allocated : ∀ req ∈ scan.outstanding, req < scan.mem.next
  requests : scan.objectsFinder.requests = []
  probedUrls : scan.objectsFinder.probedUrls = []
  pendingUrls : scan.objectsFinder.pendingUrls = []
  testUrlsQueue : scan.objectsFinder.testUrlsQueue = []
  calls : ∀ call ∈ scan.calls, call.caller ≠ .hiddenObjectsFinder

section
variable (env : ScanEnv)

/-- The callback takes the response for a page of the site, and not for one of those that
    stand for missing files. -/
def findsObject (scan : Scan) (req : Nat) : Bool :=
  match (deref scan.mem req).response with
  | none => false
  | some response =>
    if response.proto.code = .notFound ∨ response.proto.code = .forbidden then false
    else
      match env.parseFingerprint response.body with
      | none => false
      | some fingerprint => !scan.store.isFileNotFoundHtmlFingerprint (some fingerprint)

/-- The pointer that the callback gives to `add_request_cb_`, where it calls it. -/
def handedOver (scan : Scan) (req : Nat) : Option (Option Nat) :=
  if scan.findsObject env req then
    some (find scan.objectsFinder.requests (deref scan.mem req).url)
  else none

/-- A change of the counters of the finder. -/
def recount (scan : Scan) (completed found : Nat) : Scan :=
  { scan with
    objectsFinder := { scan.objectsFinder with
      numCompletedRequests := completed, numObjectsFound := found } }

/-- What a callback that is not stuck leaves: it erases what is stored under the URL of the
    request, and otherwise changes the counters, the requests and the datastore. -/
def CalledBack (scan : Scan) (url : Bytes) (next : Scan) : Prop :=
  ∃ mem store completed found,
    next = (({ scan with mem, store } : Scan).eraseTest url).recount completed found ∧
    StoreEffects env.store (scan.mem, scan.store) (mem, store)

end

section
variable {env : ScanEnv}

/-- Adding a request changes no URL. -/
theorem addRequest_url (env : StoreEnv) (mem : Heap Request) (store : DataStore) (added p : Nat) :
    (deref (store.addRequest env mem added).2.1 p).url = (deref mem p).url := by
  rcases DataStore.addRequest_cases env store mem added with
    ⟨_, heq⟩ | ⟨_, _, heq⟩ | ⟨_, _, heq⟩
  · rw [heq]
  · rw [heq]
  · rw [heq]
    exact deref_modify_keeps (·.url) mem added p fun _ => rfl

/-- The request that is found is added to the datastore, which may note an issue for it. -/
theorem addFoundObject_cases {scan next : Scan} {req : Nat}
    (h : scan.addFoundObject env req = some next) :
    ∃ added mem store mem' store' completed found,
      find scan.objectsFinder.requests (deref scan.mem req).url = some added ∧
      (scan.store.addRequest env.store scan.mem added).2 = (mem, store) ∧
      ((mem', store') = (mem, store) ∨ ∃ requestId issue,
        (mem', store') = (store.addIssueDetails env.store mem requestId issue).2) ∧
      next = (({ scan with mem := mem', store := store' } : Scan).eraseTest
        (deref scan.mem req).url).recount completed found := by
  unfold addFoundObject at h
  obtain ⟨added, hfound, hnext⟩ := Option.bind_eq_some_iff.mp h
  have hurl := addRequest_url env.store scan.mem scan.store added req
  generalize hadd : scan.store.addRequest env.store scan.mem added = result at hnext hurl
  obtain ⟨requestId, mem, store⟩ := result
  dsimp only at hnext hurl
  rw [hurl] at hnext
  split at hnext
  · cases hnext
    exact ⟨added, mem, store, mem, store, _, _, hfound, by rw [hadd], .inl rfl, rfl⟩
  · obtain ⟨⟨stored, mem', store'⟩, hissue, rfl⟩ := Option.map_eq_some_iff.mp hnext
    obtain ⟨q, _, hissue⟩ := Option.map_eq_some_iff.mp hissue
    exact ⟨added, mem, store, mem', store', _, _, hfound, by rw [hadd],
      .inr ⟨requestId, _, (congrArg Prod.snd hissue).symm⟩, rfl⟩

theorem addFoundObject_calledBack {scan next : Scan} {req : Nat}
    (h : scan.addFoundObject env req = some next) :
    CalledBack env scan (deref scan.mem req).url next := by
  obtain ⟨added, mem, store, mem', store', completed, found, _, hadd, hissue, rfl⟩ :=
    addFoundObject_cases h
  have hadded : StoreEffects env.store (scan.mem, scan.store) (mem, store) := by
    rw [← hadd]
    exact .single (.add scan.mem scan.store added)
  refine ⟨mem', store', completed, found, rfl, ?_⟩
  rcases hissue with heq | ⟨requestId, issue, heq⟩
  · rwa [heq]
  · rw [heq]
    exact hadded.tail (.issue mem store requestId issue)

/-- The callback erases the entry of its request, or it gives what is stored there away. -/
theorem hiddenObjectCallback_cases (env : ScanEnv) (scan : Scan) (req : Nat) :
    (scan.findsObject env req = false ∧ ∃ completed, scan.hiddenObjectCallback env req =
      some ((scan.eraseTest (deref scan.mem req).url).recount completed
        scan.objectsFinder.numObjectsFound)) ∨
    (scan.findsObject env req = true ∧ scan.hiddenObjectCallback env req =
      (scan.recount (scan.objectsFinder.numCompletedRequests + 1)
        scan.objectsFinder.numObjectsFound).addFoundObject env req) := by
  unfold findsObject hiddenObjectCallback
  dsimp only
  cases hresponse : (deref scan.mem req).response with
  | none =>
    simp only
    exact .inl ⟨trivial, scan.objectsFinder.numCompletedRequests, rfl⟩
  | some response =>
    simp only
    by_cases hcode : response.proto.code = .notFound ∨ response.proto.code = .forbidden
    · simp only [hcode, if_true]
      exact .inl ⟨trivial, scan.objectsFinder.numCompletedRequests, rfl⟩
    · simp only [hcode, if_false]
      cases hparsed : env.parseFingerprint response.body with
      | none => exact .inl ⟨rfl, scan.objectsFinder.numCompletedRequests + 1, rfl⟩
      | some fingerprint =>
        simp only
        by_cases hmissing : scan.store.isFileNotFoundHtmlFingerprint (some fingerprint) = true
        · simp only [hmissing, if_true]
          exact .inl ⟨rfl, scan.objectsFinder.numCompletedRequests + 1, rfl⟩
        · simp only [hmissing]
          exact .inr ⟨by simp, rfl⟩

theorem hiddenObjectCallback_calledBack {scan next : Scan} {req : Nat}
    (h : scan.hiddenObjectCallback env req = some next) :
    CalledBack env scan (deref scan.mem req).url next := by
  rcases hiddenObjectCallback_cases env scan req with ⟨_, completed, heq⟩ | ⟨_, heq⟩
  · rw [heq] at h
    cases h
    exact ⟨scan.mem, scan.store, _, _, rfl, .refl⟩
  · rw [heq] at h
    obtain ⟨mem, store, completed, found, rfl, heffects⟩ := addFoundObject_calledBack h
    exact ⟨mem, store, completed, found, rfl, heffects⟩

/-- A request that the datastore accepts is found there under its id. -/
theorem addRequest_getRequestById (env : StoreEnv) (mem : Heap Request) (store : DataStore)
    (req : Nat) (h : (store.addRequest env mem req).1 ≠ kInvalidId) :
    (store.addRequest env mem req).2.2.getRequestById (store.addRequest env mem req).1 =
      some req := by
  rcases DataStore.addRequest_cases env store mem req with
    ⟨_, heq⟩ | ⟨_, _, heq⟩ | ⟨_, _, heq⟩
  · rw [heq] at h
    exact absurd rfl h
  · rw [heq] at h
    exact absurd rfl h
  · rw [heq, DataStore.getRequestById]
    simp [DataStore.addRequestToIdMap, DataStore.addRequestToProbeQueue, find_assign]

theorem addFoundObject_eq_none_iff {scan : Scan} {req : Nat} :
    scan.addFoundObject env req = none ↔
      find scan.objectsFinder.requests (deref scan.mem req).url = none := by
  unfold addFoundObject
  cases hfound : find scan.objectsFinder.requests (deref scan.mem req).url with
  | none => simp
  | some found =>
    have hstored := addRequest_getRequestById env.store scan.mem scan.store found
    simp only [Option.bind_some, reduceCtorEq, iff_false]
    split
    · simp
    · rename_i hvalid
      simp [eraseTest, DataStore.addIssueById, hstored hvalid]

/-- The callback is stuck exactly where it would give a null pointer away. -/
theorem hiddenObjectCallback_eq_none_iff {scan : Scan} {req : Nat} :
    scan.hiddenObjectCallback env req = none ↔ scan.handedOver env req = some none := by
  rcases hiddenObjectCallback_cases env scan req with ⟨hnot, completed, heq⟩ | ⟨hfinds, heq⟩
  · simp [heq, handedOver, hnot]
  · rw [heq, handedOver, if_pos hfinds, addFoundObject_eq_none_iff, Option.some_inj]
    exact Iff.rfl

theorem finish_outstanding (scan : Scan) (req : Nat) (transfer : Option Transfer) :
    (scan.finish req transfer).outstanding = scan.outstanding.erase req := by
  cases transfer <;> rfl

theorem finish_frame (scan : Scan) (req : Nat) (transfer : Option Transfer) :
    Heap.Frame Request.SameTarget scan.mem (scan.finish req transfer).mem := by
  cases transfer with
  | none => exact .refl Request.SameTarget.refl scan.mem
  | some transfer =>
    apply Heap.Frame.modify Request.SameTarget.refl scan.mem req
    intro request
    constructor <;>
    · simp only [Request.withTransfer]
      split <;> split <;> rfl

theorem finish_objectsFinder (scan : Scan) (req : Nat) (transfer : Option Transfer) :
    (scan.finish req transfer).objectsFinder = scan.objectsFinder := by
  cases transfer <;> rfl

end

end Scan

end plusfish

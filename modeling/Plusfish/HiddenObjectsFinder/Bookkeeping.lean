import Plusfish.HiddenObjectsFinder.Callback
import Plusfish.MainLoop.Exit

open memory ordered_map transition Relation

namespace plusfish

namespace Scan

/-- Every test request under way is stored in `requests_` under its own URL. -/
def Bookkept (scan : Scan) : Prop :=
  ∀ req ∈ scan.testRequests, find scan.objectsFinder.requests (deref scan.mem req).url = some req

/-- What holds of the test requests whatever their URLs are. -/
structure TidyTests (scan : Scan) : Prop where
  nodup : scan.testRequests.Nodup
  allocated : ∀ req ∈ scan.outstanding, req < scan.mem.next
  kept : ∀ entry ∈ scan.objectsFinder.requests, entry.2 < scan.mem.next
  keys : (keys scan.objectsFinder.requests).Nodup

section
variable (env : ScanEnv)

/-- The test URLs whose requests are accepted, where the first of them is offered in the call of
    `Schedule` with this number. -/
def acceptedUrls : (call : Nat) → List Bytes → List Bytes
  | _, [] => []
  | call, testUrl :: testUrls =>
    if env.accepts call then testUrl :: acceptedUrls (call + 1) testUrls
    else acceptedUrls (call + 1) testUrls

/-- The test URLs that `ScheduleRequests` takes from its queue and that are accepted. -/
def acceptedTests (scan : Scan) (amount : Nat) : List Bytes :=
  acceptedUrls env scan.calls.length (scan.objectsFinder.refill.testUrlsQueue.take amount)

/-- These test URLs are spelled as their requests spell them, and no two test requests, with
    those under way, have the same URL. -/
structure SpelledApart (scan : Scan) (testUrls : List Bytes) : Prop where
  spelled : ∀ testUrl ∈ testUrls, requestUrl env testUrl = testUrl
  nodup : testUrls.Nodup
  apart : ∀ testUrl ∈ testUrls, ∀ req ∈ scan.testRequests, (deref scan.mem req).url ≠ testUrl

instance (env : ScanEnv) (scan : Scan) (testUrls : List Bytes) :
    Decidable (SpelledApart env scan testUrls) :=
  decidable_of_iff ((∀ testUrl ∈ testUrls, requestUrl env testUrl = testUrl) ∧ testUrls.Nodup ∧
    ∀ testUrl ∈ testUrls, ∀ req ∈ scan.testRequests, (deref scan.mem req).url ≠ testUrl)
    ⟨fun ⟨hspelled, hnodup, hapart⟩ => ⟨hspelled, hnodup, hapart⟩,
      fun h => ⟨h.spelled, h.nodup, h.apart⟩⟩

end

section
variable {env : ScanEnv} {scan : Scan}

/-- What keeps the requests under way, their URLs and their handlers keeps the test requests. -/
theorem testRequests_eq_of_frame (scan' : Scan)
    (hframe : Heap.Frame Request.SameTarget scan.mem scan'.mem)
    (hallocated : ∀ req ∈ scan.outstanding, req < scan.mem.next)
    (houtstanding : scan'.outstanding = scan.outstanding) :
    scan'.testRequests = scan.testRequests ∧
      ∀ req ∈ scan.testRequests, (deref scan'.mem req).url = (deref scan.mem req).url := by
  have htarget (req : Nat) (hreq : req ∈ scan.outstanding) :
      Request.SameTarget (deref scan.mem req) (deref scan'.mem req) :=
    Frame.deref hframe (hallocated req hreq)
  refine ⟨?_, fun req hreq => (htarget req (List.mem_filter.mp hreq).1).url⟩
  unfold testRequests
  rw [houtstanding]
  refine List.filter_congr fun req hreq => ?_
  rw [(htarget req hreq).requestHandler]

/-- What one round of the loop does: it makes a request and offers it, and where it is accepted
    keeps it under the test URL. -/
structure OffersTest (env : ScanEnv) (scan : Scan) (testUrl : Bytes) (next : Scan) : Prop where
  frame : Heap.Frame Request.SameTarget scan.mem next.mem
  allocated : scan.mem.next < next.mem.next
  url : (deref next.mem scan.mem.next).url = requestUrl env testUrl
  handler : (deref next.mem scan.mem.next).requestHandler = some .hiddenObjectsFinder
  calls : next.calls.length = scan.calls.length + 1
  outstanding : next.outstanding = scan.outstanding ++
    if env.accepts scan.calls.length then [scan.mem.next] else []
  requests : next.objectsFinder.requests = if env.accepts scan.calls.length then
    assign scan.objectsFinder.requests testUrl scan.mem.next else scan.objectsFinder.requests
  store : next.store = scan.store

theorem testObject_offersTest (env : ScanEnv) (scan : Scan) (testUrl : Bytes) :
    OffersTest env scan testUrl (scan.testObject env testUrl) := by
  let mem : Heap Request := (scan.mem.alloc (Request.ofUrl env.request testUrl none)).2.modify
    scan.mem.next ({ · with requestHandler := some .hiddenObjectsFinder })
  have hmem : (scan.testObject env testUrl).mem = mem := by
    unfold testObject
    dsimp only
    split <;> rfl
  have hget : mem.get? scan.mem.next = some { Request.ofUrl env.request testUrl none with
      requestHandler := some .hiddenObjectsFinder } := by
    simp [mem, Heap.get?_modify]
  have haccepted : ((scan.newRequest env testUrl).2.scheduleWith env .hiddenObjectsFinder
      scan.mem.next .hiddenObjectsFinder).1 = env.accepts scan.calls.length := rfl
  refine ⟨?_, ?_, ?_, ?_, ?_, ?_, ?_, ?_⟩
  · rw [hmem]
    exact .alloc_modify Request.SameTarget.refl scan.mem _ _
  · rw [hmem]
    exact Heap.lt_next_of_get? hget
  · rw [hmem, deref_of_get? hget]
    rfl
  · rw [hmem, deref_of_get? hget]
  · unfold testObject
    dsimp only
    split <;> simp [keepTest, scheduleWith, schedule, newRequest, setRequestHandler]
  · unfold testObject
    cases haccepts : env.accepts scan.calls.length <;>
      simp [keepTest, scheduleWith, schedule, newRequest, setRequestHandler, haccepts]
  · unfold testObject
    cases haccepts : env.accepts scan.calls.length <;>
      simp [keepTest, scheduleWith, schedule, newRequest, setRequestHandler, haccepts]
  · unfold testObject
    dsimp only
    split <;> rfl

/-- The test requests after a round. -/
theorem OffersTest.testRequests {testUrl : Bytes} {next : Scan}
    (h : OffersTest env scan testUrl next)
    (hallocated : ∀ req ∈ scan.outstanding, req < scan.mem.next) :
    next.testRequests = scan.testRequests ++
        (if env.accepts scan.calls.length then [scan.mem.next] else []) ∧
      ∀ req ∈ scan.testRequests, (deref next.mem req).url = (deref scan.mem req).url := by
  obtain ⟨hold, hurls⟩ := testRequests_eq_of_frame { next with outstanding := scan.outstanding }
    h.frame hallocated rfl
  refine ⟨?_, hurls⟩
  rw [← hold]
  unfold Scan.testRequests
  rw [h.outstanding, List.filter_append]
  congr 1
  split <;> simp [h.handler]

theorem OffersTest.tidy {testUrl : Bytes} {next : Scan} (h : OffersTest env scan testUrl next)
    (htidy : scan.TidyTests) : next.TidyTests := by
  obtain ⟨htests, _⟩ := h.testRequests htidy.allocated
  have hgrows := h.allocated
  have hold (req : Nat) (hreq : req < scan.mem.next) : req < next.mem.next := by omega
  by_cases haccepts : env.accepts scan.calls.length = true
  · have houtstanding := h.outstanding
    have hrequests := h.requests
    rw [if_pos haccepts] at htests houtstanding hrequests
    refine ⟨?_, ?_, ?_, ?_⟩
    · rw [htests]
      refine List.nodup_append.mpr ⟨htidy.nodup, List.nodup_singleton _, ?_⟩
      rintro req hreq _ hnew rfl
      have hlt := htidy.allocated req (List.mem_filter.mp hreq).1
      rw [List.mem_singleton.mp hnew] at hlt
      exact Nat.lt_irrefl _ hlt
    · rw [houtstanding]
      intro req hreq
      rcases List.mem_append.mp hreq with hreq | hnew
      · exact hold req (htidy.allocated req hreq)
      · rw [List.mem_singleton.mp hnew]
        exact hgrows
    · rw [hrequests]
      intro entry hentry
      rcases List.mem_cons.mp ((perm_assign _ _ _).mem_iff.mp hentry) with rfl | hkept
      · exact hgrows
      · exact hold _ (htidy.kept entry (mem_of_mem_erase hkept))
    · rw [hrequests]
      exact nodup_keys_assign _ _ htidy.keys
  · have houtstanding := h.outstanding
    have hrequests := h.requests
    rw [if_neg haccepts, List.append_nil] at htests houtstanding
    rw [if_neg haccepts] at hrequests
    refine ⟨htests ▸ htidy.nodup, ?_, ?_, hrequests ▸ htidy.keys⟩
    · rw [houtstanding]
      exact fun req hreq => hold req (htidy.allocated req hreq)
    · rw [hrequests]
      exact fun entry hentry => hold _ (htidy.kept entry hentry)

/-- A round keeps the books exactly if its test request is refused, or has the URL under which
    it is kept, and no test request under way has it. -/
theorem OffersTest.bookkept_iff {testUrl : Bytes} {next : Scan}
    (h : OffersTest env scan testUrl next) (htidy : scan.TidyTests) :
    next.Bookkept ↔ scan.Bookkept ∧ (env.accepts scan.calls.length = true →
      requestUrl env testUrl = testUrl ∧
        ∀ req ∈ scan.testRequests, (deref scan.mem req).url ≠ testUrl) := by
  obtain ⟨htests, hurls⟩ := h.testRequests htidy.allocated
  have hrequests := h.requests
  unfold Bookkept
  by_cases haccepts : env.accepts scan.calls.length = true
  · rw [if_pos haccepts] at htests hrequests
    have hnew (url : Bytes) : find scan.objectsFinder.requests url ≠ some scan.mem.next := by
      intro hfind
      exact Nat.lt_irrefl _ (htidy.kept _ (mem_of_find hfind))
    have hown : find next.objectsFinder.requests (requestUrl env testUrl) = some scan.mem.next ↔
        requestUrl env testUrl = testUrl := by
      rw [hrequests, find_assign]
      by_cases heq : testUrl = requestUrl env testUrl
      · simp [heq.symm]
      · simp [heq, Ne.symm heq, hnew]
    have hother (req : Nat) (hreq : req ∈ scan.testRequests) :
        find next.objectsFinder.requests (deref next.mem req).url = some req ↔
          find scan.objectsFinder.requests (deref scan.mem req).url = some req ∧
            (deref scan.mem req).url ≠ testUrl := by
      have hlt := htidy.allocated req (List.mem_filter.mp hreq).1
      rw [hurls req hreq, hrequests, find_assign]
      by_cases heq : testUrl = (deref scan.mem req).url
      · simp only [heq, if_true, Option.some.injEq, ne_eq, not_true_eq_false, and_false, iff_false]
        omega
      · simp [heq, Ne.symm heq]
    simp only [htests, List.mem_append, List.mem_singleton, or_imp, forall_and, forall_eq, h.url,
      hown, haccepts, true_imp_iff]
    constructor
    · rintro ⟨hold, hspelled⟩
      exact ⟨fun req hreq => ((hother req hreq).mp (hold req hreq)).1, hspelled,
        fun req hreq => ((hother req hreq).mp (hold req hreq)).2⟩
    · rintro ⟨hold, hspelled, hapart⟩
      exact ⟨fun req hreq => (hother req hreq).mpr ⟨hold req hreq, hapart req hreq⟩, hspelled⟩
  · rw [if_neg haccepts, List.append_nil] at htests
    rw [if_neg haccepts] at hrequests
    rw [htests, hrequests]
    constructor
    · refine fun hbooks => ⟨fun req hreq => ?_, fun hnone => absurd hnone haccepts⟩
      rw [← hurls req hreq]
      exact hbooks req hreq
    · rintro ⟨hbooks, _⟩ req hreq
      rw [hurls req hreq]
      exact hbooks req hreq

/-- The rounds after one, seen from before it. -/
theorem OffersTest.spelledApart_iff {testUrl : Bytes} {next : Scan}
    (h : OffersTest env scan testUrl next) (htidy : scan.TidyTests) (testUrls : List Bytes) :
    SpelledApart env scan (acceptedUrls env scan.calls.length (testUrl :: testUrls)) ↔
      (env.accepts scan.calls.length = true → requestUrl env testUrl = testUrl ∧
        ∀ req ∈ scan.testRequests, (deref scan.mem req).url ≠ testUrl) ∧
      SpelledApart env next (acceptedUrls env next.calls.length testUrls) := by
  obtain ⟨htests, hurls⟩ := h.testRequests htidy.allocated
  rw [acceptedUrls, h.calls]
  generalize acceptedUrls env (scan.calls.length + 1) testUrls = later
  by_cases haccepts : env.accepts scan.calls.length = true
  · rw [if_pos haccepts] at htests
    rw [if_pos haccepts]
    constructor
    · rintro ⟨hspelled, hnodup, hapart⟩
      obtain ⟨hfirst, hspelled⟩ := List.forall_mem_cons.mp hspelled
      obtain ⟨hfirstApart, hapart⟩ := List.forall_mem_cons.mp hapart
      obtain ⟨hnew, hnodup⟩ := List.nodup_cons.mp hnodup
      refine ⟨fun _ => ⟨hfirst, hfirstApart⟩, hspelled, hnodup, fun later hlater req hreq => ?_⟩
      rw [htests] at hreq
      rcases List.mem_append.mp hreq with hold | hadded
      · rw [hurls req hold]
        exact hapart later hlater req hold
      · rw [List.mem_singleton.mp hadded, h.url, hfirst]
        rintro rfl
        exact hnew hlater
    · rintro ⟨hfirst, hspelled, hnodup, hapart⟩
      obtain ⟨hfirst, hfirstApart⟩ := hfirst haccepts
      rw [htests] at hapart
      refine ⟨List.forall_mem_cons.mpr ⟨hfirst, hspelled⟩,
        List.nodup_cons.mpr ⟨fun hmem => ?_, hnodup⟩,
        List.forall_mem_cons.mpr ⟨hfirstApart, fun later hlater req hold => ?_⟩⟩
      · have hne := hapart testUrl hmem scan.mem.next (by simp)
        rw [h.url, hfirst] at hne
        exact hne rfl
      · rw [← hurls req hold]
        exact hapart later hlater req (List.mem_append_left _ hold)
  · rw [if_neg haccepts, List.append_nil] at htests
    rw [if_neg haccepts]
    constructor
    · rintro ⟨hspelled, hnodup, hapart⟩
      refine ⟨fun hnone => absurd hnone haccepts, hspelled, hnodup, fun later hlater req hreq => ?_⟩
      rw [htests] at hreq
      rw [hurls req hreq]
      exact hapart later hlater req hreq
    · rintro ⟨_, hspelled, hnodup, hapart⟩
      refine ⟨hspelled, hnodup, fun later hlater req hreq => ?_⟩
      rw [← hurls req hreq]
      exact hapart later hlater req (htests ▸ hreq)

/-- The loop keeps the books exactly if its accepted test URLs are spelled as their requests
    spell them, and apart. -/
theorem scheduleTests_bookkept_iff (env : ScanEnv) (amount : Nat) {scan : Scan}
    (htidy : scan.TidyTests) :
    (scan.scheduleTests env amount).TidyTests ∧
      ((scan.scheduleTests env amount).Bookkept ↔ scan.Bookkept ∧ SpelledApart env scan
        (acceptedUrls env scan.calls.length (scan.objectsFinder.testUrlsQueue.take amount))) := by
  have hnone : SpelledApart env scan [] :=
    ⟨fun _ h => (List.not_mem_nil h).elim, List.nodup_nil, fun _ h => (List.not_mem_nil h).elim⟩
  induction amount generalizing scan with
  | zero => exact ⟨htidy, (and_iff_left hnone).symm⟩
  | succ amount ih =>
    rw [scheduleTests]
    split
    · rename_i hempty
      rw [hempty, List.take_nil]
      exact ⟨htidy, (and_iff_left hnone).symm⟩
    · rename_i testUrl rest hqueue
      have hpopped : scan.popTestUrl.TidyTests :=
        ⟨htidy.nodup, htidy.allocated, htidy.kept, htidy.keys⟩
      have hoffers := testObject_offersTest env scan.popTestUrl testUrl
      have hrest : (scan.popTestUrl.testObject env testUrl).objectsFinder.testUrlsQueue = rest := by
        rw [(testObject_queues env scan.popTestUrl testUrl).1]
        simp [popTestUrl, hqueue]
      have hnext := hoffers.tidy hpopped
      obtain ⟨hlast, hiff⟩ := ih hnext ⟨fun _ h => (List.not_mem_nil h).elim, List.nodup_nil,
        fun _ h => (List.not_mem_nil h).elim⟩
      have hsame (testUrls : List Bytes) :
          SpelledApart env scan.popTestUrl testUrls ↔ SpelledApart env scan testUrls :=
        ⟨fun h => ⟨h.spelled, h.nodup, h.apart⟩, fun h => ⟨h.spelled, h.nodup, h.apart⟩⟩
      refine ⟨hlast, ?_⟩
      rw [hiff, hrest, hoffers.bookkept_iff hpopped, and_assoc,
        ← hoffers.spelledApart_iff hpopped, hqueue, hsame]
      exact Iff.rfl

/-- `ScheduleRequests` keeps the books exactly if what it gets accepted is spelled apart. -/
theorem scheduleObjectRequests_bookkept_iff (env : ScanEnv) (amount : Nat) {scan : Scan}
    (htidy : scan.TidyTests) :
    (scan.scheduleObjectRequests env amount).TidyTests ∧
      ((scan.scheduleObjectRequests env amount).Bookkept ↔
        scan.Bookkept ∧ SpelledApart env scan (scan.acceptedTests env amount)) := by
  have hrequests := refill_requests scan.objectsFinder
  let refilled : Scan := { scan with objectsFinder := scan.objectsFinder.refill }
  have hrefilled : refilled.TidyTests :=
    ⟨htidy.nodup, htidy.allocated, hrequests ▸ htidy.kept, hrequests ▸ htidy.keys⟩
  have hbooks : refilled.Bookkept ↔ scan.Bookkept := by
    unfold Bookkept
    rw [hrequests]
    exact Iff.rfl
  have hsame (testUrls : List Bytes) :
      SpelledApart env refilled testUrls ↔ SpelledApart env scan testUrls :=
    ⟨fun h => ⟨h.spelled, h.nodup, h.apart⟩, fun h => ⟨h.spelled, h.nodup, h.apart⟩⟩
  obtain ⟨hlast, hiff⟩ := scheduleTests_bookkept_iff env amount hrefilled
  rw [hbooks, hsame] at hiff
  exact ⟨hlast, hiff⟩

/-! The callback. -/

/-- What is left of the test requests when the callback of one of them is done. -/
structure TestDone (scan : Scan) (req : Nat) (next : Scan) : Prop where
  testRequests : next.testRequests = scan.testRequests.erase req
  url : ∀ other ∈ scan.testRequests, (deref next.mem other).url = (deref scan.mem other).url
  requests : next.objectsFinder.requests =
    ordered_map.erase scan.objectsFinder.requests (deref scan.mem req).url
  allocated : scan.mem.next ≤ next.mem.next
  tidy : next.TidyTests

theorem hiddenObjectCallback_testDone (htidy : scan.TidyTests) {req : Nat} {next : Scan}
    {transfer : Option Transfer}
    (h : (scan.finish req transfer).hiddenObjectCallback env req = some next)
    (hreq : req ∈ scan.testRequests) : TestDone scan req next := by
  have hlt := htidy.allocated req (List.mem_filter.mp hreq).1
  have hurl := (Frame.deref (finish_frame scan req transfer) hlt).url
  have hfinder := finish_objectsFinder scan req transfer
  have houtstanding := finish_outstanding scan req transfer
  obtain ⟨mem, store, completed, found, rfl, heffects⟩ := hiddenObjectCallback_calledBack h
  have hframe := (finish_frame scan req transfer).trans Request.SameTarget.trans heffects.frame
  obtain ⟨htests, hurls⟩ := testRequests_eq_of_frame { scan with mem } hframe htidy.allocated rfl
  have hrequests : ordered_map.erase (scan.finish req transfer).objectsFinder.requests
      (deref (scan.finish req transfer).mem req).url =
      ordered_map.erase scan.objectsFinder.requests (deref scan.mem req).url := by
    rw [hfinder, hurl]
  have hdone : ((({ scan.finish req transfer with mem, store } : Scan).eraseTest
      (deref (scan.finish req transfer).mem req).url).recount completed found).testRequests =
      scan.testRequests.erase req := by
    rw [← htests]
    unfold Scan.testRequests
    rw [List.erase_filter]
    show ((scan.finish req transfer).outstanding.filter _) = _
    rw [houtstanding]
    rfl
  refine ⟨hdone, hurls, hrequests, hframe.next_le, ?_, ?_, ?_, ?_⟩
  · rw [hdone]
    exact htidy.nodup.erase req
  · intro other hother
    have hmem : other ∈ scan.outstanding.erase req := houtstanding ▸ hother
    exact Nat.lt_of_lt_of_le (htidy.allocated other (List.mem_of_mem_erase hmem)) hframe.next_le
  · intro entry hentry
    have hmem : entry ∈ ordered_map.erase scan.objectsFinder.requests (deref scan.mem req).url :=
      hrequests ▸ hentry
    exact Nat.lt_of_lt_of_le (htidy.kept entry (mem_of_mem_erase hmem)) hframe.next_le
  · show (keys (ordered_map.erase _ _)).Nodup
    rw [hrequests]
    exact nodup_keys_erase _ htidy.keys

/-- The entry of a test request is there when its callback comes. -/
theorem Bookkept.find_finish (hbooks : scan.Bookkept) (htidy : scan.TidyTests) {req : Nat}
    (hreq : req ∈ scan.testRequests) (transfer : Option Transfer) :
    find (scan.finish req transfer).objectsFinder.requests
      (deref (scan.finish req transfer).mem req).url = some req := by
  have hlt := htidy.allocated req (List.mem_filter.mp hreq).1
  rw [finish_objectsFinder, (Frame.deref (finish_frame scan req transfer) hlt).url]
  exact hbooks req hreq

/-- When a test request completes, `add_request_cb_` is given that request, and its entry alone is
    removed. -/
theorem Bookkept.completes (env : ScanEnv) (hbooks : scan.Bookkept) (htidy : scan.TidyTests)
    {req : Nat} (hreq : req ∈ scan.testRequests) (transfer : Option Transfer) : ∃ next,
    scan.finderStep env (.requestCallback req transfer) = some next ∧
    (∀ handed, (scan.finish req transfer).handedOver env req = some handed → handed = some req) ∧
    ∀ url, find next.objectsFinder.requests url =
      if (deref scan.mem req).url = url then none else find scan.objectsFinder.requests url := by
  have hhanded : ∀ handed, (scan.finish req transfer).handedOver env req = some handed →
      handed = some req := by
    intro handed h
    unfold handedOver at h
    split at h
    · rw [← Option.some.inj h, hbooks.find_finish htidy hreq]
    · cases h
  cases hcallback : (scan.finish req transfer).hiddenObjectCallback env req with
  | none =>
    cases hhanded none (hiddenObjectCallback_eq_none_iff.mp hcallback)
  | some next =>
    have hdone := hiddenObjectCallback_testDone htidy hcallback hreq
    refine ⟨next, by simpa [finderStep, hreq] using hcallback, hhanded, fun url => ?_⟩
    rw [hdone.requests, find_erase _ _ htidy.keys]

/-- A callback keeps the books. -/
theorem TestDone.bookkept {req : Nat} {next : Scan} (h : TestDone scan req next)
    (htidy : scan.TidyTests) (hbooks : scan.Bookkept) (hreq : req ∈ scan.testRequests) :
    next.Bookkept := by
  intro other hother
  rw [h.testRequests] at hother
  obtain ⟨hne, hother⟩ := htidy.nodup.mem_erase_iff.mp hother
  have hurls : (deref scan.mem req).url ≠ (deref scan.mem other).url := by
    intro heq
    have hsame := hbooks req hreq
    rw [heq, hbooks other hother] at hsame
    exact hne (Option.some.inj hsame)
  rw [h.url other hother, h.requests, find_erase _ _ htidy.keys, if_neg hurls]
  exact hbooks other hother

/-- The test requests that a call of `ScheduleRequests` adds are spelled apart. -/
def SchedulesApart (env : ScanEnv) (scan : Scan) : FinderOp → Prop
  | .scheduleRequests amount => SpelledApart env scan (scan.acceptedTests env amount)
  | _ => True

/-- One call: the books are kept exactly if it schedules apart. -/
theorem finderStep_bookkept {op : FinderOp} {next : Scan} (htidy : scan.TidyTests)
    (hbooks : scan.Bookkept) (hstep : scan.finderStep env op = some next) :
    next.Bookkept ↔ scan.SchedulesApart env op := by
  cases op with
  | addUrl url =>
    cases hstep
    exact iff_of_true hbooks trivial
  | scheduleRequests amount =>
    cases hstep
    rw [(scheduleObjectRequests_bookkept_iff env amount htidy).2, and_iff_right hbooks]
    exact Iff.rfl
  | requestCallback req transfer =>
    simp only [finderStep] at hstep
    split at hstep
    · cases hstep
    · rename_i hreq
      have hdone := hiddenObjectCallback_testDone htidy hstep (not_not.mp hreq)
      exact iff_of_true (hdone.bookkept htidy hbooks (not_not.mp hreq)) trivial

theorem finderStep_tidy {op : FinderOp} {next : Scan} (htidy : scan.TidyTests)
    (hstep : scan.finderStep env op = some next) : next.TidyTests := by
  cases op with
  | addUrl url =>
    cases hstep
    exact ⟨htidy.nodup, htidy.allocated, htidy.kept, htidy.keys⟩
  | scheduleRequests amount =>
    cases hstep
    exact (scheduleObjectRequests_bookkept_iff env amount htidy).1
  | requestCallback req transfer =>
    simp only [finderStep] at hstep
    split at hstep
    · cases hstep
    · rename_i hreq
      exact (hiddenObjectCallback_testDone htidy hstep (not_not.mp hreq)).tidy

theorem FreshFinder.tidy (h : scan.FreshFinder) : scan.TidyTests where
  nodup := h.testRequests ▸ List.nodup_nil
  allocated := h.allocated
  kept := by simp [h.requests]
  keys := by simp [h.requests, keys]

end

/-- A scan of a site all of whose pages are HTML pages, with a finder that has one word. -/
def pagesEnv : ScanEnv := { MainLoop.siteEnv with parseFingerprint := fun _ => some {} }

end Scan

end plusfish

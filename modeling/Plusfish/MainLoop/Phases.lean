import Plusfish.Audit.Effects
import Plusfish.MainLoop

open memory Relation

namespace plusfish

/-- Who made a call, and for which URL. -/
def ScheduleCall.target (call : ScheduleCall) : ScheduleCaller × Bytes := (call.caller, call.url)

namespace Scan

/-- The history after some code is the history before it, continued with calls that have
    these targets. -/
def Calls (targets : List (ScheduleCaller × Bytes)) (scan scan' : Scan) : Prop :=
  ∃ calls, scan'.calls = scan.calls ++ calls ∧ calls.map (·.target) = targets

theorem Calls.refl (scan : Scan) : Calls [] scan scan := ⟨[], (List.append_nil _).symm, rfl⟩

theorem Calls.trans {first second : List (ScheduleCaller × Bytes)} {a b c : Scan}
    (hab : Calls first a b) (hbc : Calls second b c) : Calls (first ++ second) a c := by
  obtain ⟨calls, hcalls, rfl⟩ := hab
  obtain ⟨calls', hcalls', rfl⟩ := hbc
  exact ⟨calls ++ calls', by rw [hcalls', hcalls, List.append_assoc], List.map_append⟩

section
variable (env : ScanEnv)

/-- The URL of the request for some text. -/
def requestUrl (text : Bytes) : Bytes := (Request.ofUrl env.request text none).url

theorem setRequestHandler_url (scan : Scan) (req : Nat) (handler : RequestHandler) (q : Nat) :
    (deref (scan.setRequestHandler req handler).mem q).url = (deref scan.mem q).url := by
  simp only [setRequestHandler, deref, Heap.get?_modify]
  split
  · cases scan.mem.get? q <;> rfl
  · rfl

theorem scheduleWith_calls (scan : Scan) (caller : ScheduleCaller) (req : Nat)
    (handler : RequestHandler) :
    Calls [(caller, (deref scan.mem req).url)] scan (scan.scheduleWith env caller req handler).2 :=
  ⟨[_], rfl, by simp [ScheduleCall.target, setRequestHandler_url]⟩

theorem newRequest_schedulings (caller : ScheduleCaller → Prop) (scan : Scan) (url : Bytes) :
    Schedulings env caller scan (scan.newRequest env url).2 :=
  .single (.alloc scan [_])

/-- A new request is handed to the HTTP client. -/
theorem newRequest_scheduleWith_calls (scan : Scan) (caller : ScheduleCaller) (url : Bytes)
    (handler : RequestHandler) : Calls [(caller, requestUrl env url)] scan
      ((scan.newRequest env url).2.scheduleWith env caller
        (scan.newRequest env url).1 handler).2 := by
  have hcalls := scheduleWith_calls env (scan.newRequest env url).2 caller
    (scan.newRequest env url).1 handler
  have hurl : (deref (scan.newRequest env url).2.mem (scan.newRequest env url).1).url =
      requestUrl env url := by
    simp [newRequest, deref, requestUrl]
  rw [hurl] at hcalls
  exact hcalls

/-! The detector. -/

theorem probe_schedulings (baseUrl : Bytes) (number : ProbeNumber) (scan : Scan) (ext : Bytes) :
    Schedulings env (· = .notFoundDetector) scan (probe env baseUrl number scan ext) := by
  have hscheduled := (newRequest_schedulings env (· = .notFoundDetector) scan
    (NotFoundDetector.targetUrl baseUrl number ext)).tail
      (.schedule _ .notFoundDetector (by rfl) scan.mem.next .notFoundDetector)
  unfold probe
  dsimp only
  split
  · exact hscheduled.tail (.detector _ (by rfl) _)
  · exact hscheduled

theorem probe_calls (baseUrl : Bytes) (number : ProbeNumber) (scan : Scan) (ext : Bytes) :
    Calls [(.notFoundDetector, requestUrl env (NotFoundDetector.targetUrl baseUrl number ext))]
      scan (probe env baseUrl number scan ext) := by
  have hcalls := newRequest_scheduleWith_calls env scan .notFoundDetector
    (NotFoundDetector.targetUrl baseUrl number ext) .notFoundDetector
  unfold probe
  dsimp only
  split <;> exact hcalls

/-- The URLs that the detector requests for a URL. -/
def probeTargets (scan : Scan) (url : Bytes) (number : ProbeNumber) : List Bytes :=
  if scan.notFoundDetector.probedUrls.contains (util.stripUrlFileSuffix url) then []
  else NotFoundDetector.kExtensionsToProbe.map fun ext =>
    requestUrl env (NotFoundDetector.targetUrl (util.stripUrlFileSuffix url) number ext)

theorem addProbeUrl_fst (scan : Scan) (url : Bytes) (number : ProbeNumber) :
    (scan.addProbeUrl env url number).1 =
      !scan.notFoundDetector.probedUrls.contains (util.stripUrlFileSuffix url) := by
  unfold addProbeUrl
  dsimp only
  split <;> simp_all

theorem foldl_probe (baseUrl : Bytes) (number : ProbeNumber) (exts : List Bytes) (scan : Scan) :
    Schedulings env (· = .notFoundDetector) scan (exts.foldl (probe env baseUrl number) scan) ∧
      Calls (exts.map fun ext => (.notFoundDetector,
        requestUrl env (NotFoundDetector.targetUrl baseUrl number ext))) scan
        (exts.foldl (probe env baseUrl number) scan) := by
  induction exts generalizing scan with
  | nil => exact ⟨.refl, .refl scan⟩
  | cons ext exts ih =>
    obtain ⟨hschedulings, hcalls⟩ := ih (probe env baseUrl number scan ext)
    exact ⟨(probe_schedulings env baseUrl number scan ext).trans hschedulings,
      (probe_calls env baseUrl number scan ext).trans hcalls⟩

theorem addProbeUrl_schedulings (scan : Scan) (url : Bytes) (number : ProbeNumber) :
    Schedulings env (· = .notFoundDetector) scan (scan.addProbeUrl env url number).2 := by
  unfold addProbeUrl
  dsimp only
  split
  · exact .refl
  · exact (foldl_probe env _ number _ scan).1

theorem addProbeUrl_calls (scan : Scan) (url : Bytes) (number : ProbeNumber) :
    Calls ((scan.probeTargets env url number).map (.notFoundDetector, ·)) scan
      (scan.addProbeUrl env url number).2 := by
  unfold addProbeUrl probeTargets
  dsimp only
  split
  · exact .refl scan
  · rw [List.map_map]
    exact (foldl_probe env _ number _ scan).2

/-! The hidden objects finder. -/

theorem refill_requests (finder : HiddenObjectsFinder) :
    finder.refill.requests = finder.requests := by
  unfold HiddenObjectsFinder.refill
  split <;> rfl

theorem testObject_schedulings (scan : Scan) (testUrl : Bytes) :
    Schedulings env (· = .hiddenObjectsFinder) scan (scan.testObject env testUrl) := by
  have hscheduled := (newRequest_schedulings env (· = .hiddenObjectsFinder) scan testUrl).tail
    (.schedule _ .hiddenObjectsFinder (by rfl) scan.mem.next .hiddenObjectsFinder)
  unfold testObject
  dsimp only
  split
  · exact hscheduled.tail (.finder _ (by rfl) _)
  · exact hscheduled

theorem testObject_calls (scan : Scan) (testUrl : Bytes) :
    Calls [(.hiddenObjectsFinder, requestUrl env testUrl)] scan (scan.testObject env testUrl) := by
  have hcalls := newRequest_scheduleWith_calls env scan .hiddenObjectsFinder testUrl
    .hiddenObjectsFinder
  unfold testObject
  dsimp only
  split <;> exact hcalls

/-- A test request changes neither of the queues of the finder. -/
theorem testObject_queues (scan : Scan) (testUrl : Bytes) :
    (scan.testObject env testUrl).objectsFinder.testUrlsQueue = scan.objectsFinder.testUrlsQueue ∧
      (scan.testObject env testUrl).objectsFinder.pendingUrls = scan.objectsFinder.pendingUrls := by
  unfold testObject
  dsimp only
  split <;> exact ⟨rfl, rfl⟩

theorem scheduleTests_spec (amount : Nat) (scan : Scan) :
    Schedulings env (· = .hiddenObjectsFinder) scan (scan.scheduleTests env amount) ∧
      Calls ((scan.objectsFinder.testUrlsQueue.take amount).map fun testUrl =>
        (.hiddenObjectsFinder, requestUrl env testUrl)) scan (scan.scheduleTests env amount) ∧
      (scan.scheduleTests env amount).objectsFinder.testUrlsQueue =
        scan.objectsFinder.testUrlsQueue.drop amount ∧
      (scan.scheduleTests env amount).objectsFinder.pendingUrls =
        scan.objectsFinder.pendingUrls := by
  induction amount generalizing scan with
  | zero => exact ⟨.refl, .refl scan, rfl, rfl⟩
  | succ amount ih =>
    rw [scheduleTests]
    split
    · rename_i hempty
      refine ⟨.refl, ?_, ?_, rfl⟩
      · rw [hempty]
        exact .refl scan
      · simp [hempty]
    · rename_i testUrl rest hqueue
      obtain ⟨hschedulings, hcalls, htests, hpending⟩ := ih (scan.popTestUrl.testObject env testUrl)
      obtain ⟨htests', hpending'⟩ := testObject_queues env scan.popTestUrl testUrl
      have hrest : scan.popTestUrl.objectsFinder.testUrlsQueue = rest := by
        simp [popTestUrl, hqueue]
      rw [htests', hrest] at hcalls htests
      have hpop : Schedulings env (· = .hiddenObjectsFinder) scan scan.popTestUrl :=
        .single (.finder scan (by rfl) _)
      rw [hqueue]
      refine ⟨hpop.trans ((testObject_schedulings env _ testUrl).trans hschedulings), ?_, htests,
        hpending.trans hpending'⟩
      exact (testObject_calls env scan.popTestUrl testUrl).trans hcalls

/-! The crawler. -/

theorem crawl_schedulings (scan : Scan) (req : Nat) :
    Schedulings env (· = .crawler) scan (Crawler.crawl env scan req).2 :=
  .single (.schedule scan .crawler (by rfl) req .crawler)

theorem crawl_calls (scan : Scan) (req : Nat) :
    Calls [(.crawler, (deref scan.mem req).url)] scan (Crawler.crawl env scan req).2 :=
  scheduleWith_calls env scan .crawler req .crawler

end

end Scan

end plusfish

import Plusfish.DataStore.Exclusion
import Plusfish.HiddenObjectsFinder.Callback
import Plusfish.MainLoop.Exit

open memory transition

namespace plusfish

theorem StoreEffect.filtered {env : StoreEnv} {before after : Heap Request × DataStore}
    (h : StoreEffect env before after) (hfiltered : DataStore.Filtered env before.1 before.2) :
    DataStore.Filtered env after.1 after.2 ∧
      after.2.urlBlacklistRegexes = before.2.urlBlacklistRegexes := by
  cases h with
  | alloc mem store request =>
    exact ⟨hfiltered.of_frame (.alloc Request.SameUrl.refl mem request) rfl rfl, rfl⟩
  | add mem store req =>
    exact ⟨hfiltered.addRequest req, DataStore.addRequest_urlBlacklistRegexes env mem store req⟩
  | issue mem store requestId issue =>
    exact ⟨hfiltered.addIssueDetails requestId issue,
      DataStore.addIssueDetails_urlBlacklistRegexes env mem store requestId issue⟩
  | modify mem store req f htarget =>
    exact ⟨hfiltered.of_frame (.modify Request.SameUrl.refl mem req fun request =>
      (htarget request).url) rfl rfl, rfl⟩
  | keep mem store store' hindex hexclude =>
    exact ⟨hfiltered.of_frame (.refl Request.SameUrl.refl mem) hindex hexclude, hexclude⟩

namespace Scan

/-- The id index of the datastore is filtered. -/
def Filtered (env : ScanEnv) (scan : Scan) : Prop :=
  DataStore.Filtered env.store scan.mem scan.store

/-- The detector, the finder and the crawler have not handed an excluded URL to the HTTP
    client. -/
def NoneExcluded (env : ScanEnv) (scan : Scan) : Prop :=
  ∀ call ∈ scan.calls, ¬ isRunner call.caller → scan.store.excludes env.store call.url = false

section
variable {env : ScanEnv} {caller : ScheduleCaller → Prop} {scan scan' : Scan}

theorem SameAudits.filtered (h : SameAudits env scan scan') (hfiltered : scan.Filtered env) :
    scan'.Filtered env ∧
      scan'.store.urlBlacklistRegexes = scan.store.urlBlacklistRegexes := by
  obtain ⟨mem, store, rfl, heffects⟩ := h
  suffices hall : ∀ after, StoreEffects env.store (scan.mem, scan.store) after →
      DataStore.Filtered env.store after.1 after.2 ∧
        after.2.urlBlacklistRegexes = scan.store.urlBlacklistRegexes from hall _ heffects
  intro after heffects
  induction heffects with
  | refl => exact ⟨hfiltered, rfl⟩
  | tail _ hstep ih =>
    obtain ⟨hfiltered', hexclude⟩ := hstep.filtered ih.1
    exact ⟨hfiltered', hexclude.trans ih.2⟩

theorem Scheduling.filtered (h : Scheduling env caller scan scan')
    (hfiltered : scan.Filtered env) : scan'.Filtered env := by
  cases h with
  | alloc requests =>
    refine hfiltered.of_frame (fun req request hget => ?_) rfl rfl
    exact ⟨request, (Heap.get?_allocAll_of_lt requests (Heap.lt_next_of_get? hget)).trans hget, rfl⟩
  | schedule c hc req handler =>
    exact hfiltered.of_frame (.modify Request.SameUrl.refl scan.mem req fun _ => rfl) rfl rfl
  | _ => exact hfiltered

/-- Whatever a component does, the index stays filtered, and the blacklist is what it was. -/
theorem Effects.filtered (h : Effects env caller scan scan') (hfiltered : scan.Filtered env) :
    scan'.Filtered env ∧
      scan'.store.urlBlacklistRegexes = scan.store.urlBlacklistRegexes := by
  induction h with
  | refl => exact ⟨hfiltered, rfl⟩
  | tail _ hstep ih =>
    cases hstep with
    | same hsame =>
      obtain ⟨hfiltered', hexclude⟩ := hsame.filtered ih.1
      exact ⟨hfiltered', hexclude.trans ih.2⟩
    | scheduling hscheduling =>
      have hstore := Schedulings.store (.single hscheduling)
      exact ⟨hscheduling.filtered ih.1, by rw [hstore, ih.2]⟩

/-- Whatever a component calls, it is one of its callers that calls it. -/
theorem Effects.targets (h : Effects env caller scan scan') :
    ∃ targets, Calls targets scan scan' ∧ ∀ target ∈ targets, caller target.1 := by
  obtain ⟨made, hhands, hcaller⟩ := h.hands
  refine ⟨made.map (·.target), ⟨made, hhands.calls, rfl⟩, fun target hmem => ?_⟩
  obtain ⟨call, hcall, rfl⟩ := List.mem_map.mp hmem
  exact hcaller call hcall

/-- Only the new calls need to be looked at. -/
theorem Calls.noneExcluded_iff {targets : List (ScheduleCaller × Bytes)}
    (h : Calls targets scan scan')
    (hexclude : scan'.store.urlBlacklistRegexes = scan.store.urlBlacklistRegexes) :
    scan'.NoneExcluded env ↔ scan.NoneExcluded env ∧
      ∀ target ∈ targets, ¬ isRunner target.1 →
        scan.store.excludes env.store target.2 = false := by
  obtain ⟨made, hcalls, rfl⟩ := h
  simp only [NoneExcluded, DataStore.excludes, hcalls, hexclude, List.mem_append, or_imp,
    forall_and, List.forall_mem_map, ScheduleCall.target]

theorem receive_frame (scan : Scan) (req : Nat) (transfer : Transfer) :
    Heap.Frame Request.SameUrl scan.mem (scan.receive req transfer).mem := by
  apply Heap.Frame.modify Request.SameUrl.refl scan.mem req
  intro request
  simp only [Request.SameUrl, Request.withTransfer]
  split <;> split <;> rfl

theorem notFoundCallback_effects (env : ScanEnv) (scan : Scan) (req : Nat) :
    Effects env (· = .notFoundDetector) scan (scan.notFoundCallback env req) ∧
      (scan.notFoundCallback env req).calls = scan.calls := by
  unfold notFoundCallback
  dsimp only
  split
  · exact ⟨.single (.scheduling (.detector scan (by rfl) _)), rfl⟩
  · rename_i response _
    cases env.parseFingerprint response.body with
    | none => exact ⟨.single (.scheduling (.detector scan (by rfl) _)), rfl⟩
    | some fingerprint =>
      have hkeep : StoreEffect env.store (scan.mem, scan.store)
          (scan.mem, scan.store.addFileNotFoundHtmlFingerprint fingerprint) := by
        apply StoreEffect.keep <;> rfl
      have hstored : Effects env (· = .notFoundDetector) scan
          { scan with store := scan.store.addFileNotFoundHtmlFingerprint fingerprint } :=
        .single (.same ⟨scan.mem, _, rfl, .single hkeep⟩)
      exact ⟨hstored.tail (.scheduling (.detector _ (by rfl) _)), rfl⟩

theorem hiddenObjectCallback_effects {scan next : Scan} {req : Nat}
    (h : scan.hiddenObjectCallback env req = some next) :
    Effects env (· = .hiddenObjectsFinder) scan next ∧ next.calls = scan.calls := by
  obtain ⟨mem, store, completed, found, rfl, heffects⟩ := hiddenObjectCallback_calledBack h
  have hstored : Effects env (· = .hiddenObjectsFinder) scan { scan with mem, store } :=
    .single (.same ⟨mem, store, rfl, heffects⟩)
  exact ⟨hstored.tail (.scheduling (.finder _ (by rfl) _)), rfl⟩

/-- What a callback does is an effect, and only runners call `Schedule` in it. -/
theorem requestCallback_effects {scan next : Scan} {req : Nat} {transfer : Transfer}
    (h : scan.requestCallback env req transfer = some next) :
    Effects env (fun _ => True) (scan.receive req transfer) next ∧
      ∃ targets, Calls targets scan next ∧ ∀ target ∈ targets, isRunner target.1 := by
  have hquiet {after : Scan} (hcalls : after.calls = scan.calls) :
      ∃ targets, Calls targets scan after ∧ ∀ target ∈ targets, isRunner target.1 :=
    ⟨[], ⟨[], by rw [hcalls, List.append_nil], rfl⟩, fun _ h => by cases h⟩
  unfold requestCallback at h
  split at h
  · cases h
  · dsimp only at h
    split at h
    · cases h
    · cases h
      have heffects := Crawler.requestCallback_effects env
        (scan.receive req transfer).passiveAuditor (scan.receive req transfer).mem
        (scan.receive req transfer).store req
      exact ⟨.single (.same ⟨_, _, rfl, heffects⟩), hquiet rfl⟩
    · rename_i p _
      cases h
      have heffects := runnerCallback_effects env (scan.receive req transfer) p req
      exact ⟨heffects.mono fun _ _ => trivial, heffects.targets⟩
    · cases h
      obtain ⟨heffects, hcalls⟩ := notFoundCallback_effects env (scan.receive req transfer) req
      exact ⟨heffects.mono fun _ _ => trivial, hquiet hcalls⟩
    · obtain ⟨heffects, hcalls⟩ := hiddenObjectCallback_effects h
      exact ⟨heffects.mono fun _ _ => trivial, hquiet hcalls⟩

theorem addNewRequest_sameAudits (env : ScanEnv) (scan : Scan) (request : Request) :
    SameAudits env scan (scan.addNewRequest env request) :=
  ⟨_, _, rfl, Crawler.addNewRequest_effects env scan.mem scan.store request⟩

theorem addUrl_sameAudits (env : ScanEnv) (scan : Scan) (url : Bytes) :
    SameAudits env scan (scan.addUrl env url).2 := by
  unfold addUrl
  dsimp only
  split
  · exact .refl env scan
  · have hhost : SameAudits env scan { scan with
        store := scan.store.addHost (Request.ofUrl env.request url none).host } :=
      ⟨scan.mem, _, rfl, .single (.keep scan.mem scan.store _ rfl rfl)⟩
    exact hhost.trans env (addNewRequest_sameAudits env _ _)

/-- No blacklist regex matches a URL that the next iteration has the detector or the finder
    request. -/
def SearchesAllowed (env : ScanEnv) (scan : Scan) (number : ProbeNumber) : Prop :=
  ∀ url ∈ scan.nextProbes env number ++ scan.nextTests env,
    scan.store.excludes env.store url = false

/-- The crawler requests nothing but what the id index holds, which is filtered. -/
theorem serveCrawlQueue_targets {scan next : Scan} (h : scan.serveCrawlQueue env = some next)
    (hfiltered : scan.Filtered env) :
    ∃ urls : List Bytes, Calls (urls.map (.crawler, ·)) scan next ∧
      ∀ url ∈ urls, scan.store.excludes env.store url = false := by
  rcases serveCrawlQueue_cases env h with ⟨_, rfl⟩ | ⟨_, id, stored, hstored, hcrawled⟩
  · exact ⟨[], .refl _, fun _ h => by cases h⟩
  · obtain ⟨request, hget, hclean⟩ := hfiltered id stored hstored
    refine ⟨[_], hcrawled.calls, fun url hmem => ?_⟩
    rw [List.mem_singleton.mp hmem, deref, hget]
    exact hclean

/-- What an iteration hands to the HTTP client, apart from the requests of runners, is
    allowed exactly if the requests of the detector and of the finder are. -/
theorem iterate_targets {scan next : Scan} {number : ProbeNumber}
    (h : scan.iterate env number = some next) (hfiltered : scan.Filtered env) :
    ∃ targets, Calls targets scan next ∧
      ((∀ target ∈ targets, ¬ isRunner target.1 →
        scan.store.excludes env.store target.2 = false) ↔ scan.SearchesAllowed env number) := by
  obtain ⟨probed, crawled, tested, hprobe, hcrawl, htest, rfl⟩ := (iterate_eq_some env).mp h
  have hprobed := serveProbeQueue_spec env hprobe
  obtain ⟨hfiltered', hexclude⟩ := hprobed.effects.filtered hfiltered
  obtain ⟨crawls, hcrawls, hallowed⟩ := serveCrawlQueue_targets hcrawl hfiltered'
  obtain ⟨_, hfinder, _, _⟩ := serveCrawlQueue_spec hcrawl
  have htests := (serveObjectsFinder_spec env htest).calls
  rw [hfinder, hprobed.objectsFinder] at htests
  obtain ⟨audits, haudits, hrunners⟩ := (serveAuditQueue_spec env tested).effects.targets
  refine ⟨_, hprobed.calls.trans (hcrawls.trans (htests.trans haudits)), ?_⟩
  simp only [DataStore.excludes, hexclude] at hallowed
  simp only [SearchesAllowed, nextTests, DataStore.excludes, List.mem_append, or_imp, forall_and,
    List.forall_mem_map]
  constructor
  · rintro ⟨hprobes, _, htests, _⟩
    exact ⟨fun url hmem => hprobes url hmem id, fun url hmem => htests url hmem id⟩
  · rintro ⟨hprobes, htests⟩
    exact ⟨fun url hmem _ => hprobes url hmem, fun url hmem _ => hallowed url hmem,
      fun url hmem _ => htests url hmem,
      fun target hmem hnot => absurd (hrunners target hmem) hnot⟩

theorem SameAudits.calls (h : SameAudits env scan scan') : Calls [] scan scan' := by
  obtain ⟨mem, store, rfl, _⟩ := h
  exact .refl scan

end

/-- What the filters of a configuration do not change. -/
theorem configured_store {α : Type} (env : ScanEnv) (config : ScanConfig) (g : DataStore → α)
    (hwhitelist : ∀ store regex, g (store.addWhitelistRegex env.store regex).2 = g store)
    (hblacklist : ∀ store regex, g (store.addBlacklistRegex env.store regex).2 = g store) :
    g (configured env config).store = g {} := by
  have hfold (f : DataStore → Bytes → DataStore) (hf : ∀ store regex, g (f store regex) = g store)
      (regexes : List Bytes) (store : DataStore) : g (regexes.foldl f store) = g store := by
    induction regexes generalizing store with
    | nil => rfl
    | cons regex regexes ih => rw [List.foldl_cons, ih, hf]
  unfold configured
  dsimp only
  rw [hfold _ hblacklist, hfold _ hwhitelist]

/-- No filter of the configuration puts a request into the id index or into a queue. -/
theorem configured_index (env : ScanEnv) (config : ScanConfig) :
    (configured env config).store.requestsById = [] ∧
      (configured env config).store.probeQueue = [] ∧
      (configured env config).store.crawlQueue = [] := by
  have hindex := configured_store env config
    (fun store => (store.requestsById, store.probeQueue, store.crawlQueue))
    (fun store regex => by unfold DataStore.addWhitelistRegex; split <;> rfl)
    fun store regex => by unfold DataStore.addBlacklistRegex; split <;> rfl
  obtain ⟨hbyId, hqueues⟩ := Prod.ext_iff.mp hindex
  exact ⟨hbyId, Prod.ext_iff.mp hqueues⟩

theorem configured_filtered (env : ScanEnv) (config : ScanConfig) :
    (configured env config).Filtered env := by
  intro id req hreq
  rw [DataStore.getRequestById, (configured_index env config).1] at hreq
  cases hreq

end Scan

namespace MainLoop

variable {env : ScanEnv}

/-- No blacklist regex matches a URL that the detector or the finder requests in the
    iteration, if the event is one. -/
def SearchesAllowed (env : ScanEnv) (loop : MainLoop) : ScanOp → Prop
  | .iterate number _ => loop.scan.SearchesAllowed env number
  | _ => True

/-- What one event does to the history: all but the calls of runners are allowed exactly if
    the condition holds. -/
theorem step_targets {loop next : MainLoop} {op : ScanOp} (hstep : loop.step env op = some next)
    (hfiltered : loop.scan.Filtered env) :
    next.scan.Filtered env ∧
      next.scan.store.urlBlacklistRegexes = loop.scan.store.urlBlacklistRegexes ∧
      ∃ targets, Scan.Calls targets loop.scan next.scan ∧
        ((∀ target ∈ targets, ¬ Scan.isRunner target.1 →
          loop.scan.store.excludes env.store target.2 = false) ↔ loop.SearchesAllowed env op) := by
  have hnone (scan : Scan) : (∀ target ∈ ([] : List (ScheduleCaller × Bytes)),
      ¬ Scan.isRunner target.1 → scan.store.excludes env.store target.2 = false) ↔ True :=
    iff_of_true (fun _ h => by cases h) trivial
  unfold step at hstep
  split at hstep
  · cases hstep
  · cases op with
    | addUrl url =>
      cases hstep
      have hsame := Scan.addUrl_sameAudits env loop.scan url
      obtain ⟨hfiltered', hexclude⟩ := hsame.filtered hfiltered
      exact ⟨hfiltered', hexclude, [], hsame.calls, hnone _⟩
    | addRequest proto =>
      cases hstep
      have hsame := Scan.addNewRequest_sameAudits env loop.scan
        (Request.ofProto env.request proto)
      obtain ⟨hfiltered', hexclude⟩ := hsame.filtered hfiltered
      exact ⟨hfiltered', hexclude, [], hsame.calls, hnone _⟩
    | requestCallback req transfer =>
      obtain ⟨scan, hcallback, rfl⟩ := Option.map_eq_some_iff.mp hstep
      obtain ⟨heffects, targets, hcalls, hrunners⟩ := Scan.requestCallback_effects hcallback
      have hreceived : (loop.scan.receive req transfer).Filtered env :=
        hfiltered.of_frame (Scan.receive_frame loop.scan req transfer) rfl rfl
      obtain ⟨hfiltered', hexclude⟩ := heffects.filtered hreceived
      exact ⟨hfiltered', hexclude, targets, hcalls,
        iff_of_true (fun target hmem hnot => absurd (hrunners target hmem) hnot) trivial⟩
    | giveUp req =>
      obtain ⟨scan, hgiven, rfl⟩ := Option.map_eq_some_iff.mp hstep
      unfold Scan.giveUp at hgiven
      split at hgiven
      · cases hgiven
      · cases hgiven
        exact ⟨hfiltered, rfl, [], .refl loop.scan, hnone _⟩
    | iterate number keepRunning =>
      obtain ⟨scan, hiterate, rfl⟩ := Option.map_eq_some_iff.mp hstep
      obtain ⟨hfiltered', hexclude⟩ := (Scan.iterate_effects hiterate).filtered hfiltered
      exact ⟨hfiltered', hexclude, Scan.iterate_targets hiterate hfiltered⟩

/-- In a run, the detector, the finder and the crawler hand no excluded URL to the HTTP
    client exactly if the condition holds at each iteration. -/
theorem noneExcluded_iff_of_run {config : ScanConfig} {ops : List ScanOp} {last : MainLoop}
    (hrun : run (step env) (start env config) ops = some last) :
    last.scan.NoneExcluded env ↔
      Along (step env) (SearchesAllowed env) (start env config) ops := by
  have hstep (loop : MainLoop) (op : ScanOp) (next : MainLoop)
      (hfiltered : loop.scan.Filtered env) (hstep : loop.step env op = some next) :
      next.scan.Filtered env ∧ (next.scan.NoneExcluded env ↔
        loop.scan.NoneExcluded env ∧ loop.SearchesAllowed env op) := by
    obtain ⟨hfiltered', hexclude, targets, hcalls, hallowed⟩ := step_targets hstep hfiltered
    refine ⟨hfiltered', ?_⟩
    rw [hcalls.noneExcluded_iff hexclude, hallowed]
  have hnone : (start env config).scan.NoneExcluded env := fun _ hcall => by cases hcall
  exact (run_iff_along hstep (Scan.configured_filtered env config) hrun).trans
    (and_iff_right hnone)

instance (env : ScanEnv) (loop : MainLoop) (op : ScanOp) :
    Decidable (loop.SearchesAllowed env op) :=
  match op with
  | .iterate number _ => inferInstanceAs (Decidable (∀ url ∈ loop.scan.nextProbes env number ++
      loop.scan.nextTests env, loop.scan.store.excludes env.store url = false))
  | .addUrl _ | .addRequest _ | .requestCallback _ _ | .giveUp _ => .isTrue trivial

/-- A configuration with some excluded texts, and a word for hidden objects. -/
def excluding (excludeRegexes : List String) (word : String) : ScanConfig where
  excludeRegexes := excludeRegexes.map ascii
  wordlist := [(ascii word, true)]
  extensions := [ascii ".php"]

/-- Two pages are given, and the first iteration is made. -/
def firstIteration : List ScanOp :=
  [.addUrl (ascii "http://site/shop"), .addUrl (ascii "http://site/logout"),
    .iterate fixedNumber true]

theorem noneExcluded_iff_of_run_admin : ∃ last,
    run (step siteEnv) (start siteEnv (excluding ["logout"] "admin")) firstIteration =
      some last ∧ last.scan.calls.length = 12 ∧ last.scan.NoneExcluded siteEnv := by
  have hallowed : Along (step siteEnv) (SearchesAllowed siteEnv)
      (start siteEnv (excluding ["logout"] "admin")) firstIteration := by decide +kernel
  have hcalls : (run (step siteEnv) (start siteEnv (excluding ["logout"] "admin"))
      firstIteration).map (·.scan.calls.length) = some 12 := by decide +kernel
  obtain ⟨last, hrun, hlength⟩ := Option.map_eq_some_iff.mp hcalls
  exact ⟨last, hrun, hlength, (noneExcluded_iff_of_run hrun).mpr hallowed⟩

/-- The detector and the finder request URLs that are excluded. -/
theorem excluded_requested : ∃ last,
    run (step siteEnv) (start siteEnv (excluding ["42.php", "logout"] "logout")) firstIteration =
      some last ∧
    ∀ caller ∈ [ScheduleCaller.notFoundDetector, .hiddenObjectsFinder],
      ∃ call ∈ last.scan.calls, call.caller = caller ∧
        last.scan.store.excludes siteEnv.store call.url = true := by
  have hcalls : (run (step siteEnv) (start siteEnv (excluding ["42.php", "logout"] "logout"))
      firstIteration).map (fun last =>
        [ScheduleCaller.notFoundDetector, .hiddenObjectsFinder].all fun caller =>
          last.scan.calls.any fun call =>
            call.caller = caller && last.scan.store.excludes siteEnv.store call.url) =
      some true := by decide +kernel
  obtain ⟨last, hrun, hall⟩ := Option.map_eq_some_iff.mp hcalls
  refine ⟨last, hrun, ?_⟩
  simpa only [List.all_eq_true, List.any_eq_true, Bool.and_eq_true, decide_eq_true_eq] using hall

end MainLoop

end plusfish

import Plusfish.Main
import Plusfish.MainLoop.Pipeline

open memory transition

namespace plusfish

/-- The event is one of the loop of `Run`: the seeds have been added before. -/
def ScanOp.InLoop : ScanOp → Prop
  | .addUrl _ | .addRequest _ => False
  | _ => True

namespace Scan

variable {env : ScanEnv} {scan next : Scan}

/-- Nothing has been handed to the HTTP client, and there is nothing to do. -/
structure AtRest (scan : Scan) : Prop where
  calls : scan.calls = []
  outstanding : scan.outstanding = []
  probeQueue : scan.store.probeQueue = []
  crawlQueue : scan.store.crawlQueue = []
  auditQueue : scan.store.auditQueue = []
  pendingUrls : scan.objectsFinder.pendingUrls = []
  testUrlsQueue : scan.objectsFinder.testUrlsQueue = []

theorem AtRest.iterate {number : ProbeNumber} (h : scan.AtRest)
    (hiterate : scan.iterate env number = some next) : next = scan := by
  obtain ⟨probed, crawled, tested, hprobe, hcrawl, htest, rfl⟩ := (iterate_eq_some env).mp hiterate
  rw [serveProbeQueue, h.probeQueue] at hprobe
  cases hprobe
  rw [serveCrawlQueue, h.crawlQueue] at hcrawl
  cases hcrawl
  have hrefilled : scan.objectsFinder.refill = scan.objectsFinder := by
    rw [HiddenObjectsFinder.refill, h.testUrlsQueue, h.pendingUrls]
  have htested : tested = scan := by
    unfold serveObjectsFinder scheduleObjectRequests at htest
    rw [hrefilled] at htest
    split at htest
    · cases htest
      rw [kMaxHiddenObjectsUrlsToSchedule, scheduleTests, h.testUrlsQueue]
    · cases htest
  rw [htested, serveAuditQueue, h.auditQueue, ite_self]

/-- While no host is allowed, the datastore rejects every request. -/
theorem addNewRequest_of_noHosts (hhosts : scan.store.allowedHosts = []) (request : Request) :
    scan.addNewRequest env request = { scan with mem := (scan.mem.alloc request).2 } := by
  have hout : scan.store.inScope env.store
      (deref (scan.mem.alloc request).2 (scan.mem.alloc request).1) = false := by
    simp [DataStore.inScope, hhosts]
  rw [addNewRequest, Crawler.addNewRequest]
  simp only [DataStore.addRequest_eq, hout]
  rfl

end Scan

namespace MainLoop

variable {env : ScanEnv} {loop next last : MainLoop} {op : ScanOp} {ops : List ScanOp}

theorem step_atRest (h : loop.scan.AtRest) (hop : op.InLoop)
    (hstep : loop.step env op = some next) :
    next.scan = loop.scan := by
  unfold step at hstep
  split at hstep
  · cases hstep
  · cases op with
    | addUrl | addRequest => exact hop.elim
    | requestCallback req transfer =>
      obtain ⟨scan, hcallback, rfl⟩ := Option.map_eq_some_iff.mp hstep
      rw [Scan.requestCallback, h.outstanding, if_pos List.not_mem_nil] at hcallback
      cases hcallback
    | giveUp req =>
      obtain ⟨scan, hgiveUp, rfl⟩ := Option.map_eq_some_iff.mp hstep
      rw [Scan.giveUp, h.outstanding, if_pos List.not_mem_nil] at hgiveUp
      cases hgiveUp
    | iterate number keepRunning =>
      obtain ⟨scan, hiterate, rfl⟩ := Option.map_eq_some_iff.mp hstep
      exact h.iterate hiterate

/-- Where there is nothing to do, nothing is done. -/
theorem run_atRest (h : loop.scan.AtRest) (hops : ∀ op ∈ ops, op.InLoop)
    (hrun : run (step env) loop ops = some last) : last.scan = loop.scan := by
  induction ops generalizing loop with
  | nil =>
    cases hrun
    rfl
  | cons op ops ih =>
    obtain ⟨hop, hrest⟩ := List.forall_mem_cons.mp hops
    obtain ⟨next, hstep, hlast⟩ := run_cons_eq_some.mp hrun
    have hsame := step_atRest h hop hstep
    rw [← hsame] at h ⊢
    exact ih h hrest hlast

end MainLoop

namespace cli

open MainLoop

variable {surroundings : Surroundings} {flags : Flags} {env : ScanEnv} {factory : ReporterFactory}
  {httpClient : CurlHttpClient} {urls : List Bytes} {setup : Setup} {protos : List HttpRequest}
  {scan : Scan} {ops : List ScanOp} {last : MainLoop}

theorem addRequests_run (env : ScanEnv) (protos : List HttpRequest) (scan : Scan) :
    run (step env) { scan } (protos.map .addRequest) =
      some { scan := addRequests env protos scan } := by
  induction protos generalizing scan with
  | nil => rfl
  | cons proto protos ih => exact ih _

theorem addUrls_run {next : Scan} (hadd : addUrls env urls scan = some next) :
    run (step env) { scan } (urls.map .addUrl) = some { scan := next } := by
  induction urls generalizing scan with
  | nil =>
    cases hadd
    rfl
  | cons url urls ih =>
    rw [addUrls] at hadd
    split at hadd
    · rename_i after hafter
      have hstep : step env { scan } (.addUrl url) = some { scan := after } := by
        rw [step, if_neg (by simp), hafter]
      exact run_cons_eq_some.mpr ⟨_, hstep, ih hadd⟩
    · cases hadd

/-- The requests of the file are made, and rejected. -/
theorem addRequests_of_noHosts (env : ScanEnv) (protos : List HttpRequest)
    (hhosts : scan.store.allowedHosts = []) : addRequests env protos scan =
      { scan with mem := (scan.mem.allocAll (protos.map (Request.ofProto env.request))).2 } := by
  induction protos generalizing scan with
  | nil => simp [addRequests, Heap.allocAll]
  | cons proto protos ih =>
    have hfirst : scan.addNewRequest env (.ofProto env.request proto) =
        { scan with mem := (scan.mem.alloc (.ofProto env.request proto)).2 } :=
      Scan.addNewRequest_of_noHosts hhosts _
    rw [addRequests, List.foldl_cons, hfirst, ← addRequests]
    refine (ih ?_).trans ?_
    · exact hhosts
    · simp [Heap.allocAll, Heap.alloc]

/-- What `main` does where it does not exit. -/
theorem main_eq_some (hmain : main surroundings flags env factory httpClient urls = some setup) :
    ∃ auditors protos, makeAuditors surroundings flags env.request = some auditors ∧
      fileRequests surroundings flags = some protos ∧
      setup.config = scanConfig surroundings flags auditors ∧ setup.loop.exit = none ∧
      addUrls (scanEnv flags env) urls (addRequests (scanEnv flags env) protos
        (.configured (scanEnv flags env) setup.config)) = some setup.loop.scan := by
  obtain ⟨auditors, hauditors, hmain⟩ := Option.bind_eq_some_iff.mp hmain
  obtain ⟨_, _, hmain⟩ := Option.bind_eq_some_iff.mp hmain
  obtain ⟨_, _, hmain⟩ := Option.bind_eq_some_iff.mp hmain
  obtain ⟨protos, hprotos, hmain⟩ := Option.bind_eq_some_iff.mp hmain
  split at hmain
  · cases hmain
  · obtain ⟨scan, hadd, rfl⟩ := Option.map_eq_some_iff.mp hmain
    exact ⟨auditors, protos, hauditors, hprotos, rfl, rfl, hadd⟩

/-- The scan once the file is loaded: there are requests, but the datastore has none of them. -/
def loaded (env : ScanEnv) (config : ScanConfig) (protos : List HttpRequest) : Scan :=
  { Scan.configured env config with
    mem := (({} : Heap Request).allocAll (protos.map (Request.ofProto env.request))).2 }

theorem addRequests_configured (env : ScanEnv) (config : ScanConfig) (protos : List HttpRequest) :
    addRequests env protos (.configured env config) = loaded env config protos := by
  refine addRequests_of_noHosts env protos ?_
  rw [Scan.configured_store_eq]

/-- When `Run` is called, the hosts of the URLs are allowed, and what has happened since the file
    was loaded are the first steps of a run. -/
theorem main_pipelined (hmain : main surroundings flags env factory httpClient urls = some setup)
    (hfile : fileRequests surroundings flags = some protos) :
    ∃ hosts, (∀ host ∈ hosts, ∃ url ∈ urls, (ScanOp.addUrl url).Seeds env host) ∧
      setup.loop.scan.Pipelined (scanEnv flags env) hosts
        (loaded (scanEnv flags env) setup.config protos) [] := by
  obtain ⟨auditors, protos', _, hfile', _, hexit, hadd⟩ := main_eq_some hmain
  obtain rfl : protos' = protos := Option.some.inj (hfile'.symm.trans hfile)
  have hload := addRequests_run (scanEnv flags env) protos'
    (.configured (scanEnv flags env) setup.config)
  rw [addRequests_configured] at hload hadd
  obtain ⟨hosts, hmem, hloaded⟩ :=
    run_pipelined (Scan.configured_pipelined (scanEnv flags env) setup.config) hload
  obtain ⟨hosts', hmem', hstarted⟩ := run_pipelined hloaded.remember (addUrls_run hadd)
  refine ⟨hosts', fun host hhost => ?_, hstarted⟩
  rcases (hmem' host).mp hhost with hold | ⟨op, hop, hseeds⟩
  · rcases (hmem host).mp hold with hnone | ⟨op, hop, hseeds⟩
    · cases hnone
    · obtain ⟨proto, _, rfl⟩ := List.mem_map.mp hop
      exact hseeds.elim
  · obtain ⟨url, hurl, rfl⟩ := List.mem_map.mp hop
    exact ⟨url, hurl, hseeds⟩

/-- The events of the loop add no seeds. -/
theorem run_pipelined_of_inLoop {hosts : List Bytes} {past : Scan} {loop : MainLoop}
    (h : loop.scan.Pipelined env hosts past []) (hops : ∀ op ∈ ops, op.InLoop)
    (hrun : run (step env) loop ops = some last) :
    ∃ hosts', (∀ host ∈ hosts', host ∈ hosts) ∧ last.scan.Pipelined env hosts' past [] := by
  obtain ⟨hosts', hmem, hlast⟩ := run_pipelined h hrun
  refine ⟨hosts', fun host hhost => ?_, hlast⟩
  refine ((hmem host).mp hhost).resolve_right ?_
  rintro ⟨op, hop, hseeds⟩
  have hloop := hops op hop
  cases op with
  | addUrl => exact hloop
  | _ => exact hseeds

theorem loaded_store (env : ScanEnv) (config : ScanConfig) (protos : List HttpRequest) :
    (loaded env config protos).store =
      { urlWhitelistRegexes := config.includeRegexes.filter env.store.regexOk
        urlBlacklistRegexes := config.excludeRegexes.filter env.store.regexOk } :=
  Scan.configured_store_eq env config

theorem loaded_waiting (env : ScanEnv) (config : ScanConfig) (protos : List HttpRequest) :
    (loaded env config protos).crawled ++ (loaded env config protos).waiting = [] := by
  rw [Scan.waiting, loaded_store]
  rfl

theorem loaded_atRest (env : ScanEnv) (config : ScanConfig) (protos : List HttpRequest) :
    (loaded env config protos).AtRest := by
  have hstore := loaded_store env config protos
  exact ⟨rfl, rfl, by rw [hstore], by rw [hstore], by rw [hstore], rfl, rfl⟩

/-- The requests of the file are made, but in no run of the program does the datastore take one of
    them, or does the crawler hand one over. Without URLs nothing is ever handed over. -/
theorem fileRequests_ignored_of_run
    (hmain : main surroundings flags env factory httpClient urls = some setup)
    (hfile : fileRequests surroundings flags = some protos) (hops : ∀ op ∈ ops, op.InLoop)
    (hrun : run (step (scanEnv flags env)) setup.loop ops = some last) :
    (∀ i proto, protos[i]? = some proto →
      (Request.ofProto env.request proto).SameAsked (deref last.scan.mem i)) ∧
    (∀ id req, last.scan.store.getRequestById id = some req → protos.length ≤ req) ∧
    (∀ req ∈ last.scan.crawled, protos.length ≤ req) ∧
    (urls = [] → last.scan.calls = []) := by
  obtain ⟨hosts, _, hstarted⟩ := main_pipelined hmain hfile
  obtain ⟨_, _, order, hline⟩ := run_pipelined_of_inLoop hstarted hops hrun
  have hlater (req : Nat) (hmem : req ∈ order) : protos.length ≤ req := by
    rcases hline.since.unseen req hmem with hold | hle | htest
    · rw [loaded_waiting] at hold
      cases hold
    · have hnext : (loaded (scanEnv flags env) setup.config protos).mem.next = protos.length := by
        simp [loaded, Heap.next, Heap.allocAll]
      exact hnext ▸ hle
    · cases htest
  refine ⟨fun i proto hproto => ?_, fun id req hstored => ?_, fun req hmem => ?_, ?_⟩
  · have hget : (loaded (scanEnv flags env) setup.config protos).mem.get? i =
        some (Request.ofProto env.request proto) := by
      rw [loaded, Heap.get?_allocAll_of_le _ (Nat.zero_le i)]
      simp [Heap.next, hproto, scanEnv]
    obtain ⟨request, hlast, hsame⟩ := hline.since.remembers.asked i _ hget
    rwa [deref_of_get? hlast]
  · exact hlater req (hline.records.known id req hstored).1
  · refine hlater req ?_
    rw [hline.order_eq]
    exact List.mem_append_left _ hmem
  · rintro rfl
    obtain ⟨_, protos', _, hfile', _, _, hadd⟩ := main_eq_some hmain
    rw [addUrls, addRequests_configured] at hadd
    have hrest := loaded_atRest (scanEnv flags env) setup.config protos'
    rw [Option.some.inj hadd] at hrest
    rw [run_atRest hrest hops hrun]
    exact hrest.calls

/-- Every file has the same requests in it, and there is no configuration. -/
def filesWith (protos : List HttpRequest) : Surroundings where
  globPath := fun _ => none
  readFile := fun _ => some []
  parseChecks := fun _ => []
  parseRequests := fun _ => some protos
  re2 := ⟨fun _ => true, fun _ _ => false⟩
  address := id
  linesOrder := id
  wordlistOrder := id
  matchersOrder := id

/-- Flags that name a word list and a file with requests. -/
def siteFlags : Flags where
  bruteforceWordlist := ascii "words"
  requestsAsciipbFile := ascii "requests"

/-- A file has one request for the site of the URL, and the crawler hands over the one for the
    URL. -/
theorem fileRequests_ignored_of_run_onePage : ∃ setup last,
    main (filesWith [{ hostField := some (ascii "site") }]) siteFlags siteEnv ⟨true, true⟩ {}
      [ascii "http://site/a"] = some setup ∧
    run (step (scanEnv siteFlags siteEnv)) setup.loop [.iterate fixedNumber true] = some last ∧
    last.scan.crawled = [1] ∧ ∀ req ∈ last.scan.crawled, 1 ≤ req := by
  have hends : ((main (filesWith [{ hostField := some (ascii "site") }]) siteFlags siteEnv
      ⟨true, true⟩ {} [ascii "http://site/a"]).bind fun setup =>
        (run (step (scanEnv siteFlags siteEnv)) setup.loop [.iterate fixedNumber true]).map
          fun last => last.scan.crawled) = some [1] := by decide +kernel
  obtain ⟨setup, hmain, hrest⟩ := Option.bind_eq_some_iff.mp hends
  obtain ⟨last, hrun, hcrawled⟩ := Option.map_eq_some_iff.mp hrest
  have hops : ∀ op ∈ [ScanOp.iterate fixedNumber true], op.InLoop :=
    List.forall_mem_singleton.mpr trivial
  obtain ⟨_, _, hlater, _⟩ := fileRequests_ignored_of_run hmain rfl hops hrun
  exact ⟨setup, last, hmain, hrun, hcrawled, hlater⟩

end cli

end plusfish

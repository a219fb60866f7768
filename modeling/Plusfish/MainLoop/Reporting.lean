import Plusfish.MainLoop.Pipeline
import Plusfish.Report.TextReporter

open json memory ordered_map transition

namespace plusfish

/-- The documents of the reporters once the reports are made. -/
structure Reports {SecurityCheckConfig : Type} (names : EnumNames)
    (util : JsonUtil SecurityCheckConfig) (mem : Heap Request) (config : SecurityCheckConfig)
    (reportTypes : Bytes) (listed : List Nat) (reporters : List Reporter) : Prop where
  /-- A text reporter has written a line for each request. -/
  text : ∀ i : Nat, (reportTypes.splitOn 44)[i]? = some (ascii "TEXT") →
    reporters[i]? = some (Sum.inr (TextReporter.mk (listed.flatMap (TextReporter.line names mem))))
  /-- A JSON reporter writes an item for each request. -/
  json : ∀ i : Nat, (reportTypes.splitOn 44)[i]? = some (ascii "JSON") → listed ≠ [] →
    ∃ reporter, reporters[i]? = some (Sum.inl reporter) ∧ JSONReporter.destroy reporter =
      JSONReporter.kConfigPrefix ++ (util.configToJsonString config).2 ++
        JSONReporter.kJSONDelimeter ++ JSONReporter.kPivotsPrefix ++
        commaSeparated (listed.map (JSONReporter.itemText util mem)) ++ JSONReporter.kPivotsSuffix

section
variable {SecurityCheckConfig : Type} {names : EnumNames} {util : JsonUtil SecurityCheckConfig}

/-- The reporters of one report all write about the same requests, in the same order. -/
theorem reports_of_initReporting (hutil : util.Succeeds) {factory : ReporterFactory}
    {reportTypes : Bytes} {reporters : List Reporter}
    (hinit : Plusfish.initReporting factory reportTypes [] = (true, reporters))
    (mem : Heap Request) (store : DataStore) (config : SecurityCheckConfig) :
    Reports names util mem config reportTypes store.stored
      (Plusfish.report ((JSONReporter.reporterInterface util mem).either
        (TextReporter.reporterInterface names mem SecurityCheckConfig)) store reporters
          config).2 := by
  have hmade := Plusfish.initReporting_eq_true hinit
  have hreporter {i : ℕ} {reportType : Bytes}
      (hi : (reportTypes.splitOn 44)[i]? = some reportType) :
      ∃ reporter, reporters[i]? = some reporter ∧
        factory.getReporterByName reportType = some reporter := by
    have hsame := congrArg (·[i]?) hmade
    simp only [List.getElem?_map, hi, Option.map_some] at hsame
    obtain ⟨reporter, hreporter, heq⟩ := Option.map_eq_some_iff.mp hsame
    exact ⟨reporter, hreporter, heq.symm⟩
  refine ⟨fun i hi => ?_, fun i hi hlisted => ?_⟩
  · obtain ⟨reporter, hget, hname⟩ := hreporter hi
    have hparse : ReportType.parse (ascii "TEXT") = some .text := by decide
    rw [ReporterFactory.getReporterByName, hparse, Option.bind_some,
      ReporterFactory.getReporter] at hname
    split at hname
    · cases hname
      exact TextReporter.report_getElem? _ store config hget
    · cases hname
  · obtain ⟨reporter, hget, hname⟩ := hreporter hi
    have hparse : ReportType.parse (ascii "JSON") = some .json := by decide
    rw [ReporterFactory.getReporterByName, hparse, Option.bind_some,
      ReporterFactory.getReporter] at hname
    split at hname
    · cases hname
      have hvisits : store.visits ≠ [] := by
        intro hnone
        rw [← DataStore.visits_reqSamples, hnone] at hlisted
        exact hlisted rfl
      refine ⟨_, JSONReporter.report_getElem? _ mem store config hget, ?_⟩
      rw [JSONReporter.destroy_of_report hutil config hvisits, ← DataStore.visits_reqSamples,
        List.map_flatMap]
    · cases hname

end

/-- Each enumeration has one name. -/
def plainNames : EnumNames where
  requestMethod := fun _ => ascii "GET"
  responseCode := fun _ => ascii "OK"
  issueType := fun _ => ascii "XSS_REFLECTED"

namespace MainLoop

variable {env : ScanEnv} {config : ScanConfig} {ops : List ScanOp} {last : MainLoop}

/-- After any run, the datastore has stored and recorded the requests that it has accepted. -/
theorem recorded_of_run (hrun : run (step env) (start env config) ops = some last) :
    ∃ order, last.scan.store.Recorded env.store env.Makes last.scan.mem order := by
  obtain ⟨_, _, order, hline⟩ := run_pipelined (Scan.configured_pipelined env config) hrun
  exact ⟨order, hline.records⟩

/-- After any run, all reporters write about the same requests in the same order: those that were
    given an id, each of them once. -/
theorem reports_of_run (hrun : run (step env) (start env config) ops = some last)
    {SecurityCheckConfig : Type} {util : JsonUtil SecurityCheckConfig} (hutil : util.Succeeds)
    {factory : ReporterFactory} {reportTypes : Bytes} {reporters : List Reporter}
    (hinit : Plusfish.initReporting factory reportTypes [] = (true, reporters))
    (names : EnumNames) (checksConfig : SecurityCheckConfig) :
    ∃ listed : List Nat,
      (listed.map some).Perm ((List.range last.scan.store.requestId).map fun i =>
        last.scan.store.getRequestById ((i + 1 : ℕ) : Int)) ∧ listed.Nodup ∧
      Reports names util last.scan.mem checksConfig reportTypes listed
        (Plusfish.report ((JSONReporter.reporterInterface util last.scan.mem).either
          (TextReporter.reporterInterface names last.scan.mem SecurityCheckConfig))
            last.scan.store reporters checksConfig).2 := by
  obtain ⟨order, hrecords⟩ := recorded_of_run hrun
  refine ⟨last.scan.store.stored, ?_, ?_, reports_of_initReporting hutil hinit _ _ _⟩
  · rw [← hrecords.numbers.map_some]
    exact hrecords.stored.map some
  · exact hrecords.stored.nodup_iff.mpr hrecords.numbers.nodup

/-- Three pages are reported as text and as JSON. -/
theorem reports_of_run_redirections : ∃ last,
    run (step loopEnv) (start loopEnv {}) redirections = some last ∧
      last.scan.store.requestId = 3 ∧ ∃ listed : List Nat,
        (listed.map some).Perm ((List.range last.scan.store.requestId).map fun i =>
          last.scan.store.getRequestById ((i + 1 : ℕ) : Int)) ∧ listed.Nodup ∧
        Reports plainNames JSONReporter.emptyObjects last.scan.mem () (ascii "TEXT,JSON") listed
          (Plusfish.report ((JSONReporter.reporterInterface JSONReporter.emptyObjects
            last.scan.mem).either (TextReporter.reporterInterface plainNames last.scan.mem Unit))
              last.scan.store [.inr {}, .inl {}] ()).2 := by
  have hends : (run (step loopEnv) (start loopEnv {}) redirections).map (fun last =>
      last.scan.store.requestId) = some 3 := by decide +kernel
  obtain ⟨last, hrun, hlast⟩ := Option.map_eq_some_iff.mp hends
  have hinit : Plusfish.initReporting ⟨true, true⟩ (ascii "TEXT,JSON") [] =
      (true, [.inr {}, .inl {}]) := by decide
  exact ⟨last, hrun, hlast,
    reports_of_run hrun JSONReporter.emptyObjects_succeeds hinit plainNames ()⟩

/-- After any run, a request has the issues that are stored for it and no two of them alike, and
    the counters count the stored issues. -/
theorem issuesAccounted_of_run {scraper : HtmlScraper}
    (hrun : run (step (env.withScraper scraper)) (start (env.withScraper scraper) config) ops =
      some last) : Site.Accounted env.store { mem := last.scan.mem, store := last.scan.store } := by
  obtain ⟨order, hrecords⟩ := recorded_of_run hrun
  refine hrecords.accounted fun request hmakes => ?_
  obtain ⟨url, parent, rfl⟩ | ⟨proto, rfl⟩ | ⟨_, _, _, scraped, hscraped, hmem⟩ := hmakes
  · exact Request.ofUrl_issues _ url parent
  · exact Request.ofProto_issues _ proto
  · exact HtmlScraper.parse_issues hscraped request hmem

/-- A scraper that finds the same two issues on each page. -/
def twoIssues : HtmlScraper :=
  { noScraper with
    gumboParse := fun _ => some .other
    issues := fun _ _ => [{ typeField := some .xsrfPassive, severityField := some .moderate },
      { typeField := some .mixedContent, severityField := some .low }] }

/-- A page of a site is fetched and scraped. -/
def htmlPage : List ScanOp :=
  [.addUrl (ascii "http://site/a"), .iterate fixedNumber true,
    .requestCallback 0 { response := { proto :=
      { codeField := some .ok, mimeTypeField := some .ascHtml } } }]

/-- The page has two issues. -/
theorem issuesAccounted_of_run_htmlPage : ∃ last,
    run (step (siteEnv.withScraper twoIssues)) (start (siteEnv.withScraper twoIssues) {}) htmlPage =
      some last ∧ last.scan.store.storedIssues.length = 2 ∧
      Site.Accounted (siteEnv.withScraper twoIssues).store
        { mem := last.scan.mem, store := last.scan.store } := by
  have hends : (run (step (siteEnv.withScraper twoIssues))
      (start (siteEnv.withScraper twoIssues) {})
      htmlPage).map (fun last => last.scan.store.storedIssues.length) = some 2 := by decide +kernel
  obtain ⟨last, hrun, hlast⟩ := Option.map_eq_some_iff.mp hends
  exact ⟨last, hrun, hlast, issuesAccounted_of_run hrun⟩

end MainLoop

end plusfish

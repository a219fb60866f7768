import Plusfish.Main.Start
import Plusfish.MainLoop.Scope

open memory transition

namespace plusfish

/-- The request is in the scope that the command line asks for: its host is the one of a URL, it
    matches every expression of the include list that can be compiled, and none of the exclude
    list. -/
structure Flags.Covers (flags : Flags) (env : ScanEnv) (urls : List Bytes) (request : Request) :
    Prop where
  valid : request.urlIsValid = true
  host : ∀ host, request.proto.hostField = some host →
    ∃ url ∈ urls, (ScanOp.addUrl url).Seeds env host
  included : ∀ regex ∈ cli.regexList flags.includeRegexList, env.store.regexOk regex = true →
    env.store.partialMatch request.url regex = true
  notExcluded : ∀ regex ∈ cli.regexList flags.excludeRegexList, env.store.regexOk regex = true →
    env.store.partialMatch request.url regex = false

namespace cli

open MainLoop

variable {surroundings : Surroundings} {flags : Flags} {env : ScanEnv} {factory : ReporterFactory}
  {httpClient : CurlHttpClient} {urls : List Bytes} {setup : Setup} {ops : List ScanOp}
  {last : MainLoop}

theorem addSecurityTest_fromRule {selectiveAuditor : SelectiveAuditor} {rule : GeneratorRule}
    {test : ConfiguredTest}
    (h : ∀ check ∈ selectiveAuditor.checks, check.FromRule env.request) :
    ∀ check ∈ (selectiveAuditor.addSecurityTest surroundings env.request rule test).2.checks,
      check.FromRule env.request := by
  have hadd (matcher : Option ResponseMatcher) (check : SecurityCheck)
      (hmem : check ∈ (selectiveAuditor.addSecurityCheck (.generic
        ⟨test.securityTest, GenericGenerator.generator env.request rule, matcher⟩)).checks) :
      check.FromRule env.request := by
    rcases List.mem_append.mp hmem with hold | hnew
    · exact h check hold
    · rw [List.mem_singleton.mp hnew]
      exact ⟨rule, rfl⟩
  unfold SelectiveAuditor.addSecurityTest
  dsimp only
  split
  · exact hadd none
  · split
    · exact h
    · exact hadd _

theorem addSecurityTests_fromRule {tests : List ConfiguredTest}
    {auditors auditors' : SelectiveAuditor × PassiveAuditor}
    (h : ∀ check ∈ auditors.1.checks, check.FromRule env.request)
    (hadd : addSecurityTests surroundings env.request tests auditors = some auditors') :
    ∀ check ∈ auditors'.1.checks, check.FromRule env.request := by
  induction tests generalizing auditors with
  | nil =>
    cases hadd
    exact h
  | cons test tests ih =>
    rw [addSecurityTests] at hadd
    split at hadd
    · exact ih (addSecurityTest_fromRule h) hadd
    · split at hadd
      · cases hadd
      · refine ih ?_ hadd
        exact h

/-- The checks of the program are made from rules, or measure response times. -/
theorem makeAuditors_fromRule {auditors : SelectiveAuditor × PassiveAuditor}
    (hmake : makeAuditors surroundings flags env.request = some auditors) :
    ∀ check ∈ auditors.1.checks, check.FromRule env.request := by
  unfold makeAuditors at hmake
  split at hmake
  · cases hmake
    exact List.forall_mem_nil _
  · obtain ⟨tests, _, hadd⟩ := Option.bind_eq_some_iff.mp hmake
    exact addSecurityTests_fromRule (List.forall_mem_singleton.mpr trivial) hadd

/-- Setting up a scan is the beginning of a run. -/
theorem main_run (hmain : main surroundings flags env factory httpClient urls = some setup) :
    ∃ protos, fileRequests surroundings flags = some protos ∧
      run (step (scanEnv flags env)) (start (scanEnv flags env) setup.config)
        (protos.map .addRequest ++ urls.map .addUrl) = some setup.loop := by
  obtain ⟨_, protos, _, hfile, _, hexit, hadd⟩ := main_eq_some hmain
  have hloop : ({ scan := setup.loop.scan } : MainLoop) = setup.loop := by
    rw [← hexit]
  refine ⟨protos, hfile, run_append_eq_some.mpr ⟨_, addRequests_run _ protos _, ?_⟩⟩
  rw [addUrls_run hadd, hloop]

/-- In no run of the program does the scan leave the scope that the command line asks for: the
    crawler hands over nothing else, and the audits stay on the hosts of its pages. -/
theorem staysInScope_of_run
    (hmain : main surroundings flags env factory httpClient urls = some setup)
    (hops : ∀ op ∈ ops, op.InLoop)
    (hrun : run (step (scanEnv flags env)) setup.loop ops = some last) :
    (∀ req ∈ last.scan.crawled, flags.Covers env urls (deref last.scan.mem req)) ∧
    ∀ call ∈ last.scan.calls, Scan.isRunner call.caller → ∃ page ∈ last.scan.crawled,
      Request.SameHost (deref last.scan.mem page) (deref last.scan.mem call.req) := by
  obtain ⟨protos, hfile, hsetup⟩ := main_run hmain
  obtain ⟨auditors, _, hauditors, _, hconfig, _⟩ := main_eq_some hmain
  constructor
  · obtain ⟨hosts, hseeds, hstarted⟩ := main_pipelined hmain hfile
    obtain ⟨hosts', hsub, order, hline⟩ := run_pipelined_of_inLoop hstarted hops hrun
    intro req hmem
    have hin : req ∈ order := by
      rw [hline.order_eq]
      exact List.mem_append_left _ hmem
    have hadmits := hline.records.admits req hin
    have hinclude : last.scan.store.urlWhitelistRegexes =
        (regexList flags.includeRegexList).filter env.store.regexOk := by
      rw [hline.since.urlWhitelistRegexes, loaded_store, hconfig, scanConfig, scanEnv]
    have hexclude : last.scan.store.urlBlacklistRegexes =
        (regexList flags.excludeRegexList).filter env.store.regexOk := by
      rw [hline.since.urlBlacklistRegexes, loaded_store, hconfig, scanConfig, scanEnv]
    refine ⟨hadmits.valid, fun host heq => ?_, fun regex hregex hok => ?_,
      fun regex hregex hok => ?_⟩
    · have hallowed := hadmits.host host heq
      rw [hline.allowedHosts] at hallowed
      exact hseeds host (hsub host hallowed)
    · refine hadmits.included regex ?_
      rw [hinclude]
      exact List.mem_filter.mpr ⟨hregex, hok⟩
    · refine hadmits.notExcluded regex ?_
      rw [hexclude]
      exact List.mem_filter.mpr ⟨hregex, hok⟩
  · have hrules : ∀ check ∈ setup.config.checks, check.FromRule (scanEnv flags env).request := by
      rw [hconfig]
      exact makeAuditors_fromRule hauditors
    have htarget := run_onTarget hrules (run_append_eq_some.mpr ⟨_, hsetup, hrun⟩)
    intro call hmem hrunner
    obtain ⟨_, page, hcrawled, _, hsame⟩ := htarget.made call hmem hrunner
    exact ⟨page, hcrawled, hsame⟩

/-- Flags that ask for audits, and exclude some pages. -/
def auditFlags : Flags where
  checksConfigPath := ascii "checks"
  responseTimeMeasurements := 1
  excludeRegexList := ascii "/b,/c"
  bruteforceWordlist := ascii "words"

/-- A configuration file without checks. -/
def noChecks : Surroundings := { filesWith [] with globPath := fun _ => some [ascii "checks"] }

/-- One of two pages is excluded, and the other one is crawled and audited. -/
theorem staysInScope_of_run_twoPages : ∃ setup last,
    main noChecks auditFlags siteEnv ⟨true, true⟩ {}
      [ascii "http://site/a", ascii "http://site/b"] = some setup ∧
    run (step (scanEnv auditFlags siteEnv)) setup.loop
      [.iterate fixedNumber true, .requestCallback 0 {}, .iterate fixedNumber true] = some last ∧
    last.scan.crawled = [0] ∧
    ∀ req ∈ last.scan.crawled, auditFlags.Covers siteEnv
      [ascii "http://site/a", ascii "http://site/b"] (deref last.scan.mem req) := by
  have hends : ((main noChecks auditFlags siteEnv ⟨true, true⟩ {}
      [ascii "http://site/a", ascii "http://site/b"]).bind fun setup =>
        (run (step (scanEnv auditFlags siteEnv)) setup.loop
          [.iterate fixedNumber true, .requestCallback 0 {}, .iterate fixedNumber true]).map
            fun last => last.scan.crawled) = some [0] := by decide +kernel
  obtain ⟨setup, hmain, hrest⟩ := Option.bind_eq_some_iff.mp hends
  obtain ⟨last, hrun, hcrawled⟩ := Option.map_eq_some_iff.mp hrest
  have hops : ∀ op ∈ [ScanOp.iterate fixedNumber true, .requestCallback 0 {},
      .iterate fixedNumber true], op.InLoop := by
    simp [ScanOp.InLoop]
  obtain ⟨hpages, _⟩ := staysInScope_of_run hmain hops hrun
  exact ⟨setup, last, hmain, hrun, hcrawled, hpages⟩

end cli

end plusfish

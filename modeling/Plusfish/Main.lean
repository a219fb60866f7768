import Plusfish.Audit.GenericGenerator
import Plusfish.Audit.GenericResponseMatcher
import Plusfish.MainLoop
import Plusfish.Report.TextReporter

namespace plusfish

/-- The parts of a `SecurityTest` message that decide which check is made from it. -/
structure ConfiguredTest where
  securityTest : SecurityTest := {}
  generatorRule : Option GeneratorRule := none
  matchingRule : Option MatchRule := none

/-- The flags that `main` reads to set up a scan. -/
structure Flags where
  checksConfigPath : Bytes := []
  responseTimeMeasurements : Int := 3
  responseTimeThresholdMs : Int := 8000
  defaultHeaders : Bytes := []
  includeRegexList : Bytes := []
  excludeRegexList : Bytes := []
  bruteforceWordlist : Bytes := []
  bruteforceExtensions : Bytes := []
  maxAuditorRunners : Int := 10
  reportType : Bytes := []
  requestsAsciipbFile : Bytes := []

/-- What `main` depends on apart from its flags: the files, the libraries that match paths and
    expressions and parse messages, where the allocator puts matchers, and the order in which
    containers are iterated that are not ordered by what they hold. -/
structure Surroundings where
  globPath : (pattern : Bytes) → Option (List Bytes)
  readFile : (file : Bytes) → Option Bytes
  parseChecks : (contents : Bytes) → List ConfiguredTest
  parseRequests : (contents : Bytes) → Option (List HttpRequest)
  re2 : RE2
  address : Nat → Nat
  linesOrder : List Bytes → List Bytes
  wordlistOrder : List (Bytes × Bool) → List (Bytes × Bool)
  matchersOrder : List (ResponseMatcher × SecurityTest) → List (ResponseMatcher × SecurityTest)

namespace util

variable (surroundings : Surroundings)

/-- `LoadCheckConfigs`. A file that cannot be read counts as an empty one. -/
def loadCheckConfigs (path : Bytes) : Option (List ConfiguredTest) :=
  match surroundings.globPath path with
  | none => none
  | some [] => none
  | some files =>
    some (files.flatMap fun file =>
      surroundings.parseChecks ((surroundings.readFile file).getD []))

/-- `LoadRequestsConfig`. -/
def loadRequestsConfig (file : Bytes) : Option (List HttpRequest) :=
  (surroundings.readFile file).bind surroundings.parseRequests

end util

namespace SelectiveAuditor

/-- `AddSecurityTest`, with the generator rule that the test has. -/
def addSecurityTest (self : SelectiveAuditor) (surroundings : Surroundings) (env : RequestEnv)
    (rule : GeneratorRule) (test : ConfiguredTest) : Bool × SelectiveAuditor :=
  let generator := GenericGenerator.generator env rule
  match test.matchingRule with
  | none => (true, self.addSecurityCheck (.generic ⟨test.securityTest, generator, none⟩))
  | some matchingRule =>
    match GenericResponseMatcher.init surroundings.re2 surroundings.address matchingRule with
    | none => (false, self)
    | some matcher =>
      (true, self.addSecurityCheck
        (.generic ⟨test.securityTest, generator, some (matcher.responseMatcher surroundings.re2)⟩))

end SelectiveAuditor

namespace PassiveAuditor

def addSecurityTest (self : PassiveAuditor) (surroundings : Surroundings) (test : ConfiguredTest) :
    Bool × PassiveAuditor :=
  match GenericResponseMatcher.init surroundings.re2 surroundings.address
      (test.matchingRule.getD {}) with
  | none => (false, self)
  | some matcher =>
    let added := (matcher.responseMatcher surroundings.re2, test.securityTest)
    (true, ⟨surroundings.matchersOrder (self.responseMatchers ++ [added])⟩)

end PassiveAuditor

namespace cli

variable (surroundings : Surroundings) (flags : Flags)

/-- The loop over the security tests. This and what follows gives `none` where the program
    exits. -/
def addSecurityTests (env : RequestEnv) : List ConfiguredTest →
    SelectiveAuditor × PassiveAuditor → Option (SelectiveAuditor × PassiveAuditor)
  | [], auditors => some auditors
  | test :: tests, (selectiveAuditor, passiveAuditor) =>
    match test.generatorRule with
    | some rule => addSecurityTests env tests
        ((selectiveAuditor.addSecurityTest surroundings env rule test).2, passiveAuditor)
    | none =>
      if test.matchingRule.isNone then none
      else addSecurityTests env tests
        (selectiveAuditor, (passiveAuditor.addSecurityTest surroundings test).2)

/-- The auditors. Without a path to a configuration there are none, which is as if they had
    nothing to check. -/
def makeAuditors (env : RequestEnv) : Option (SelectiveAuditor × PassiveAuditor) :=
  if flags.checksConfigPath = [] then some ({}, {})
  else
    (util.loadCheckConfigs surroundings flags.checksConfigPath).bind fun tests =>
      addSecurityTests surroundings env tests
        (({} : SelectiveAuditor).addSecurityCheck
          (.responseTime ⟨flags.responseTimeMeasurements, flags.responseTimeThresholdMs⟩), {})

/-- The regular expressions in a flag. -/
def regexList (flag : Bytes) : List Bytes := if flag = [] then [] else splitString flag 44

/-- The hidden objects finder with its word list. -/
def makeObjectsFinder : HiddenObjectsFinder :=
  if flags.bruteforceWordlist = [] then {}
  else
    let loaded := ({} : HiddenObjectsFinder).loadWordlistFromFile surroundings.linesOrder
      (surroundings.readFile flags.bruteforceWordlist)
    let finder := { loaded with wordlist := surroundings.wordlistOrder loaded.wordlist }
    if flags.bruteforceExtensions = [] then finder
    else finder.loadExtensionsFromFile surroundings.linesOrder
      (surroundings.readFile flags.bruteforceExtensions)

/-- What the components are given. -/
def scanConfig (auditors : SelectiveAuditor × PassiveAuditor) : ScanConfig where
  includeRegexes := regexList flags.includeRegexList
  excludeRegexes := regexList flags.excludeRegexList
  checks := auditors.1.checks
  responseMatchers := auditors.2.responseMatchers
  wordlist := (makeObjectsFinder surroundings flags).wordlist
  extensions := (makeObjectsFinder surroundings flags).extensions

/-- The reporters that `InitReporting` makes. -/
def makeReporters (factory : ReporterFactory) : Option (List Reporter) :=
  if flags.reportType = [] then some []
  else
    match Plusfish.initReporting factory flags.reportType [] with
    | (true, reporters) => some reporters
    | (false, _) => none

/-- The requests of the file that a flag names. -/
def fileRequests : Option (List HttpRequest) :=
  if flags.requestsAsciipbFile = [] then some []
  else util.loadRequestsConfig surroundings flags.requestsAsciipbFile

/-- The loop over these requests. -/
def addRequests (env : ScanEnv) (protos : List HttpRequest) (scan : Scan) : Scan :=
  protos.foldl (fun scan proto => scan.addNewRequest env (Request.ofProto env.request proto)) scan

/-- The loop over the URLs of the command line. -/
def addUrls (env : ScanEnv) : List Bytes → Scan → Option Scan
  | [], scan => some scan
  | url :: urls, scan =>
    match scan.addUrl env url with
    | (true, scan) => addUrls env urls scan
    | (false, _) => none

/-- What `main` has set up when it calls `Run`. -/
structure Setup where
  httpClient : CurlHttpClient
  config : ScanConfig
  reporters : List Reporter
  loop : MainLoop

/-- The scan that the flags ask for. -/
def scanEnv (env : ScanEnv) : ScanEnv :=
  { env with
    maxAuditorRunners := flags.maxAuditorRunners
    hasAuditors := flags.checksConfigPath ≠ []
    hasObjectsFinder := flags.bruteforceWordlist ≠ [] }

/-- `main` up to the call of `Run`, from an HTTP client that has been initialized. -/
def main (env : ScanEnv) (factory : ReporterFactory) (httpClient : CurlHttpClient)
    (urls : List Bytes) : Option Setup :=
  (makeAuditors surroundings flags env.request).bind fun auditors =>
    (setDefaultHeaders flags.defaultHeaders httpClient).bind fun httpClient =>
      (makeReporters flags factory).bind fun reporters =>
        (fileRequests surroundings flags).bind fun protos =>
          if urls = [] ∧ protos = [] then none
          else
            let config := scanConfig surroundings flags auditors
            (addUrls (scanEnv flags env) urls (addRequests (scanEnv flags env) protos
              (.configured (scanEnv flags env) config))).map fun scan =>
                { httpClient, config, reporters, loop := { scan } }

end cli

end plusfish

import Plusfish.Crawler

open memory

namespace plusfish

namespace SecurityCheckRunner

/-- `SetNextCheck`, where there is a next check. -/
def setNextCheck (self : SecurityCheckRunner) : Option SecurityCheckRunner :=
  match self.nextChecks with
  | [] => none
  | check :: checks =>
    some { self with
      securityCheck := check
      nextChecks := checks
      requests := []
      finished := false
      requestsCompleted := 0 }

/-- The count of a callback. -/
def countCallback (self : SecurityCheckRunner) : SecurityCheckRunner :=
  let requestsCompleted := self.requestsCompleted + 1
  { self with
    requestsCompleted
    finished := if requestsCompleted = self.requests.length then true else self.finished }

end SecurityCheckRunner

namespace SelectiveAuditor

/-- `AddSecurityCheck`. The check that was last is linked to the new one. -/
def addSecurityCheck (self : SelectiveAuditor) (check : SecurityCheck) : SelectiveAuditor :=
  { self with checks := self.checks ++ [check] }

end SelectiveAuditor

namespace Scan

def setRunner (scan : Scan) (p : Nat) (runner : SecurityCheckRunner) : Scan :=
  { scan with runnerMem := scan.runnerMem.modify p fun _ => runner }

/-- What the issue callback that `main` sets does, where the runner has it. -/
def reportIssue (env : ScanEnv) (scan : Scan) (p req : Nat) : Scan :=
  let runner := scan.runnerAt p
  let request := deref scan.mem req
  if runner.issueCallback then
    let (_, mem, store) := scan.store.addIssue env.store scan.mem request.parentId
      runner.securityCheck.issueType runner.securityCheck.severity request
    { scan with mem, store }
  else scan

/-- What the metadata callback that `main` sets does. -/
def setRequestMeta (scan : Scan) (entry : Option (Int × Int)) : Scan :=
  match entry with
  | none => scan
  | some (requestId, value) =>
    { scan with
      store := (scan.store.addRequestMetadata requestId .averageApplicationTimeUsec value).2 }

section
variable (env : ScanEnv)

/-- The loop of `SecurityCheckRunner::Run`. -/
def scheduleRequests (p : Nat) (check : SecurityCheck) : List Nat → Scan → Bool × Scan
  | [], scan => (true, scan)
  | req :: reqs, scan =>
    let (accepted, scan) :=
      scan.scheduleWith env (.securityCheckRunner p check.canEvaluateInSerial) req
        (.securityCheckRunner p)
    -- For serial evaluation, a failed request is acceptable.
    if !accepted && !check.canEvaluateInSerial then (false, scan)
    else scheduleRequests p check reqs scan

/-- The requests of a check are made and handed to the runner. -/
def createRequests (scan : Scan) (p : Nat) : Bool × Scan :=
  let runner := scan.runnerAt p
  let (created, requests) :=
    runner.securityCheck.createRequests env.request (deref scan.mem runner.testedRequest)
  let (reqs, mem) := scan.mem.allocAll requests
  (created, { scan with mem }.setRunner p { runner with requests := runner.requests ++ reqs })

/-- `SecurityCheckRunner::Run`. -/
def run (scan : Scan) (p : Nat) : Bool × Scan :=
  let (created, scan) := scan.createRequests env p
  let runner := scan.runnerAt p
  let check := runner.securityCheck
  if !created then (false, scan)
  else if check.canEvaluateInSerial && check.evaluateSingle scan.store.getRequestMetadata
      (deref scan.mem runner.testedRequest) then (false, scan)
  else scheduleRequests env p check runner.requests scan

/-- The loop of `ScheduleNextCheck`, with the checks that come after the current one. -/
def scheduleChecks (p : Nat) (nextChecks : List SecurityCheck) (scan : Scan) : Bool × Scan :=
  let (done, scan) := scan.run env p
  if done then (true, scan)
  else
    match nextChecks with
    | [] => (false, scan)
    | _ :: nextChecks =>
      match (scan.runnerAt p).setNextCheck with
      | none => (false, scan)
      | some runner => scheduleChecks p nextChecks (scan.setRunner p runner)

/-- `SelectiveAuditor::ScheduleNextCheck`. -/
def scheduleNextCheck (scan : Scan) (p : Nat) : Bool × Scan :=
  scheduleChecks env p (scan.runnerAt p).nextChecks scan

def pushRunner (scan : Scan) (p : Nat) : Scan :=
  { scan with
    selectiveAuditor := { scan.selectiveAuditor with
      runners := scan.selectiveAuditor.runners ++ [p] } }

def eraseRunner (scan : Scan) (p : Nat) : Scan :=
  { scan with
    selectiveAuditor := { scan.selectiveAuditor with
      runners := scan.selectiveAuditor.runners.erase p } }

/-- `SelectiveAuditor::ScheduleFirst`. -/
def scheduleFirst (scan : Scan) (req : Nat) : Bool × Scan :=
  match scan.selectiveAuditor.checks with
  | [] => (false, scan)
  | check :: checks =>
    let (p, runnerMem) := scan.runnerMem.alloc
      { testedRequest := req
        securityCheck := check
        nextChecks := checks
        issueCallback := scan.selectiveAuditor.issueCallback }
    match { scan with runnerMem }.scheduleNextCheck env p with
    | (true, scan) => (true, scan.pushRunner p)
    | (false, scan) => (false, scan)

/-- The scrape callback, for every request of the runner. -/
def scrapeRequests (scan : Scan) (p : Nat) : Scan :=
  let runner := scan.runnerAt p
  if runner.requestsCompleted ≠ 0 && scan.selectiveAuditor.crawlerScrapeCb then
    runner.requests.foldl (fun scan req =>
      let (_, mem, store) := Crawler.scrape env scan.mem scan.store req
      { scan with mem, store }) scan
  else scan

/-- `SelectiveAuditor::FinishedCheckCb`. -/
def finishedCheckCb (scan : Scan) (p : Nat) : Scan :=
  let scan := scan.scrapeRequests env p
  match (scan.runnerAt p).setNextCheck with
  | none => scan.eraseRunner p
  | some runner =>
    match (scan.setRunner p runner).scheduleNextCheck env p with
    | (true, scan) => scan
    | (false, scan) => scan.eraseRunner p

/-- The evaluation in `SecurityCheckRunner::RequestCallback`. -/
def evaluateCallback (scan : Scan) (p req : Nat) : Scan :=
  let runner := scan.runnerAt p
  let check := runner.securityCheck
  if check.canEvaluateInSerial then
    if check.evaluateSingle scan.store.getRequestMetadata (deref scan.mem req) then
      scan.reportIssue env p req
    else scan
  else if runner.finished then
    let (positive, entry) :=
      check.evaluate scan.store.getRequestMetadata (runner.requests.map (deref scan.mem))
    let scan := scan.setRequestMeta entry
    if positive then scan.reportIssue env p req else scan
  else scan

/-- `SecurityCheckRunner::RequestCallback`, with the callback that `ScheduleFirst` sets. -/
def runnerCallback (scan : Scan) (p req : Nat) : Scan :=
  let scan := scan.setRunner p (scan.runnerAt p).countCallback
  let scan := scan.evaluateCallback env p req
  if (scan.runnerAt p).finished then scan.finishedCheckCb env p else scan

end

end Scan

end plusfish

import Plusfish.Audit.Runners

open memory transition

namespace plusfish

/-- What happens in the audits. A runner is given by its address. -/
inductive AuditEvent where
  /-- `Run` was called: the requests that it made, whether the tested request itself tests
      positive, and what it returned. -/
  | ran (p : Nat) (check : SecurityCheck) (originalPositive : Bool) (requests : List Nat)
      (scheduled : Bool)
  | calledBack (p req : Nat)
  /-- The check looked at a request and its response. -/
  | evaluated (p : Nat) (check : SecurityCheck) (request : Request)
      (getRequestMeta : RequestMetaCallback)
  /-- The metadata callback was invoked. -/
  | measured (p : Nat) (requestId value : Int)
  /-- The issue callback was invoked. -/
  | reported (p : Nat) (check : SecurityCheck) (req : Nat) (request : Request)
      (getRequestMeta : RequestMetaCallback)
  | stored (p : Nat)
  | erased (p : Nat)

/-- An event of a runner that is not part of a callback before its check is done. -/
def AuditEvent.isScheduling (p : Nat) : AuditEvent → Prop
  | .ran q _ _ _ _ | .stored q | .erased q => q = p
  | _ => False

namespace Scan

/-- What the evaluation of a callback results in: whether the responses test positive, and
    the metadata to store. -/
def evaluation (scan : Scan) (p req : Nat) : Bool × Option (Int × Int) :=
  let runner := scan.runnerAt p
  let check := runner.securityCheck
  if check.canEvaluateInSerial then
    (check.evaluateSingle scan.store.getRequestMetadata (deref scan.mem req), none)
  else if runner.finished then
    check.evaluate scan.store.getRequestMetadata (runner.requests.map (deref scan.mem))
  else (false, none)

theorem evaluateCallback_eq (env : ScanEnv) (scan : Scan) (p req : Nat) :
    scan.evaluateCallback env p req =
      if (scan.evaluation p req).1 then
        (scan.setRequestMeta (scan.evaluation p req).2).reportIssue env p req
      else scan.setRequestMeta (scan.evaluation p req).2 := by
  unfold evaluateCallback evaluation
  dsimp only
  split_ifs <;> first | rfl | contradiction

/-- The requests that the evaluation of a callback looks at. -/
def lookedAt (scan : Scan) (p req : Nat) : List Nat :=
  let runner := scan.runnerAt p
  if runner.securityCheck.canEvaluateInSerial then [req]
  else if runner.finished then runner.requests
  else []

theorem mem_lookedAt {scan : Scan} {p req q : Nat} (h : q ∈ scan.lookedAt p req) :
    q = req ∨ q ∈ (scan.runnerAt p).requests := by
  unfold lookedAt at h
  dsimp only at h
  split at h
  · exact Or.inl (List.mem_singleton.mp h)
  · split at h
    · exact Or.inr h
    · cases h

def evaluateCallbackEvents (scan : Scan) (p req : Nat) : List AuditEvent :=
  let runner := scan.runnerAt p
  let check := runner.securityCheck
  let (positive, entry) := scan.evaluation p req
  (scan.lookedAt p req).map (fun q =>
      .evaluated p check (deref scan.mem q) scan.store.getRequestMetadata) ++
    entry.toList.map (fun (requestId, value) => .measured p requestId value) ++
    if positive && runner.issueCallback then
      [.reported p check req (deref scan.mem req)
        (scan.setRequestMeta entry).store.getRequestMetadata]
    else []

def eraseRunnerEvents (scan : Scan) (p : Nat) : List AuditEvent :=
  if p ∈ scan.selectiveAuditor.runners then [.erased p] else []

section
variable (env : ScanEnv)

/-- Whether the tested request of a runner tests positive by itself when its check is run. -/
def originalPositive (scan : Scan) (p : Nat) : Bool :=
  let created := (scan.createRequests env p).2
  let runner := created.runnerAt p
  runner.securityCheck.evaluateSingle created.store.getRequestMetadata
    (deref created.mem runner.testedRequest)

def runEvent (scan : Scan) (p : Nat) : AuditEvent :=
  let runner := (scan.createRequests env p).2.runnerAt p
  .ran p runner.securityCheck (scan.originalPositive env p) runner.requests (scan.run env p).1

def scheduleChecksEvents (p : Nat) (nextChecks : List SecurityCheck) (scan : Scan) :
    List AuditEvent :=
  let (done, after) := scan.run env p
  scan.runEvent env p ::
    if done then []
    else
      match nextChecks with
      | [] => []
      | _ :: nextChecks =>
        match (after.runnerAt p).setNextCheck with
        | none => []
        | some runner => scheduleChecksEvents p nextChecks (after.setRunner p runner)

def scheduleNextCheckEvents (scan : Scan) (p : Nat) : List AuditEvent :=
  scheduleChecksEvents env p (scan.runnerAt p).nextChecks scan

def scheduleFirstEvents (scan : Scan) (req : Nat) : List AuditEvent :=
  match scan.selectiveAuditor.checks with
  | [] => []
  | check :: checks =>
    let p := scan.runnerMem.next
    let allocated := scan.allocRunner req check checks
    allocated.scheduleNextCheckEvents env p ++
      if (allocated.scheduleNextCheck env p).1 then [.stored p] else []

def finishedCheckCbEvents (scan : Scan) (p : Nat) : List AuditEvent :=
  let scan := scan.scrapeRequests env p
  match (scan.runnerAt p).setNextCheck with
  | none => scan.eraseRunnerEvents p
  | some runner =>
    let scan := scan.setRunner p runner
    let (done, after) := scan.scheduleNextCheck env p
    scan.scheduleNextCheckEvents env p ++ if done then [] else after.eraseRunnerEvents p

/-- The scan at the evaluation of a callback. -/
def counted (scan : Scan) (p : Nat) : Scan := scan.setRunner p (scan.runnerAt p).countCallback

theorem counted_runnerAt {scan : Scan} {p : Nat} (hp : p < scan.runnerMem.next) :
    (scan.counted p).runnerAt p = (scan.runnerAt p).countCallback :=
  runnerAt_setRunner scan hp _

def runnerCallbackEvents (scan : Scan) (p req : Nat) : List AuditEvent :=
  let evaluated := (scan.counted p).evaluateCallback env p req
  .calledBack p req :: (scan.counted p).evaluateCallbackEvents p req ++
    if (evaluated.runnerAt p).finished then evaluated.finishedCheckCbEvents env p else []

theorem scheduleChecksEvents_nil (p : Nat) (scan : Scan) :
    scheduleChecksEvents env p [] scan = [scan.runEvent env p] := by
  simp [scheduleChecksEvents]

theorem scheduleChecksEvents_cons (p : Nat) (check : SecurityCheck) (checks : List SecurityCheck)
    (scan : Scan) : scheduleChecksEvents env p (check :: checks) scan =
      scan.runEvent env p ::
        if (scan.run env p).1 then []
        else
          match ((scan.run env p).2.runnerAt p).setNextCheck with
          | none => []
          | some runner =>
            scheduleChecksEvents env p checks ((scan.run env p).2.setRunner p runner) := rfl

/-- What happens in one audit step. -/
def auditEvents (scan : Scan) : AuditOp → List AuditEvent
  | .scheduleFirst req => scan.scheduleFirstEvents env req
  | .requestCallback req transfer =>
    match (deref scan.mem req).requestHandler with
    | some (.securityCheckRunner p) => (scan.receive req transfer).runnerCallbackEvents env p req
    | _ => []

end

end Scan

/-- A scan with what has happened in its audits, the last event at the end. -/
structure AuditHistory where
  scan : Scan
  events : List AuditEvent := []

namespace AuditHistory

open Scan (AuditOp)

def step (env : ScanEnv) (history : AuditHistory) (op : AuditOp) : Option AuditHistory :=
  (history.scan.auditStep env op).map fun next =>
    ⟨next, history.events ++ history.scan.auditEvents env op⟩

end AuditHistory

end plusfish

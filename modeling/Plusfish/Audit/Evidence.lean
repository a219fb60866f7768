import Plusfish.Audit.GenericGenerator
import Plusfish.Audit.Outcomes
import Plusfish.Audit.RuleSemantics

open memory transition

namespace plusfish

/-- A request that is reported for a check with a rule satisfies the rule by itself. -/
def AuditEvent.Evident : AuditEvent → Prop
  | .reported _ (.generic check) _ request getRequestMeta =>
    ∀ matcher, check.matcher = some matcher → matcher.matchSingle getRequestMeta request = true
  | _ => True

theorem AuditEvent.isScheduling.evident {p : Nat} {event : AuditEvent}
    (h : event.isScheduling p) : event.Evident := by
  cases event with
  | reported => cases h
  | _ => trivial

namespace Scan

/-- Where the evaluation of a callback looks at all the requests of a check and one of them
    satisfies the rule, so does the request that was called back. -/
def LastMatches (scan : Scan) (p req : Nat) : Prop :=
  ∀ check matcher, (scan.runnerAt p).securityCheck = .generic check →
    check.matcher = some matcher → check.securityTest.allowSerialEvaluation = false →
    (scan.runnerAt p).issueCallback = true → (scan.runnerAt p).finished = true →
    (∃ q ∈ (scan.runnerAt p).requests,
      matcher.matchSingle scan.store.getRequestMetadata (deref scan.mem q) = true) →
    matcher.matchSingle scan.store.getRequestMetadata (deref scan.mem req) = true

/-- The issue callback is invoked where the runner has it and its check tests positive. -/
theorem reported_mem_evaluateCallbackEvents {scan : Scan} {p req p' q : Nat}
    {check : SecurityCheck} {request : Request} {getRequestMeta : RequestMetaCallback} :
    .reported p' check q request getRequestMeta ∈ scan.evaluateCallbackEvents p req ↔
      ((scan.evaluation p req).1 = true ∧ (scan.runnerAt p).issueCallback = true) ∧ p' = p ∧
        check = (scan.runnerAt p).securityCheck ∧ q = req ∧ request = deref scan.mem req ∧
        getRequestMeta =
          (scan.setRequestMeta (scan.evaluation p req).2).store.getRequestMetadata := by
  simp [evaluateCallbackEvents]

/-- What the evaluation of a callback results in for a check that has a rule or not. -/
theorem evaluation_of_generic {scan : Scan} {check : GenericSecurityCheck} {p : Nat}
    (hcheck : (scan.runnerAt p).securityCheck = .generic check) (req : Nat) :
    scan.evaluation p req =
      (if check.securityTest.allowSerialEvaluation then
        check.evaluateSingle scan.store.getRequestMetadata (deref scan.mem req)
      else (scan.runnerAt p).finished && check.evaluate scan.store.getRequestMetadata
        ((scan.runnerAt p).requests.map (deref scan.mem)), none) := by
  simp only [evaluation, hcheck, SecurityCheck.canEvaluateInSerial, SecurityCheck.evaluateSingle,
    SecurityCheck.evaluate]
  split_ifs with hserial hfinished
  · rfl
  · rw [hfinished, Bool.true_and]
  · rw [Bool.eq_false_iff.mpr hfinished, Bool.false_and]

theorem evaluate_iff {check : GenericSecurityCheck} {matcher : ResponseMatcher}
    (hmatcher : check.matcher = some matcher) (scan : Scan) (reqs : List Nat) :
    check.evaluate scan.store.getRequestMetadata (reqs.map (deref scan.mem)) = true ↔
      ∃ q ∈ reqs, matcher.matchSingle scan.store.getRequestMetadata (deref scan.mem q) = true := by
  simp [GenericSecurityCheck.evaluate, hmatcher, ResponseMatcher.matchRequests]

theorem evident_evaluateCallbackEvents_iff {scan : Scan} {p req : Nat} :
    (∀ event ∈ scan.evaluateCallbackEvents p req, event.Evident) ↔ scan.LastMatches p req := by
  constructor
  · intro hevident check matcher hcheck hmatcher hbatch hcallback hfinished hmatch
    have hevaluation := evaluation_of_generic hcheck req
    rw [hbatch, if_neg Bool.false_ne_true, hfinished, Bool.true_and,
      (evaluate_iff hmatcher scan _).mpr hmatch] at hevaluation
    have hreported : .reported p (.generic check) req (deref scan.mem req)
        scan.store.getRequestMetadata ∈ scan.evaluateCallbackEvents p req := by
      rw [reported_mem_evaluateCallbackEvents, hevaluation, hcheck]
      exact ⟨⟨rfl, hcallback⟩, rfl, rfl, rfl, rfl, rfl⟩
    exact hevident _ hreported matcher hmatcher
  · intro hlast event hmem
    cases event with
    | reported p' check q request getRequestMeta =>
      obtain ⟨⟨hpositive, hcallback⟩, rfl, rfl, rfl, rfl, rfl⟩ :=
        reported_mem_evaluateCallbackEvents.mp hmem
      cases hcheck : (scan.runnerAt p').securityCheck with
      | responseTime => trivial
      | generic check =>
        intro matcher hmatcher
        rw [evaluation_of_generic hcheck q] at hpositive ⊢
        change matcher.matchSingle scan.store.getRequestMetadata _ = true
        dsimp only at hpositive
        split at hpositive
        · simpa [GenericSecurityCheck.evaluateSingle, hmatcher] using hpositive
        · rename_i hbatch
          obtain ⟨hfinished, hmatch⟩ := Bool.and_eq_true_iff.mp hpositive
          exact hlast check matcher hcheck hmatcher (by simpa using hbatch) hcallback hfinished
            ((evaluate_iff hmatcher scan _).mp hmatch)
    | _ => trivial

end Scan

namespace AuditHistory

open Scan (AuditOp)

/-- The callback, where the step is one, is of a request that satisfies the rule where one of
    the requests of a check evaluated in batch does and the check is finished. -/
def LastMatches (history : AuditHistory) : AuditOp → Prop
  | .scheduleFirst _ => True
  | .requestCallback req transfer =>
    ∀ p, (deref history.scan.mem req).requestHandler = some (.securityCheckRunner p) →
      ((history.scan.receive req transfer).counted p).LastMatches p req

variable {env : ScanEnv}

theorem step_evident_iff {history next : AuditHistory} {op : AuditOp}
    (hstep : history.step env op = some next) :
    (∀ event ∈ next.events, event.Evident) ↔
      (∀ event ∈ history.events, event.Evident) ∧ history.LastMatches op := by
  rcases step_cases hstep with ⟨req, events, rfl, houtcome, hevents⟩ |
    ⟨req, transfer, p, events, rfl, _, hhandler, houtcome, hevents⟩
  · rw [hevents, List.forall_mem_append]
    have hscheduling (event : AuditEvent) (hmem : event ∈ events) : event.Evident :=
      (houtcome.isScheduling event hmem).evident
    exact and_congr_right fun _ => iff_of_true hscheduling trivial
  · rw [hevents, List.forall_mem_append, List.cons_append, List.forall_mem_cons,
      List.forall_mem_append, Scan.evident_evaluateCallbackEvents_iff]
    have hscheduling (event : AuditEvent) (hmem : event ∈ events) : event.Evident :=
      (houtcome.isScheduling event hmem).evident
    refine and_congr_right fun _ => ⟨fun h p' hp' => ?_, fun h => ?_⟩
    · rw [hhandler] at hp'
      cases hp'
      exact h.2.1
    · exact ⟨trivial, h p hhandler, hscheduling⟩

/-- In a run, every request that is reported for a check with a rule satisfies the rule by
    itself exactly where each callback that finishes a check evaluated in batch, with a request
    among those of the check that satisfies the rule, is of such a request. -/
theorem evident_iff_lastMatches {start last : AuditHistory} {ops : List AuditOp}
    (hevents : start.events = []) (hrun : transition.run (step env) start ops = some last) :
    (∀ event ∈ last.events, event.Evident) ↔ Along (step env) LastMatches start ops := by
  have hiff : (∀ event ∈ last.events, event.Evident) ↔
      (∀ event ∈ start.events, event.Evident) ∧ Along (step env) LastMatches start ops :=
    run_iff_along (I := fun _ => True) (P := fun history => ∀ event ∈ history.events, event.Evident)
      (fun _ _ _ _ hstep => ⟨trivial, step_evident_iff hstep⟩) trivial hrun
  rw [hiff, hevents]
  exact and_iff_right fun event hmem => by cases hmem

/-- The requests that are reported for checks with a rule, and whether they satisfy the rule. -/
def reports (history : AuditHistory) : List (Nat × Bool) :=
  history.events.filterMap fun
    | .reported _ (.generic check) req request getRequestMeta =>
      check.matcher.map fun matcher => (req, matcher.matchSingle getRequestMeta request)
    | _ => none

theorem not_evident_of_mem_reports {history : AuditHistory} {req : Nat}
    (hmem : (req, false) ∈ history.reports) : ¬ ∀ event ∈ history.events, event.Evident := by
  intro hevident
  obtain ⟨event, hevent, heq⟩ := List.mem_filterMap.mp hmem
  cases event with
  | reported p check q request getRequestMeta =>
    cases check with
    | responseTime => cases heq
    | generic check =>
      obtain ⟨matcher, hmatcher, heq⟩ := Option.map_eq_some_iff.mp heq
      have hmatch := hevident _ hevent matcher hmatcher
      rw [hmatch] at heq
      cases heq
  | _ => cases heq

end AuditHistory

namespace Scan

/-- A rule that pages with a database error satisfy. -/
def errorRule : MatchRule :=
  { condition := [{ targetField := some .responseBody
                    match_ := [GenericResponseMatcher.containing "SQL" false] }] }

/-- Two payloads for every path element. -/
def quoteRule : GeneratorRule :=
  { method := [.setValue]
    encoding := [.none]
    target := [{ typeField := some .pathElements }]
    payloadField := some { arg := [ascii "q", ascii "qq"] } }

def sqlCheck (serial : Bool) : SecurityCheck :=
  .generic
    { securityTest := { issueType := .sqlInjection, allowSerialEvaluation := serial }
      generator := GenericGenerator.generator (plainEnv true).request quoteRule
      matcher := (GenericResponseMatcher.init GenericResponseMatcher.literalRe2 id errorRule).map
        (·.responseMatcher GenericResponseMatcher.literalRe2) }

def pageOf (body : String) : Transfer :=
  { response := { proto := { codeField := some .ok, responseBodyField := some (ascii body) } } }

end Scan

namespace AuditHistory

open Scan (oneAudit plainEnv sqlCheck pageOf)

/-- The first of two requests finds an error, and the second one is called back last. -/
def errorFirst : List Scan.AuditOp :=
  [.scheduleFirst 0, .requestCallback 1 (pageOf "SQL error"), .requestCallback 2 (pageOf "ok")]

theorem errorFirst_reports :
    (transition.run (step (plainEnv true)) { scan := oneAudit [sqlCheck false] } errorFirst).map
      reports = some [(2, false)] := by decide +kernel

theorem evident_iff_lastMatches_errorFirst : ∃ last,
    transition.run (step (plainEnv true)) { scan := oneAudit [sqlCheck false] } errorFirst =
      some last ∧
    ((∀ event ∈ last.events, event.Evident) ↔
      Along (step (plainEnv true)) LastMatches { scan := oneAudit [sqlCheck false] }
        errorFirst) := by
  obtain ⟨last, hrun, _⟩ := Option.map_eq_some_iff.mp errorFirst_reports
  exact ⟨last, hrun, evident_iff_lastMatches rfl hrun⟩

/-- The request that is reported is the one that was called back last, whose page has no
    error. -/
theorem lastCalledBack_reported : ∃ last,
    transition.run (step (plainEnv true)) { scan := oneAudit [sqlCheck false] } errorFirst =
      some last ∧
    (2, false) ∈ last.reports ∧ ¬ ∀ event ∈ last.events, event.Evident := by
  obtain ⟨last, hrun, hreports⟩ := Option.map_eq_some_iff.mp errorFirst_reports
  have hmem : (2, false) ∈ last.reports := by simp [hreports]
  exact ⟨last, hrun, hmem, not_evident_of_mem_reports hmem⟩

end AuditHistory

end plusfish

import Plusfish.Audit.RuleSemantics
import Plusfish.DataStore.Issues
import Plusfish.Scan

open memory

namespace plusfish

/-- A request without the parts that no rule looks at. -/
def Request.seen (self : Request) : Request := { self with requestHandler := none, issues := [] }

theorem Request.seen_withTransfer (self : Request) (transfer : Transfer) :
    (self.withTransfer transfer).seen = self.seen.withTransfer transfer := by
  simp only [seen, withTransfer]
  split <;> split <;> rfl

namespace ConditionMatcher

variable (re2 : RE2) (getRequestMeta : RequestMetaCallback) (request : Request)

theorem matchAll_seen (content : Option Bytes) (matchers : List Matcher) :
    matchAll re2 getRequestMeta request.seen content matchers =
      matchAll re2 getRequestMeta request content matchers := by
  induction matchers with
  | nil => rfl
  | cons matcher matchers ih =>
    cases content with
    | none => rfl
    | some text =>
      have hmatch : matcher.matchAny re2 getRequestMeta request.seen text =
          matcher.matchAny re2 getRequestMeta request text := by cases matcher <;> rfl
      simp only [matchAll, hmatch, ih]

end ConditionMatcher

namespace GenericResponseMatcher

variable (re2 : RE2) (self : GenericResponseMatcher) (getRequestMeta : RequestMetaCallback)
  (request : Request)

theorem matchSingle_seen : self.matchSingle re2 getRequestMeta request.seen =
    self.matchSingle re2 getRequestMeta request := by
  have hconditions (response : Response) (entries : List (Nat × ConditionMatcher × _)) :
      matchConditions re2 getRequestMeta request.seen response entries =
        matchConditions re2 getRequestMeta request response entries := by
    induction entries with
    | nil => rfl
    | cons entry entries ih =>
      obtain ⟨_, matcher, condition⟩ := entry
      have hsearch : searchString request.seen response condition =
          searchString request response condition := rfl
      unfold matchConditions ConditionMatcher.match_
      rw [hsearch]
      cases searchString request response condition with
      | none => rfl
      | some content =>
        dsimp only
        rw [ConditionMatcher.matchAll_seen, ih]
  have hresponse : request.seen.response = request.response := rfl
  simp only [matchSingle, hresponse, hconditions]

end GenericResponseMatcher

namespace GenericSecurityCheck

/-- The check of a rule. -/
def ofRule (re2 : RE2) (address : Nat → Nat) (rule : MatchRule) (generator : Generator)
    (securityTest : SecurityTest) : GenericSecurityCheck where
  securityTest
  generator
  matcher := (GenericResponseMatcher.init re2 address rule).map (·.responseMatcher re2)

section
variable (re2 : RE2) (address : Nat → Nat) (rule : MatchRule) (generator : Generator)
  (securityTest : SecurityTest) (getRequestMeta : RequestMetaCallback)

theorem evaluateSingle_ofRule (request : Request) :
    (ofRule re2 address rule generator securityTest).evaluateSingle getRequestMeta request =
      (GenericResponseMatcher.init re2 address rule).any
        (·.matchSingle re2 getRequestMeta request) := by
  simp only [evaluateSingle, ofRule, Option.any_map]
  rfl

/-- What is evaluated in batch is what the loop of `Match` computes. -/
theorem evaluate_ofRule (requests : List Request) :
    (ofRule re2 address rule generator securityTest).evaluate getRequestMeta requests =
      (GenericResponseMatcher.init re2 address rule).any
        (·.matchRequests re2 getRequestMeta requests) := by
  simp only [evaluate, ofRule, Option.any_map,
    GenericResponseMatcher.matchRequests_responseMatcher]

/-- A rule is evaluated in batch as it is on the single requests. -/
theorem evaluate_ofRule_eq_any (requests : List Request) :
    (ofRule re2 address rule generator securityTest).evaluate getRequestMeta requests =
      requests.any ((ofRule re2 address rule generator securityTest).evaluateSingle
        getRequestMeta) := by
  have hsingle := funext fun request =>
    evaluateSingle_ofRule re2 address rule generator securityTest getRequestMeta request
  rw [evaluate_ofRule, hsingle]
  cases GenericResponseMatcher.init re2 address rule with
  | none => simp
  | some matcher => exact GenericResponseMatcher.matchRequests_eq_any re2 matcher getRequestMeta _

theorem evaluateSingle_seen (request : Request) :
    (ofRule re2 address rule generator securityTest).evaluateSingle getRequestMeta request.seen =
      (ofRule re2 address rule generator securityTest).evaluateSingle getRequestMeta request := by
  simp only [evaluateSingle_ofRule, GenericResponseMatcher.matchSingle_seen]

end

end GenericSecurityCheck

theorem DataStore.addIssueDetails_seen (env : StoreEnv) (mem : Heap Request) (store : DataStore)
    (requestId : Int) (issue : IssueDetails) (q : Nat) :
    (deref (store.addIssueDetails env mem requestId issue).2.1 q).seen = (deref mem q).seen := by
  have houtcome := addIssueDetails_outcome env mem store requestId issue
  generalize store.addIssueDetails env mem requestId issue = result at houtcome
  cases houtcome with
  | refused => rfl
  | stored => exact deref_modify_keeps Request.seen mem _ q fun _ => rfl

/-- A check that is evaluated on single requests, whatever their handlers and issues are. -/
structure GenericSecurityCheck.EvaluatesSingly (check : GenericSecurityCheck) : Prop where
  batch : ∀ getRequestMeta requests, check.evaluate getRequestMeta requests =
    requests.any (check.evaluateSingle getRequestMeta)
  seen : ∀ getRequestMeta request, check.evaluateSingle getRequestMeta request.seen =
    check.evaluateSingle getRequestMeta request

theorem GenericSecurityCheck.ofRule_evaluatesSingly (re2 : RE2) (address : Nat → Nat)
    (rule : MatchRule) (generator : Generator) (securityTest : SecurityTest) :
    (ofRule re2 address rule generator securityTest).EvaluatesSingly :=
  ⟨evaluate_ofRule_eq_any re2 address rule generator securityTest,
    evaluateSingle_seen re2 address rule generator securityTest⟩

/-- The check of a rule, evaluated in serial or in batch. -/
def SecurityCheck.ofRule (re2 : RE2) (address : Nat → Nat) (rule : MatchRule)
    (generator : Generator) (securityTest : SecurityTest) (serial : Bool) : SecurityCheck :=
  .generic (GenericSecurityCheck.ofRule re2 address rule generator
    { securityTest with allowSerialEvaluation := serial })

end plusfish

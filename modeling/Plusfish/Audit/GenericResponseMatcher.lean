import Plusfish.Audit.Matchers

open ordered_map

namespace plusfish

open MatchRule (Condition)

structure ConditionMatcher where
  matchers : List Matcher := []
deriving DecidableEq

namespace ConditionMatcher

/-- The loop of `ConditionMatcher::Match`. -/
def matchAll (re2 : RE2) (getRequestMeta : RequestMetaCallback) (request : Request)
    (content : Option Bytes) : List Matcher → Bool
  | [] => true
  | matcher :: matchers =>
    match content with
    -- Without content the first matcher decides for all of them.
    | none => matcher.negative
    | some text =>
      if matcher.matchAny re2 getRequestMeta request text = matcher.negative then false
      else matchAll re2 getRequestMeta request content matchers

def match_ (re2 : RE2) (self : ConditionMatcher) (getRequestMeta : RequestMetaCallback)
    (request : Request) (content : Option Bytes) : Bool :=
  matchAll re2 getRequestMeta request content self.matchers

end ConditionMatcher

/-- A `GenericResponseMatcher` object after `Init`. The condition matchers are the keys of a
    map: it is iterated in the order of their addresses. -/
structure GenericResponseMatcher where
  matchers : OrderedMap Nat (ConditionMatcher × Condition) := []
deriving DecidableEq

namespace GenericResponseMatcher

/-- The matcher of a condition, where all of its matchers can be made and prepared. -/
def conditionMatcher (re2 : RE2) (condition : Condition) : Option ConditionMatcher :=
  (condition.match_.mapM fun m => (getMatcher m).bind (·.prepare re2)).map ConditionMatcher.mk

/-- The loop of `GenericResponseMatcher::Init`. The matcher of the i-th condition is allocated
    at the i-th address. -/
def addConditions (re2 : RE2) (address : Nat → Nat) :
    Nat → List Condition → GenericResponseMatcher → Option GenericResponseMatcher
  | _, [], self => some self
  | i, condition :: conditions, self =>
    (conditionMatcher re2 condition).bind fun matcher =>
      addConditions re2 address (i + 1) conditions
        { self with matchers := emplace self.matchers (address i) (matcher, condition) }

/-- A matcher with a rule, where `Init` returns true. -/
def init (re2 : RE2) (address : Nat → Nat) (rule : MatchRule) : Option GenericResponseMatcher :=
  addConditions re2 address 0 rule.condition {}

/-- What a condition is matched against, and nothing where its target is not implemented. The
    value of a header that is not present is absent. -/
def searchString (request : Request) (response : Response) (condition : Condition) :
    Option (Option Bytes) :=
  match condition.target with
  | .responseBody => some (some response.body)
  | .responseHeaderValue => some (response.getHeader condition.field)
  | .requestUrl => some (some request.url)
  | .unspecified => none

/-- The loop of `GenericResponseMatcher::MatchSingle`. -/
def matchConditions (re2 : RE2) (getRequestMeta : RequestMetaCallback) (request : Request)
    (response : Response) : List (Nat × ConditionMatcher × Condition) → Bool
  | [] => true
  | (_, matcher, condition) :: entries =>
    match searchString request response condition with
    | none => false
    | some content =>
      if matcher.match_ re2 getRequestMeta request content then
        matchConditions re2 getRequestMeta request response entries
      else false

def matchSingle (re2 : RE2) (self : GenericResponseMatcher) (getRequestMeta : RequestMetaCallback)
    (request : Request) : Bool :=
  match request.response with
  | none => false
  | some response => matchConditions re2 getRequestMeta request response self.matchers

/-- `GenericResponseMatcher::Match`, which looks at all the requests. -/
def matchRequests (re2 : RE2) (self : GenericResponseMatcher)
    (getRequestMeta : RequestMetaCallback) (requests : List Request) : Bool :=
  requests.foldl (fun matched request =>
    if self.matchSingle re2 getRequestMeta request then true else matched) false

/-- The matcher as a `ResponseMatcherInterface`. -/
def responseMatcher (re2 : RE2) (self : GenericResponseMatcher) : ResponseMatcher where
  matchSingle := self.matchSingle re2

end GenericResponseMatcher

end plusfish

import Plusfish.Audit.SecurityCheck

namespace plusfish

namespace MatchRule

inductive Method where
  | none | contains | regex | equals | timing | prefixed
deriving DecidableEq, Repr

inductive Target where
  | unspecified | responseBody | responseHeaderValue | requestUrl
deriving DecidableEq, Repr

structure Timing where
  minDurationMsField : Option UInt32 := .none
  maxDurationMsField : Option UInt32 := .none
deriving DecidableEq

structure Match where
  methodField : Option Method := .none
  value : List Bytes := []
  caseInsensitiveField : Option Bool := .none
  negativeMatchField : Option Bool := .none
  timingField : Option Timing := .none
deriving DecidableEq

structure Condition where
  targetField : Option Target := .none
  match_ : List Match := []
  fieldField : Option Bytes := .none
deriving DecidableEq

namespace Timing

def minDurationMs (timing : Timing) : UInt32 := timing.minDurationMsField.getD 0
def maxDurationMs (timing : Timing) : UInt32 := timing.maxDurationMsField.getD 0

end Timing

namespace Match

def method (m : Match) : Method := m.methodField.getD .none
def caseInsensitive (m : Match) : Bool := m.caseInsensitiveField.getD false
def negativeMatch (m : Match) : Bool := m.negativeMatchField.getD false
def hasTiming (m : Match) : Bool := m.timingField.isSome
def timing (m : Match) : Timing := m.timingField.getD {}

end Match

namespace Condition

def target (condition : Condition) : Target := condition.targetField.getD .unspecified
def field (condition : Condition) : Bytes := condition.fieldField.getD []

end Condition

end MatchRule

/-- The conditions of a rule are treated as an and. -/
structure MatchRule where
  condition : List MatchRule.Condition := []
deriving DecidableEq

/-- The regular expression library, which is not part of the repository. -/
structure RE2 where
  ok : (regex : Bytes) → Bool
  partialMatch : (text regex : Bytes) → Bool

open MatchRule (Match)

namespace ContainsMatcher

def matchSingle (match_ : Match) (searchString content : Bytes) : Bool :=
  if match_.caseInsensitive then strCaseStr content searchString else strStr content searchString

end ContainsMatcher

namespace EqualsMatcher

def matchSingle (match_ : Match) (searchString content : Bytes) : Bool :=
  if match_.caseInsensitive then strCaseEq searchString content else strEq searchString content

end EqualsMatcher

namespace PrefixMatcher

def matchSingle (match_ : Match) (searchString content : Bytes) : Bool :=
  if match_.caseInsensitive then strNCaseEq content searchString searchString.length
  else strNEq content searchString searchString.length

end PrefixMatcher

namespace RegexMatcher

def kCaseInsensitivePrefix : Bytes := ascii "(?i)"

/-- The regular expression that `Prepare` makes of a value. -/
def regexOf (match_ : Match) (reString : Bytes) : Bytes :=
  if match_.caseInsensitive && reString.take 4 ≠ kCaseInsensitivePrefix then
    kCaseInsensitivePrefix ++ reString
  else reString

end RegexMatcher

namespace TimingMatcher

/-- The average time that is looked up for a request: the one of its parent. -/
def averageApplicationTimeUsec? (getRequestMeta : RequestMetaCallback) (request : Request) :
    Option Int :=
  getRequestMeta request.parentId .averageApplicationTimeUsec

def matchAny (match_ : Match) (getRequestMeta : RequestMetaCallback) (request : Request) : Bool :=
  let averageMs := match averageApplicationTimeUsec? getRequestMeta request with
    | some averageApplicationTimeUsec => averageApplicationTimeUsec.tdiv 1000
    | none => 0
  let minDurationMs := (match_.timing.minDurationMs.toNat : Int) + averageMs
  let maxDurationMs := (match_.timing.maxDurationMs.toNat : Int) + averageMs
  let durationMs := (request.proto.clientTimeApplicationUsec.getD 0).tdiv 1000
  durationMs > minDurationMs && durationMs < maxDurationMs

end TimingMatcher

/-- The implementations of `MatcherInterface`. A regex matcher has the expressions that it
    has compiled. -/
inductive Matcher where
  | contains (match_ : Match)
  | regex (match_ : Match) (matchRes : List Bytes)
  | prefixed (match_ : Match)
  | equals (match_ : Match)
  | timing (match_ : Match)
deriving DecidableEq

/-- `MatcherFactory::GetMatcher`. -/
def getMatcher (match_ : Match) : Option Matcher :=
  match match_.method with
  | .contains => some (.contains match_)
  | .regex => some (.regex match_ [])
  | .prefixed => some (.prefixed match_)
  | .equals => some (.equals match_)
  | .timing => some (.timing match_)
  | .none => none

namespace Matcher

def negative : Matcher → Bool
  | contains match_ | regex match_ _ | prefixed match_ | equals match_ | timing match_ =>
    match_.negativeMatch

/-- `Prepare`, with the matcher after it where it returns true. -/
def prepare (re2 : RE2) : Matcher → Option Matcher
  | contains match_ => if match_.value = [] then none else some (contains match_)
  | prefixed match_ => if match_.value = [] then none else some (prefixed match_)
  | equals match_ => if match_.value = [] then none else some (equals match_)
  | regex match_ matchRes =>
    let regexes := match_.value.map (RegexMatcher.regexOf match_)
    if regexes.all re2.ok then some (regex match_ (matchRes ++ regexes)) else none
  | timing match_ =>
    if match_.hasTiming && match_.timing.minDurationMs < match_.timing.maxDurationMs then
      some (timing match_)
    else none

def matchAny (re2 : RE2) (getRequestMeta : RequestMetaCallback) (request : Request)
    (content : Bytes) : Matcher → Bool
  | contains match_ => match_.value.any (ContainsMatcher.matchSingle match_ · content)
  | prefixed match_ => match_.value.any (PrefixMatcher.matchSingle match_ · content)
  | equals match_ => match_.value.any (EqualsMatcher.matchSingle match_ · content)
  | regex _ matchRes => matchRes.any (re2.partialMatch content)
  | timing match_ => TimingMatcher.matchAny match_ getRequestMeta request

end Matcher

end plusfish

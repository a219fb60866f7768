import Plusfish.Request

namespace plusfish

/-- `GetRequestMetadata` of the datastore, as a callback. -/
abbrev RequestMetaCallback := Int → MetaDataType → Option Int

/-- A `ResponseMatcherInterface`, given by what it says about a single request. Timing
    matchers look up the metadata of requests. -/
structure ResponseMatcher where
  matchSingle : RequestMetaCallback → Request → Bool

def ResponseMatcher.matchRequests (self : ResponseMatcher) (getRequestMeta : RequestMetaCallback)
    (requests : List Request) : Bool :=
  requests.any (self.matchSingle getRequestMeta)

/-- A `GeneratorInterface`, given by the requests that it adds to the vector. -/
structure Generator where
  generate : Request → List Request

/-- The parts of a `SecurityTest` message that its check reads. -/
structure SecurityTest where
  issueType : IssueDetails.IssueType := .invalid
  severity : Severity := .unknown
  allowSerialEvaluation : Bool := false

structure GenericSecurityCheck where
  securityTest : SecurityTest
  generator : Generator
  matcher : Option ResponseMatcher

structure ResponseTimeCheck where
  numberRequestsToCreate : Int
  maxAverageResponseTimeMs : Int

/-- The implementations of `SecurityCheckInterface`. -/
inductive SecurityCheck where
  | generic (check : GenericSecurityCheck)
  | responseTime (check : ResponseTimeCheck)

namespace GenericSecurityCheck

def createRequests (self : GenericSecurityCheck) (req : Request) : Bool × List Request :=
  let requests := self.generator.generate req
  (!requests.isEmpty, requests)

def evaluate (self : GenericSecurityCheck) (getRequestMeta : RequestMetaCallback)
    (requests : List Request) : Bool :=
  self.matcher.any (·.matchRequests getRequestMeta requests)

def evaluateSingle (self : GenericSecurityCheck) (getRequestMeta : RequestMetaCallback)
    (request : Request) : Bool :=
  self.matcher.any (·.matchSingle getRequestMeta request)

end GenericSecurityCheck

namespace ResponseTimeCheck

def createRequests (env : RequestEnv) (self : ResponseTimeCheck) (req : Request) :
    Bool × List Request :=
  (true, List.replicate self.numberRequestsToCreate.toNat
    { Request.ofProto env req.proto with parentId := req.id })

/-- The sum divided by the number of requests, which makes the sum unsigned, and the
    quotient back in an `int64`. -/
def averageDurationUsec (requests : List Request) : Int :=
  let durationSumUsec := (requests.map (·.proto.clientTimeApplicationUsec.getD 0)).sum
  (durationSumUsec % 2 ^ 64 / requests.length).bmod (2 ^ 64)

/-- Whether the server is slow, and the metadata to store: the id it is stored under
    and the value. -/
def evaluate (self : ResponseTimeCheck) (requests : List Request) : Bool × (Int × Int) :=
  let averageDurationUsec := averageDurationUsec requests
  (averageDurationUsec.tdiv 1000 > self.maxAverageResponseTimeMs,
    ((requests.head?.map (·.parentId)).getD kInvalidId, averageDurationUsec))

end ResponseTimeCheck

namespace SecurityCheck

def issueType : SecurityCheck → IssueDetails.IssueType
  | .generic check => check.securityTest.issueType
  | .responseTime _ => .slowServer

def severity : SecurityCheck → Severity
  | .generic check => check.securityTest.severity
  | .responseTime _ => .minimal

def canEvaluateInSerial : SecurityCheck → Bool
  | .generic check => check.securityTest.allowSerialEvaluation
  | .responseTime _ => false

/-- The requests whose responses a check needs, and whether it made any. -/
def createRequests (env : RequestEnv) (self : SecurityCheck) (req : Request) :
    Bool × List Request :=
  match self with
  | .generic check => check.createRequests req
  | .responseTime check => check.createRequests env req

/-- Whether the responses test positive, and the metadata to store on the way. -/
def evaluate (self : SecurityCheck) (getRequestMeta : RequestMetaCallback)
    (requests : List Request) : Bool × Option (Int × Int) :=
  match self with
  | .generic check => (check.evaluate getRequestMeta requests, none)
  | .responseTime check =>
    let (slow, entry) := check.evaluate requests
    (slow, some entry)

def evaluateSingle (self : SecurityCheck) (getRequestMeta : RequestMetaCallback)
    (request : Request) : Bool :=
  match self with
  | .generic check => check.evaluateSingle getRequestMeta request
  | .responseTime _ => false

end SecurityCheck

end plusfish

import Mathlib.Data.List.Dedup
import Plusfish.Library.OrderedMap
import Plusfish.Response

open ordered_map

namespace plusfish

/-- A parsed URL, given by what its accessors return. -/
structure GURL where
  isValid : Bool
  host : Bytes
  effectiveIntPort : Int
  schemeIsSecure : Bool
  path : Bytes
  hasQuery : Bool
  query : Bytes
deriving DecidableEq

/-- What building a request depends on: the URL library, which is not part of the
    repository, and the user agent flag. -/
structure RequestEnv where
  gurl : Bytes → GURL
  resolve : GURL → Bytes → GURL
  userAgent : Bytes

/-- The implementations of `RequestHandlerInterface`. A security check runner is
    referred to by its address. -/
inductive RequestHandler where
  | crawler
  | securityCheckRunner (address : Nat)
  | notFoundDetector
  | hiddenObjectsFinder
deriving DecidableEq, Repr

/-- The id of a request that is not in the datastore. -/
def kInvalidId : Int := -1

/-- The message that replaces a response body that is not kept. -/
def kTruncatedResponseMessage : Bytes := ascii "[truncated by plusfish]"

/-- A `Request` object. The origin is the address of another request. -/
structure Request where
  id : Int := kInvalidId
  parentId : Int := kInvalidId
  googleUrl : Option GURL := none
  schemeCache : Bytes := []
  url : Bytes := []
  rawResponse : Bytes := []
  response : Option Response := none
  proto : HttpRequest := {}
  requestHandler : Option RequestHandler := none
  origin : Option Nat := none
  issues : OrderedMap IssueDetails.IssueType (List IssueDetails) := []
deriving DecidableEq

/-- Whether two field lists are of one length and their names, taken together, are
    as many different ones as that length. -/
def fieldNamesEqual (one two : List HttpRequest.RequestField) : Bool :=
  if one.length ≠ two.length then false
  else (one.map (·.name) ++ two.map (·.name)).dedup.length == one.length

namespace Request

def urlIsValid (self : Request) : Bool := self.googleUrl.any (·.isValid)

def host (self : Request) : Bytes :=
  match self.proto.hostField with
  | some host => host
  | none => self.proto.ip

def path (proto : HttpRequest) : Bytes :=
  proto.path.flatMap fun segment => segment.name ++ segment.value

/-- The scheme, which is decided at the first call and kept. -/
def scheme (self : Request) : Bytes :=
  if self.schemeCache ≠ [] then self.schemeCache
  else if self.proto.ssl then ascii "https" else ascii "http"

def replaceOrAddExistingField (name value : Bytes) (replace : Bool)
    (fields : List HttpRequest.RequestField) : Int × List HttpRequest.RequestField :=
  let updatedFields := fields.countP (·.name == name)
  if updatedFields ≠ 0 then
    if !replace then (0, fields)
    else (updatedFields, fields.map fun field =>
      if field.name = name then { field with valueField := some value } else field)
  else (1, fields ++ [{ nameField := some name, valueField := some value }])

def setHeader (self : Request) (name value : Bytes) (replace : Bool) : Int × Request :=
  let (updated, header) := replaceOrAddExistingField name value replace self.proto.header
  (updated, { self with proto := { self.proto with header } })

def prepareHeaders (env : RequestEnv) (self : Request) : Request :=
  (self.setHeader HTTPHeaders.kUserAgent env.userAgent false).2

/-- The query string, from its question mark on. -/
def renderParams : Bytes → List HttpRequest.RequestField → Bytes
  | tmp, [] => tmp
  | tmp, param :: params =>
    let tmp := tmp ++ if tmp = [] then ascii "?" else ascii "&"
    if param.hasValue then renderParams (tmp ++ param.name ++ ascii "=" ++ param.value) params
    else renderParams (tmp ++ param.name) params

def buildUrl (env : RequestEnv) (self : Request) : Request :=
  let url := self.scheme ++ ascii "://" ++ self.proto.host ++ ascii ":" ++
    decimal self.proto.port ++ path self.proto ++ renderParams [] self.proto.param ++
    self.proto.rawFragment.getD []
  prepareHeaders env { self with
    schemeCache := self.scheme
    url
    proto := { self.proto with urlField := some url } }

def parsePath (gurl : GURL) : List HttpRequest.RequestField :=
  let element (value : Bytes) : HttpRequest.RequestField :=
    { nameField := some (ascii "/"), valueField := some value }
  let elements := ((strSplit (cStr gurl.path) 47).filter (· ≠ [])).map element
  if elements = [] ∨ gurl.path.getLast? = some 47 then elements ++ [element []] else elements

def parseQuery (gurl : GURL) : List HttpRequest.RequestField :=
  if gurl.hasQuery then
    (strSplit (cStr gurl.query) 38).map fun piece =>
      match strSplit piece 61 with
      | [name, value] => { nameField := some name, valueField := some value }
      | pieces => { nameField := some (pieces.headD []) }
  else []

def parseUrl (env : RequestEnv) (self : Request) (url : Bytes) (ref : Option Request) :
    Bool × Request :=
  let parsed := env.gurl url
  let gurl := match parsed.isValid, ref.bind (·.googleUrl) with
    | false, some refUrl => if refUrl.isValid then env.resolve refUrl url else parsed
    | _, _ => parsed
  if !gurl.isValid then (false, { self with googleUrl := some gurl })
  else
    (true, buildUrl env { self with
      googleUrl := some gurl
      proto := { self.proto with
        rawUrl := some url
        hostField := some gurl.host
        portField := some gurl.effectiveIntPort
        sslField := some gurl.schemeIsSecure
        path := self.proto.path ++ parsePath gurl
        param := self.proto.param ++ parseQuery gurl } })

/-- The constructor from a URL and a request it may be relative to. -/
def ofUrl (env : RequestEnv) (url : Bytes) (origin : Option (Nat × Request)) : Request :=
  (parseUrl env { origin := origin.map (·.1) } url (origin.map (·.2))).2

/-- The constructor from a message. -/
def ofProto (env : RequestEnv) (proto : HttpRequest) : Request :=
  let built := buildUrl env { proto }
  buildUrl env { built with googleUrl := some (env.gurl built.url) }

def setGetParameter (env : RequestEnv) (self : Request) (name value : Bytes) (replace : Bool) :
    Int × Request :=
  let (updated, param) := replaceOrAddExistingField name value replace self.proto.param
  (updated, buildUrl env { self with proto := { self.proto with param } })

def setPostParameter (self : Request) (name value : Bytes) (replace : Bool) : Int × Request :=
  let (updated, bodyParam) := replaceOrAddExistingField name value replace self.proto.bodyParam
  (updated, { self with proto := { self.proto with methodField := some .post, bodyParam } })

def setIp (self : Request) (ip : Bytes) : Request :=
  { self with proto := { self.proto with ipField := some ip } }

/-- Whether two requests are the same up to the values of their parameters. -/
def equals (self ref : Request) : Bool :=
  if self.proto.ssl = ref.proto.ssl ∧ self.proto.method = ref.proto.method ∧
      self.proto.host = ref.proto.host ∧ self.proto.port = ref.proto.port ∧
      self.proto.param.length = ref.proto.param.length ∧
      self.proto.bodyParam.length = ref.proto.bodyParam.length ∧
      self.proto.path.length = ref.proto.path.length then
    if !fieldNamesEqual self.proto.param ref.proto.param ||
        !fieldNamesEqual self.proto.bodyParam ref.proto.bodyParam then false
    else self.proto.path.map (·.value) == ref.proto.path.map (·.value)
  else false

def responseCb (self : Request) (data : Bytes) : Request :=
  { self with rawResponse := self.rawResponse ++ data }

/-- `Request::DoneCb` up to the call of the request handler, which is made where
    the flag is set. The result is `none` where parsing reads out of range. -/
def doneCb (self : Request) : Option (Bool × Request) :=
  if self.rawResponse = [] then some (false, self)
  else
    match Response.parse {} self.rawResponse with
    | none => none
    | some (false, _) => some (false, { self with response := none })
    | some (true, response) =>
      some (true, { self with response := some response, rawResponse := [] })

def truncateResponseBody (self : Request) : Request :=
  { self with response := self.response.map (·.setBody kTruncatedResponseMessage) }

def setResponseHtmlFingerprint (self : Request) (fingerprint : HtmlFingerprint) : Request :=
  { self with response := self.response.map fun response =>
      { response with htmlFingerprint := some fingerprint } }

def addIssue (self : Request) (issue : IssueDetails) : Request :=
  { self with
    issues := assign self.issues issue.type ((find self.issues issue.type).getD [] ++ [issue]) }

end Request

end plusfish

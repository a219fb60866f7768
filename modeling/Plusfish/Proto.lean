import Plusfish.Bytes

namespace plusfish

/-! The protocol buffer messages. An optional field is an `Option`; its accessor
gives the default where the field is not set. -/

inductive Severity where
  | unknown | critical | high | moderate | low | minimal
deriving DecidableEq, Repr

/-- The number of a severity, which orders the map of the severity counters. -/
def Severity.number : Severity → Nat
  | unknown => 0 | critical => 1 | high => 2 | moderate => 3 | low => 4 | minimal => 5

instance : LT Severity := ⟨fun a b => a.number < b.number⟩
instance : DecidableLT Severity := fun a b => Nat.decLt a.number b.number

inductive MetaDataType where
  | unknownType | averageApplicationTimeUsec
deriving DecidableEq, Repr

def MetaDataType.number : MetaDataType → Nat
  | unknownType => 0 | averageApplicationTimeUsec => 1

instance : LT MetaDataType := ⟨fun a b => a.number < b.number⟩
instance : DecidableLT MetaDataType := fun a b => Nat.decLt a.number b.number

structure MetaData where
  valueType : Option MetaDataType := none
  value : Option Int := none
deriving DecidableEq

namespace HttpRequest

inductive ValueType where
  | unknown | string | number | json
deriving DecidableEq, Repr

inductive RequestMethod where
  | empty | get | head | options | post | put | trace
deriving DecidableEq, Repr

structure RequestField where
  nameField : Option Bytes := none
  valueField : Option Bytes := none
  typeField : Option ValueType := none
  modifiedField : Option Bool := none
deriving DecidableEq

namespace RequestField

def name (field : RequestField) : Bytes := field.nameField.getD []
def value (field : RequestField) : Bytes := field.valueField.getD []
def hasName (field : RequestField) : Bool := field.nameField.isSome
def hasValue (field : RequestField) : Bool := field.valueField.isSome

end RequestField

end HttpRequest

open HttpRequest in
structure HttpRequest where
  header : List RequestField := []
  param : List RequestField := []
  bodyParam : List RequestField := []
  fragment : List RequestField := []
  path : List RequestField := []
  portField : Option Int := none
  hostField : Option Bytes := none
  ipField : Option Bytes := none
  sslField : Option Bool := none
  methodField : Option RequestMethod := none
  urlField : Option Bytes := none
  metadata : List MetaData := []
  clientTimeTotalUsec : Option Int := none
  clientTimeApplicationUsec : Option Int := none
  clientCompletionTimeMs : Option Int := none
  rawUrl : Option Bytes := none
  rawRequest : Option Bytes := none
  rawFragment : Option Bytes := none
deriving DecidableEq

namespace HttpRequest

def port (proto : HttpRequest) : Int := proto.portField.getD 0
def host (proto : HttpRequest) : Bytes := proto.hostField.getD []
def ip (proto : HttpRequest) : Bytes := proto.ipField.getD []
def ssl (proto : HttpRequest) : Bool := proto.sslField.getD false
def method (proto : HttpRequest) : RequestMethod := proto.methodField.getD .get

end HttpRequest

inductive MimeType where
  | unknownMime
  | ascGeneric | ascHtml | ascJavascript | ascCss | ascJson | ascRtf
  | xmlGeneric | xmlOpensearch | xmlRss | xmlAtom | xmlWml | xmlCrossdomain | xmlSvg | xmlXhtml
  | imgJpeg | imgGif | imgPng | imgBmp | imgTiff | imgAni
  | avWav | avMp3 | avOgg | avRa | avAvi | avMpeg | avQt | avFlv | avRv | avWmedia
  | extFlash | extPdf | extJar | extClass | extWord | extExcel | extPpnt
  | binZip | binGzip | binCab
  | appGeneric | appOctet | appUnknown | appJavascript | appXjavascript | appJson | appPostscript
deriving DecidableEq, Repr

namespace HttpResponse

inductive ResponseCode where
  | unknownCode
  | «continue» | switching
  | ok | created | accepted | nonAuthoritative | noContent | resetContent
  | partialContent
  | multipleChoises | movedPerm | movedTemp | seeOther | notModified | useProxy
  | tempRedirect
  | badRequest | unauthorized | paymentRequired | forbidden | notFound | methodNotAllowed
  | notAcceptable | proxyAuthenticationRequired | requestTimeout | conflict | gone | lengthRequired
  | precondFailed | entityTooBig | uriTooBig | unknownMedia | badRange | badExpectation
  | internalServerError | notImplemented | badGateway | serviceUnavailable | gatewayTimeout
  | badVersion
deriving DecidableEq, Repr

namespace ResponseCode

def number : ResponseCode → Int
  | unknownCode => 0 | «continue» => 100 | switching => 101 | ok => 200
  | created => 201 | accepted => 202 | nonAuthoritative => 203 | noContent => 204
  | resetContent => 205 | partialContent => 206 | multipleChoises => 300 | movedPerm => 301
  | movedTemp => 302 | seeOther => 303 | notModified => 304 | useProxy => 305
  | tempRedirect => 307 | badRequest => 400 | unauthorized => 401 | paymentRequired => 402
  | forbidden => 403 | notFound => 404 | methodNotAllowed => 405 | notAcceptable => 406
  | proxyAuthenticationRequired => 407 | requestTimeout => 408 | conflict => 409 | gone => 410
  | lengthRequired => 411 | precondFailed => 412 | entityTooBig => 413 | uriTooBig => 414
  | unknownMedia => 415 | badRange => 416 | badExpectation => 417 | internalServerError => 500
  | notImplemented => 501 | badGateway => 502 | serviceUnavailable => 503 | gatewayTimeout => 504
  | badVersion => 505

def all : List ResponseCode :=
  [.unknownCode, .«continue», .switching, .ok, .created, .accepted, .nonAuthoritative,
   .noContent, .resetContent, .partialContent, .multipleChoises, .movedPerm, .movedTemp,
   .seeOther, .notModified, .useProxy, .tempRedirect, .badRequest, .unauthorized,
   .paymentRequired, .forbidden, .notFound, .methodNotAllowed, .notAcceptable,
   .proxyAuthenticationRequired, .requestTimeout, .conflict, .gone, .lengthRequired,
   .precondFailed, .entityTooBig, .uriTooBig, .unknownMedia, .badRange, .badExpectation,
   .internalServerError, .notImplemented, .badGateway, .serviceUnavailable, .gatewayTimeout,
   .badVersion]

/-- The code with a number, where `ResponseCode_IsValid` accepts the number. -/
def ofNumber? (n : Int) : Option ResponseCode := all.find? (·.number == n)

end ResponseCode

structure HeaderField where
  nameField : Option Bytes := none
  valueField : Option Bytes := none
deriving DecidableEq

def HeaderField.name (field : HeaderField) : Bytes := field.nameField.getD []
def HeaderField.value (field : HeaderField) : Bytes := field.valueField.getD []

end HttpResponse

open HttpResponse in
structure HttpResponse where
  codeField : Option ResponseCode := none
  mimeTypeField : Option MimeType := none
  header : List HeaderField := []
  responseBodyField : Option Bytes := none
deriving DecidableEq

namespace HttpResponse

def code (proto : HttpResponse) : ResponseCode := proto.codeField.getD .unknownCode
def mimeType (proto : HttpResponse) : MimeType := proto.mimeTypeField.getD .unknownMime
def responseBody (proto : HttpResponse) : Bytes := proto.responseBodyField.getD []

end HttpResponse

namespace IssueDetails

inductive IssueType where
  | invalid | xssReflected | xssReflectedTag | xssReflectedAttribute
  | xssReflectedJavascript | xssStored | fileInclusionLocal | fileInclusionRemote
  | mixedContent | crlfInjection | shellInjection | plaintextLoginForm
  | plaintextLoginFormTarget | genericMime | templateInjection | sqlInjection
  | blindSqlInjection | blindShellInjection | xsrfPassive | objectFound
  | informationLeak | stacktraceLeak | sourceCodeMime | applicationError
  | slowServer
deriving DecidableEq, Repr

/-- The number of an issue type, which orders the maps keyed by issue type. -/
def IssueType.number : IssueType → Nat
  | invalid => 0 | xssReflected => 1 | xssReflectedTag => 2
  | xssReflectedAttribute => 3 | xssReflectedJavascript => 4 | xssStored => 5
  | fileInclusionLocal => 10 | fileInclusionRemote => 11 | mixedContent => 12
  | crlfInjection => 13 | shellInjection => 14 | plaintextLoginForm => 15
  | plaintextLoginFormTarget => 16 | genericMime => 17 | templateInjection => 18
  | sqlInjection => 19 | blindSqlInjection => 20 | blindShellInjection => 21
  | xsrfPassive => 22 | objectFound => 23 | informationLeak => 50
  | stacktraceLeak => 51 | sourceCodeMime => 52 | applicationError => 53
  | slowServer => 80

instance : LT IssueType := ⟨fun a b => a.number < b.number⟩
instance : DecidableLT IssueType := fun a b => Nat.decLt a.number b.number

end IssueDetails

open IssueDetails in
structure IssueDetails where
  typeField : Option IssueType := none
  issueName : Option Bytes := none
  request : Option HttpRequest := none
  response : Option HttpResponse := none
  severityField : Option Severity := none
  requestId : Option Int := none
  extraInfo : Option Bytes := none
  responseSnippet : Option Bytes := none
  responseBodyOffset : Option Int := none
deriving DecidableEq

namespace IssueDetails

def type (details : IssueDetails) : IssueType := details.typeField.getD .invalid
def severity (details : IssueDetails) : Severity := details.severityField.getD .unknown

end IssueDetails

end plusfish

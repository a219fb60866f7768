import Plusfish.Audit.IssueUtil
import Plusfish.Parsers.Escaping
import Plusfish.Parsers.GumboParser
import Plusfish.Parsers.ScrapeUtil
import Plusfish.Scan

open ordered_map

namespace plusfish

/-- What a `GumboFormFilter` collects, and what it knows of the form it looks at. -/
structure GumboFormFilter where
  requests : List Request := []
  issues : List IssueDetails := []
  formHasPasswordField : Bool := false
  formHasXsrfToken : Bool := false

namespace GumboFormFilter

open GumboParser

section
variable (env : RequestEnv) (formMethodIsPost : Bool)

def addRequestParameter (currentRequest : Request) (name value : Bytes) : Request :=
  if formMethodIsPost then (currentRequest.setPostParameter name value false).2
  else (currentRequest.setGetParameter env name value false).2

/-- What `ProcessInputField` does to the form request. -/
def processInputField (currentRequest : Request) (attributes : List GumboAttribute) : Request :=
  let attributes := attributeMap attributes
  match find attributes HTMLName.kName with
  | none => currentRequest
  | some name =>
    addRequestParameter env formMethodIsPost currentRequest name
      ((find attributes HTMLName.kValue).getD [])

mutual

/-- `ParseFormFieldRecursive`, for the children of an element. -/
def parseFormFieldRecursive : Request → List GumboNode → Request
  | currentRequest, [] => currentRequest
  | currentRequest, node :: nodes =>
    parseFormFieldRecursive (parseFormNode currentRequest node) nodes

def parseFormNode : Request → GumboNode → Request
  | currentRequest, .element element children =>
    parseFormFieldRecursive
      (if element.tag = .input ∨ element.tag = .textarea ∨ element.tag = .select then
        processInputField env formMethodIsPost currentRequest element.attributes
      else currentRequest) children
  | currentRequest, _ => currentRequest

end

end

section
variable (env : RequestEnv) (baseRequest : Nat × Request)

/-- The request that `ParseElement` adds for an element. -/
def parseElement (tag : GumboTag) (attributes : List GumboAttribute)
    (children : List GumboNode) : Option Request :=
  if tag ≠ .form then none
  else
    (getAttribute attributes HTMLName.kAction).map fun action =>
      let currentRequest := Request.ofUrl env (util.unescapeHtml action.value) (some baseRequest)
      let formMethodIsPost := match getAttribute attributes HTMLName.kMethod with
        | some method => !strCaseEq method.value (ascii "GET")
        | none => true
      parseFormFieldRecursive env formMethodIsPost currentRequest children

mutual

/-- The form requests of a document, which the parser hands to the filter node by node. -/
def formRequests : GumboNode → List Request
  | .element element children =>
    (parseElement env baseRequest element.tag element.attributes children).toList ++
      formRequestsOf children
  | _ => []

def formRequestsOf : List GumboNode → List Request
  | [] => []
  | node :: nodes => formRequests node ++ formRequestsOf nodes

end

end

mutual

/-- The attributes of the elements that `ParseFormFieldRecursive` processes, in its order. -/
def inputFields : List GumboNode → List (List GumboAttribute)
  | [] => []
  | node :: nodes => inputFieldsOf node ++ inputFields nodes

def inputFieldsOf : GumboNode → List (List GumboAttribute)
  | .element element children =>
    (if element.tag = .input ∨ element.tag = .textarea ∨ element.tag = .select then
      [element.attributes] else []) ++ inputFields children
  | _ => []

end

/-- What `ProcessInputField` notes of a password or an XSRF field. -/
def noteInputField (self : GumboFormFilter) (attributes : List GumboAttribute) : GumboFormFilter :=
  let attributes := attributeMap attributes
  match find attributes HTMLName.kName, find attributes HTMLName.kType with
  | some _, some typeValue =>
    let value := (find attributes HTMLName.kValue).getD []
    { self with
      formHasPasswordField :=
        self.formHasPasswordField || strCaseEq typeValue (ascii "password")
      formHasXsrfToken := self.formHasXsrfToken ||
        (strCaseEq typeValue (ascii "hidden") && util.isPotentialXSRFToken value) }
  | _, _ => self

/-- `AnalyzeCurrentForm`. -/
def analyzeCurrentForm (self : GumboFormFilter) (baseRequest currentRequest : Request)
    (formResponseBodyOffset : Nat) : GumboFormFilter :=
  let body := (baseRequest.response.map (·.body)).getD []
  let issues := self.issues
  let issues :=
    if self.formHasPasswordField && !currentRequest.proto.ssl then
      util.updateIssueVectorWithSnippet .plaintextLoginFormTarget .high baseRequest.id
        baseRequest.rawResponse formResponseBodyOffset (ascii "Form target: " ++ currentRequest.url)
        issues
    else issues
  let issues :=
    if self.formHasPasswordField && !baseRequest.proto.ssl then
      util.updateIssueVectorWithSnippet .plaintextLoginForm .high baseRequest.id body
        formResponseBodyOffset [] issues
    else issues
  let issues :=
    if !self.formHasXsrfToken then
      util.updateIssueVectorWithSnippet .xsrfPassive .moderate baseRequest.id body
        formResponseBodyOffset [] issues
    else issues
  { self with issues }

/-- What `ParseElement` does with an element: a form is analyzed, and its request kept. -/
def addForm (env : RequestEnv) (baseRequest : Nat × Request) (self : GumboFormFilter)
    (element : GumboElement) (children : List GumboNode) : GumboFormFilter :=
  match parseElement env baseRequest element.tag element.attributes children with
  | none => self
  | some currentRequest =>
    -- Only one of the two notes is reset for a new form.
    let noted := (inputFields children).foldl noteInputField
      { self with formHasPasswordField := false }
    let analyzed := noted.analyzeCurrentForm baseRequest.2 currentRequest element.startPos.offset
    { analyzed with requests := analyzed.requests ++ [currentRequest] }

def filter (env : RequestEnv) (baseRequest : Nat × Request) : GumboFilter GumboFormFilter where
  parseElement element children self := self.addForm env baseRequest element children
  parseComment _ := id
  parseText _ := id

end GumboFormFilter

/-- A scraper with the parser library, and with what the other filters and the analysis of the
    forms collect from a document. -/
structure HtmlScraper where
  gumboParse : Bytes → Option GumboNode
  anchors : GumboNode → List Bytes
  issues : Request → GumboNode → List IssueDetails
  fingerprint : GumboNode → HtmlFingerprint

namespace HtmlScraper

/-- `HtmlScraper::Parse`, with what is collected where the content is parsed. -/
def parse (env : RequestEnv) (self : HtmlScraper) (address : Nat) (request : Request)
    (htmlContent : Bytes) : Option Scraped :=
  (self.gumboParse (cStr htmlContent)).map fun root =>
    { fingerprint := self.fingerprint root
      anchors := self.anchors root
      requests := GumboFormFilter.formRequests env (address, request) root
      issues := self.issues request root }

end HtmlScraper

/-- An environment with this scraper. -/
def ScanEnv.withScraper (env : ScanEnv) (scraper : HtmlScraper) : ScanEnv :=
  { env with scrapeHtml := scraper.parse env.request }

/-! A request made for a URL has no parent, and neither has one made for a form. -/

/-- Parsing a URL sets what the URL says, or nothing but the URL itself. -/
theorem Request.parseUrl_eq (env : RequestEnv) (self : Request) (url : Bytes)
    (ref : Option Request) : ∃ gurl : GURL, self.parseUrl env url ref =
      if !gurl.isValid then (false, { self with googleUrl := some gurl })
      else
        (true, buildUrl env { self with
          googleUrl := some gurl
          proto := { self.proto with
            rawUrl := some url
            hostField := some gurl.host
            portField := some gurl.effectiveIntPort
            sslField := some gurl.schemeIsSecure
            path := self.proto.path ++ parsePath gurl
            param := self.proto.param ++ parseQuery gurl } }) := ⟨_, rfl⟩

theorem Request.parseUrl_parentId (env : RequestEnv) (self : Request) (url : Bytes)
    (ref : Option Request) : (self.parseUrl env url ref).2.parentId = self.parentId := by
  obtain ⟨gurl, heq⟩ := self.parseUrl_eq env url ref
  rw [heq]
  split <;> rfl

@[simp] theorem Request.ofUrl_parentId (env : RequestEnv) (url : Bytes)
    (origin : Option (Nat × Request)) : (ofUrl env url origin).parentId = kInvalidId := by
  unfold Request.ofUrl
  rw [parseUrl_parentId]

/-- A request is made without issues. -/
@[simp] theorem Request.ofUrl_issues (env : RequestEnv) (url : Bytes)
    (origin : Option (Nat × Request)) : (ofUrl env url origin).issues = [] := by
  obtain ⟨gurl, heq⟩ := parseUrl_eq env { origin := origin.map (·.1) } url (origin.map (·.2))
  rw [ofUrl, heq]
  split <;> rfl

@[simp] theorem Request.ofProto_issues (env : RequestEnv) (proto : HttpRequest) :
    (ofProto env proto).issues = [] := rfl

namespace GumboFormFilter

open GumboParser

variable {env : RequestEnv} {formMethodIsPost : Bool}

theorem processInputField_parentId (request : Request) (attributes : List GumboAttribute) :
    (processInputField env formMethodIsPost request attributes).parentId = request.parentId := by
  unfold processInputField addRequestParameter
  dsimp only
  split
  · rfl
  · split <;> rfl

mutual

/-- The recursion of the source processes the input fields one after the other. -/
theorem parseFormFieldRecursive_eq_foldl (request : Request) : (nodes : List GumboNode) →
    parseFormFieldRecursive env formMethodIsPost request nodes =
      (inputFields nodes).foldl (processInputField env formMethodIsPost) request
  | [] => rfl
  | node :: nodes => by
    rw [parseFormFieldRecursive, parseFormNode_eq_foldl, parseFormFieldRecursive_eq_foldl _ nodes,
      inputFields, List.foldl_append]

theorem parseFormNode_eq_foldl (request : Request) : (node : GumboNode) →
    parseFormNode env formMethodIsPost request node =
      (inputFieldsOf node).foldl (processInputField env formMethodIsPost) request
  | .element element children => by
    rw [parseFormNode, parseFormFieldRecursive_eq_foldl _ children, inputFieldsOf,
      List.foldl_append]
    split <;> rfl
  | .text _ | .comment _ | .other => rfl

end

theorem parseFormFieldRecursive_parentId (request : Request) (nodes : List GumboNode) :
    (parseFormFieldRecursive env formMethodIsPost request nodes).parentId = request.parentId := by
  rw [parseFormFieldRecursive_eq_foldl]
  induction inputFields nodes generalizing request with
  | nil => rfl
  | cons field fields ih => rw [List.foldl_cons, ih, processInputField_parentId]

/-- The forms of a document are kept in its order. -/
theorem addForm_requests (baseRequest : Nat × Request) (self : GumboFormFilter)
    (element : GumboElement) (children : List GumboNode) :
    (self.addForm env baseRequest element children).requests = self.requests ++
      (parseElement env baseRequest element.tag element.attributes children).toList := by
  have hnoted (fields : List (List GumboAttribute)) (self : GumboFormFilter) :
      (fields.foldl noteInputField self).requests = self.requests := by
    induction fields generalizing self with
    | nil => rfl
    | cons field fields ih =>
      rw [List.foldl_cons, ih]
      unfold noteInputField
      dsimp only
      split <;> rfl
  unfold addForm
  cases parseElement env baseRequest element.tag element.attributes children with
  | none => exact (List.append_nil _).symm
  | some currentRequest =>
    dsimp only [analyzeCurrentForm, Option.toList]
    rw [hnoted]

theorem parseElement_parentId {baseRequest : Nat × Request} {tag : GumboTag}
    {attributes : List GumboAttribute} {children : List GumboNode} {request : Request}
    (h : parseElement env baseRequest tag attributes children = some request) :
    request.parentId = kInvalidId := by
  unfold parseElement at h
  split at h
  · cases h
  · obtain ⟨action, _, rfl⟩ := Option.map_eq_some_iff.mp h
    rw [parseFormFieldRecursive_parentId, Request.ofUrl_parentId]

/-- The requests that the filter makes of one node. -/
def eventRequests (env : RequestEnv) (baseRequest : Nat × Request) : GumboEvent → List Request
  | .element element children =>
    (parseElement env baseRequest element.tag element.attributes children).toList
  | .comment _ | .text _ => []

mutual

theorem formRequests_eq_flatMap (baseRequest : Nat × Request) : (node : GumboNode) →
    formRequests env baseRequest node = (preorder node).flatMap (eventRequests env baseRequest)
  | .element element children => by
    rw [preorder, List.flatMap_cons, ← formRequestsOf_eq_flatMap baseRequest children,
      formRequests]
    rfl
  | .text _ | .comment _ | .other => rfl

theorem formRequestsOf_eq_flatMap (baseRequest : Nat × Request) : (nodes : List GumboNode) →
    formRequestsOf env baseRequest nodes =
      (preorderOf nodes).flatMap (eventRequests env baseRequest)
  | [] => rfl
  | node :: nodes => by
    rw [preorderOf, List.flatMap_append, ← formRequests_eq_flatMap baseRequest node,
      ← formRequestsOf_eq_flatMap baseRequest nodes, formRequestsOf]

end

theorem formRequests_parentId {baseRequest : Nat × Request} (root : GumboNode) :
    ∀ request ∈ formRequests env baseRequest root, request.parentId = kInvalidId := by
  intro request hmem
  rw [formRequests_eq_flatMap] at hmem
  obtain ⟨event, _, hevent⟩ := List.mem_flatMap.mp hmem
  cases event with
  | element element children => exact parseElement_parentId (Option.mem_toList.mp hevent)
  | comment | text => cases hevent

theorem formRequests_issues {baseRequest : Nat × Request} (root : GumboNode) :
    ∀ request ∈ formRequests env baseRequest root, request.issues = [] := by
  have hfields (fields : List (List GumboAttribute)) (formMethodIsPost : Bool) (request : Request) :
      (fields.foldl (processInputField env formMethodIsPost) request).issues = request.issues := by
    induction fields generalizing request with
    | nil => rfl
    | cons field fields ih =>
      rw [List.foldl_cons, ih]
      unfold processInputField addRequestParameter
      dsimp only
      split
      · rfl
      · split <;> rfl
  intro request hmem
  rw [formRequests_eq_flatMap] at hmem
  obtain ⟨event, _, hevent⟩ := List.mem_flatMap.mp hmem
  cases event with
  | element element children =>
    have hform : parseElement env baseRequest element.tag element.attributes children =
        some request := Option.mem_toList.mp hevent
    unfold parseElement at hform
    split at hform
    · cases hform
    · obtain ⟨action, _, rfl⟩ := Option.map_eq_some_iff.mp hform
      rw [parseFormFieldRecursive_eq_foldl, hfields, Request.ofUrl_issues]
  | comment | text => cases hevent

end GumboFormFilter

theorem HtmlScraper.parse_parentId {env : RequestEnv} {self : HtmlScraper} {address : Nat}
    {request : Request} {htmlContent : Bytes} {scraped : Scraped}
    (h : self.parse env address request htmlContent = some scraped) :
    ∀ form ∈ scraped.requests, form.parentId = kInvalidId := by
  obtain ⟨root, _, rfl⟩ := Option.map_eq_some_iff.mp h
  exact GumboFormFilter.formRequests_parentId root

theorem HtmlScraper.parse_issues {env : RequestEnv} {self : HtmlScraper} {address : Nat}
    {request : Request} {htmlContent : Bytes} {scraped : Scraped}
    (h : self.parse env address request htmlContent = some scraped) :
    ∀ form ∈ scraped.requests, form.issues = [] := by
  obtain ⟨root, _, rfl⟩ := Option.map_eq_some_iff.mp h
  exact GumboFormFilter.formRequests_issues root

end plusfish

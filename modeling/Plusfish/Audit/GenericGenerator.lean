import Plusfish.Audit.SecurityCheck
import Plusfish.Parsers.Escaping

namespace plusfish

open HttpRequest (RequestField)

namespace GeneratorRule

inductive TargetType where
  | unknown | headers | urlParams | bodyParams | pathElements
deriving DecidableEq, Repr

inductive InjectionMethod where
  | invalid | setValue | appendToValue | prefixValue
deriving DecidableEq, Repr

inductive EncodingType where
  | auto | none | url | html
deriving DecidableEq, Repr

structure PayloadTarget where
  typeField : Option TargetType := .none
  targetName : List Bytes := []
  lastFieldOnlyField : Option Bool := .none

structure Payload where
  arg : List Bytes := []

namespace PayloadTarget

def type (target : PayloadTarget) : TargetType := target.typeField.getD .unknown
def lastFieldOnly (target : PayloadTarget) : Bool := target.lastFieldOnlyField.getD false

end PayloadTarget

end GeneratorRule

open GeneratorRule in
structure GeneratorRule where
  method : List InjectionMethod := []
  encoding : List EncodingType := []
  target : List PayloadTarget := []
  payloadField : Option Payload := none

open GeneratorRule

def GeneratorRule.payload (rule : GeneratorRule) : Payload := rule.payloadField.getD {}

namespace util

/-- The characters that are ignored when payloads are encoded for URLs. -/
def kUrlEncodeIgnoreChars : Bytes := ascii "&=;,!$?%"

/-- A character as an `unsigned int` in hexadecimal, as the stream writes it: a `char` is
    signed, and there are no leading zeros. -/
def hexChar (c : UInt8) : Bytes :=
  let value := if c < 128 then c.toNat else c.toNat + 0xffffff00
  (Nat.toDigits 16 value).map Char.toUInt8

/-- `encode_url_token_partial`. -/
def encodeUrlTokenPartial (token ignore : Bytes) : Bytes :=
  token.flatMap fun c =>
    if !isAlnum c && !ignore.contains c then ascii "%" ++ hexChar c else [c]

/-- `encode_url_token`. -/
def encodeUrlToken (token : Bytes) : Bytes := encodeUrlTokenPartial token kUrlEncodeIgnoreChars

def generatePayloadString (originalValue payload : Bytes) (method : InjectionMethod)
    (encoding : EncodingType) : Bytes :=
  let finalPayload := match method with
    | .appendToValue => originalValue ++ payload
    | .prefixValue => payload ++ originalValue
    | .setValue | .invalid => payload
  match encoding with
  | .url => encodeUrlToken finalPayload
  | .html => escapeHtml finalPayload
  | .none | .auto => finalPayload

end util

namespace GenericGenerator

def shouldInjectInField (target : PayloadTarget) (name : Bytes) : Bool :=
  target.targetName.isEmpty || target.targetName.any (strCaseEq · name)

/-- The fields that a type of target refers to. -/
def fieldsOf (proto : HttpRequest) : TargetType → List RequestField
  | .urlParams => proto.param
  | .bodyParams => proto.bodyParam
  | .headers => proto.header
  | .pathElements => proto.path
  | .unknown => []

def withFields (proto : HttpRequest) (fields : List RequestField) : TargetType → HttpRequest
  | .urlParams => { proto with param := fields }
  | .bodyParams => { proto with bodyParam := fields }
  | .headers => { proto with header := fields }
  | .pathElements => { proto with path := fields }
  | .unknown => proto

/-- `GetMutableFieldsForType`. -/
def getMutableFieldsForType (type : TargetType) (proto : HttpRequest) :
    Option (List RequestField) :=
  if fieldsOf proto type = [] then none else some (fieldsOf proto type)

section
variable (env : RequestEnv) (rule : GeneratorRule) (base : Request) (target : PayloadTarget)

/-- What is injected into a field, in the order of the nested loops. -/
def injections : List (InjectionMethod × EncodingType × Bytes) :=
  rule.method.flatMap fun method =>
    rule.encoding.flatMap fun encoding =>
      rule.payload.arg.map fun payload => (method, encoding, payload)

/-- The message of the base request with other fields for a target, as a request. -/
def mutatedRequest (fields : List RequestField) : Request :=
  { Request.ofProto env (withFields base.proto fields target.type) with parentId := base.id }

/-- `AppendSingleMutatedFieldRequest`, for the i-th field: the requests, and the fields with
    the original value restored. -/
def appendSingleMutatedFieldRequest (i : Nat) (originalValue : Bytes) :
    List (InjectionMethod × EncodingType × Bytes) → List RequestField →
      List Request × List RequestField
  | [], fields => ([], fields)
  | (method, encoding, payload) :: rest, fields =>
    let finalPayload := util.generatePayloadString originalValue payload method encoding
    let injected := fields.modify i fun field =>
      { field with valueField := some finalPayload, modifiedField := some true }
    let restored := fields.modify i fun field =>
      { field with valueField := some originalValue, modifiedField := some false }
    let (requests, fields) := appendSingleMutatedFieldRequest i originalValue rest restored
    (mutatedRequest env base target injected :: requests, fields)

/-- The loop of `AppendMutatedFieldRequests` over the fields at these indices. -/
def appendFields : List Nat → List RequestField → List Request
  | [], _ => []
  | i :: indices, fields =>
    let field := (fields[i]?).getD {}
    if !field.hasName || !shouldInjectInField target field.name then appendFields indices fields
    else
      let (requests, fields) :=
        appendSingleMutatedFieldRequest env base target i field.value (injections rule) fields
      requests ++ appendFields indices fields

/-- `AppendMutatedFieldRequests`. -/
def appendMutatedFieldRequests (fields : List RequestField) : List Request :=
  if target.lastFieldOnly && !fields.isEmpty then
    let last := fields.length - 1
    let field := (fields[last]?).getD {}
    (appendSingleMutatedFieldRequest env base target last field.value (injections rule) fields).1
  else appendFields env rule base target (List.range fields.length) fields

/-- The requests that `Generate` appends, as many as it returns. -/
def generate : List Request :=
  rule.target.flatMap fun target =>
    match getMutableFieldsForType target.type base.proto with
    | none => []
    | some fields => appendMutatedFieldRequests env rule base target fields

end

/-- A `GenericGenerator` with a rule. -/
def generator (env : RequestEnv) (rule : GeneratorRule) : Generator := ⟨generate env rule⟩

section
variable {env : RequestEnv} {rule : GeneratorRule} {base : Request} {target : PayloadTarget}

theorem appendSingleMutatedFieldRequest_parentId {i : Nat} {originalValue : Bytes}
    {payloads : List (InjectionMethod × EncodingType × Bytes)} {fields : List RequestField} :
    ∀ request ∈ (appendSingleMutatedFieldRequest env base target i originalValue payloads fields).1,
      request.parentId = base.id := by
  induction payloads generalizing fields with
  | nil => exact fun _ h => by cases h
  | cons payload payloads ih =>
    intro request hmem
    rcases List.mem_cons.mp hmem with rfl | hmem
    · rfl
    · exact ih request hmem

theorem appendFields_parentId {indices : List Nat} {fields : List RequestField} :
    ∀ request ∈ appendFields env rule base target indices fields, request.parentId = base.id := by
  induction indices generalizing fields with
  | nil => exact fun _ h => by cases h
  | cons i indices ih =>
    intro request hmem
    rw [appendFields] at hmem
    split at hmem
    · exact ih request hmem
    · rcases List.mem_append.mp hmem with hmem | hmem
      · exact appendSingleMutatedFieldRequest_parentId request hmem
      · exact ih request hmem

/-- A generated request has the base request as its parent. -/
theorem generate_parentId {request : Request} (hmem : request ∈ generate env rule base) :
    request.parentId = base.id := by
  obtain ⟨target, _, hmem⟩ := List.mem_flatMap.mp hmem
  split at hmem
  · cases hmem
  · rw [appendMutatedFieldRequests] at hmem
    split at hmem
    · exact appendSingleMutatedFieldRequest_parentId request hmem
    · exact appendFields_parentId request hmem

end

end GenericGenerator

end plusfish

import Mathlib.Data.List.Forall2
import Plusfish.Audit.Injection
import Plusfish.DataStore.Acceptance

namespace plusfish

open HttpRequest (RequestField)
open GeneratorRule

namespace GenericGenerator

section
variable (env : RequestEnv) (rule : GeneratorRule) (base : Request) (target : PayloadTarget)

/-- The body of the innermost loop: the count, the fields of the copied message, and the output
    vector. -/
def appendPayload (i : Nat) (originalValue : Bytes) (method : InjectionMethod)
    (encoding : EncodingType) : Nat × List RequestField × List Request → Bytes →
      Nat × List RequestField × List Request
  | (requestCount, fields, requests), payload =>
    let finalPayload := util.generatePayloadString originalValue payload method encoding
    let injected := fields.modify i fun field =>
      { field with valueField := some finalPayload, modifiedField := some true }
    let newRequest := mutatedRequest env base target injected
    let restored := injected.modify i fun field =>
      { field with valueField := some originalValue, modifiedField := some false }
    (requestCount + 1, restored, requests ++ [newRequest])

/-- `AppendSingleMutatedFieldRequest`, with its loops and its count. -/
def appendSingleMutatedFieldRequestInto (i : Nat) (fields : List RequestField)
    (requests : List Request) : Nat × List RequestField × List Request :=
  let originalValue := ((fields[i]?).getD {}).value
  rule.method.foldl (fun state method =>
    rule.encoding.foldl (fun state encoding =>
      rule.payload.arg.foldl (appendPayload env base target i originalValue method encoding)
        state) state) (0, fields, requests)

/-- The body of the loop over the fields, with the count so far. -/
def appendFieldInto : Nat × List RequestField × List Request → Nat →
    Nat × List RequestField × List Request
  | (requestCount, fields, requests), i =>
    let field := (fields[i]?).getD {}
    if !field.hasName || !shouldInjectInField target field.name then
      (requestCount, fields, requests)
    else
      let (count, fields, requests) :=
        appendSingleMutatedFieldRequestInto env rule base target i fields requests
      (requestCount + count, fields, requests)

/-- `AppendMutatedFieldRequests`, with its loop and its count. -/
def appendMutatedFieldRequestsInto (fields : List RequestField) (requests : List Request) :
    Nat × List Request :=
  let (requestCount, _, requests) :=
    if target.lastFieldOnly && !fields.isEmpty then
      appendSingleMutatedFieldRequestInto env rule base target (fields.length - 1) fields requests
    else
      (List.range fields.length).foldl (appendFieldInto env rule base target) (0, fields, requests)
  (requestCount, requests)

/-- The requests that `Generate` appends for one target. -/
def targetRequests : List Request :=
  match getMutableFieldsForType target.type base.proto with
  | none => []
  | some fields => appendMutatedFieldRequests env rule base target fields

/-- The body of the loop over the targets, with the count so far. -/
def appendTargetInto : Nat × List Request → PayloadTarget → Nat × List Request
  | (requestCount, requests), target =>
    match getMutableFieldsForType target.type base.proto with
    | none => (requestCount, requests)
    | some fields =>
      let (count, requests) := appendMutatedFieldRequestsInto env rule base target fields requests
      (requestCount + count, requests)

/-- `Generate`, with the count that it returns and the output vector. -/
def generateInto (requests : List Request) : Nat × List Request :=
  rule.target.foldl (appendTargetInto env rule base) (0, requests)

end

section
variable {env : RequestEnv} {rule : GeneratorRule} {base : Request} {target : PayloadTarget}

theorem foldl_appendPayload (env : RequestEnv) (base : Request) (target : PayloadTarget)
    (i : Nat) (originalValue : Bytes) (payloads : List (InjectionMethod × EncodingType × Bytes))
    (requestCount : Nat) (fields : List RequestField) (requests : List Request) :
    payloads.foldl (fun state injection =>
      appendPayload env base target i originalValue injection.1 injection.2.1 state injection.2.2)
        (requestCount, fields, requests) =
      (requestCount + (appendSingleMutatedFieldRequest env base target i originalValue payloads
          fields).1.length,
        (appendSingleMutatedFieldRequest env base target i originalValue payloads fields).2,
        requests ++
          (appendSingleMutatedFieldRequest env base target i originalValue payloads fields).1) := by
  induction payloads generalizing requestCount fields requests with
  | nil => simp [appendSingleMutatedFieldRequest]
  | cons injection payloads ih =>
    -- Restoring overwrites what was injected.
    have hrestored : ∀ value, (fields.modify i fun field => { field with
          valueField := some value, modifiedField := some true }).modify i (fun field =>
        { field with valueField := some originalValue, modifiedField := some false }) =
        fields.modify i fun field =>
          { field with valueField := some originalValue, modifiedField := some false } := by
      intro value
      rw [List.modify_modify_eq]
      rfl
    rw [List.foldl_cons, appendPayload, hrestored, ih, appendSingleMutatedFieldRequest]
    simp only [List.length_cons, List.append_assoc, List.singleton_append, Prod.mk.injEq, and_true]
    omega

/-- The three loops append what is injected into one field, and count it. -/
theorem appendSingleMutatedFieldRequestInto_eq (i : Nat) (fields : List RequestField)
    (requests : List Request) :
    appendSingleMutatedFieldRequestInto env rule base target i fields requests =
      ((appendSingleMutatedFieldRequest env base target i (originalValue fields i)
          (injections rule) fields).1.length,
        (appendSingleMutatedFieldRequest env base target i (originalValue fields i)
          (injections rule) fields).2,
        requests ++ (appendSingleMutatedFieldRequest env base target i (originalValue fields i)
          (injections rule) fields).1) := by
  have hloops := foldl_appendPayload env base target i (originalValue fields i)
    (injections rule) 0 fields requests
  rw [Nat.zero_add] at hloops
  refine Eq.trans ?_ hloops
  rw [injections, List.foldl_flatMap]
  simp only [List.foldl_flatMap, List.foldl_map]
  rfl

theorem foldl_appendFieldInto (indices : List Nat) (requestCount : Nat)
    (fields : List RequestField) (requests : List Request) : ∃ fields',
    indices.foldl (appendFieldInto env rule base target) (requestCount, fields, requests) =
      (requestCount + (appendFields env rule base target indices fields).length, fields',
        requests ++ appendFields env rule base target indices fields) := by
  induction indices generalizing requestCount fields requests with
  | nil => exact ⟨fields, by simp [appendFields]⟩
  | cons i indices ih =>
    rw [List.foldl_cons, appendFieldInto, appendFields]
    dsimp only
    by_cases hskipped : (!((fields[i]?).getD {}).hasName ||
        !shouldInjectInField target ((fields[i]?).getD {}).name) = true
    · rw [if_pos hskipped, if_pos hskipped]
      exact ih requestCount fields requests
    · rw [if_neg hskipped, if_neg hskipped, appendSingleMutatedFieldRequestInto_eq]
      dsimp only
      obtain ⟨fields', hrest⟩ := ih _ _ _
      refine ⟨fields', hrest.trans ?_⟩
      simp only [List.length_append, List.append_assoc, Nat.add_assoc]
      rfl

theorem appendMutatedFieldRequestsInto_eq (fields : List RequestField) (requests : List Request) :
    appendMutatedFieldRequestsInto env rule base target fields requests =
      ((appendMutatedFieldRequests env rule base target fields).length,
        requests ++ appendMutatedFieldRequests env rule base target fields) := by
  unfold appendMutatedFieldRequestsInto appendMutatedFieldRequests
  by_cases hlast : (target.lastFieldOnly && !fields.isEmpty) = true
  · rw [if_pos hlast, if_pos hlast, appendSingleMutatedFieldRequestInto_eq]
    rfl
  · rw [if_neg hlast, if_neg hlast]
    obtain ⟨fields', hloop⟩ := foldl_appendFieldInto (List.range fields.length) 0 fields requests
    rw [hloop, Nat.zero_add]

theorem appendTargetInto_eq (requestCount : Nat) (requests : List Request) :
    appendTargetInto env rule base (requestCount, requests) target =
      (requestCount + (targetRequests env rule base target).length,
        requests ++ targetRequests env rule base target) := by
  unfold appendTargetInto targetRequests
  dsimp only
  cases getMutableFieldsForType target.type base.proto with
  | none => simp
  | some fields =>
    dsimp only
    rw [appendMutatedFieldRequestsInto_eq]

theorem foldl_appendTargetInto (targets : List PayloadTarget) (requestCount : Nat)
    (requests : List Request) :
    targets.foldl (appendTargetInto env rule base) (requestCount, requests) =
      (requestCount + (targets.flatMap (targetRequests env rule base)).length,
        requests ++ targets.flatMap (targetRequests env rule base)) := by
  induction targets generalizing requestCount requests with
  | nil => simp
  | cons target targets ih =>
    rw [List.foldl_cons, appendTargetInto_eq, ih, List.flatMap_cons, List.length_append,
      Nat.add_assoc, List.append_assoc]

/-- What is returned is the number of the requests that are appended. -/
theorem generateInto_eq (requests : List Request) : generateInto env rule base requests =
    ((generate env rule base).length, requests ++ generate env rule base) := by
  have hloop : generateInto env rule base requests = _ :=
    foldl_appendTargetInto rule.target 0 requests
  rw [hloop, Nat.zero_add]
  rfl

/-- What a request is generated for: a target, the index of a field, a method, an encoding and a
    payload. -/
def combinations (rule : GeneratorRule) (base : Request) :
    List (PayloadTarget × Nat × InjectionMethod × EncodingType × Bytes) :=
  rule.target.flatMap fun target =>
    (eligible target (fieldsOf base.proto target.type)).flatMap fun i =>
      rule.method.flatMap fun method =>
        rule.encoding.flatMap fun encoding =>
          rule.payload.arg.map fun payload => (target, i, method, encoding, payload)

/-- A request in which the field of a combination holds the payload that is made from the value
    in the base request, and is marked as modified. -/
def IsInjection (base : Request) :
    PayloadTarget × Nat × InjectionMethod × EncodingType × Bytes → Request → Prop
  | (target, i, injection), request => ∃ field,
    (fieldsOf base.proto target.type)[i]? = some field ∧
    (fieldsOf request.proto target.type)[i]? = some (inject field.value injection field)

theorem combinations_eq (rule : GeneratorRule) (base : Request) : combinations rule base =
    rule.target.flatMap fun target =>
      (eligible target (fieldsOf base.proto target.type)).flatMap fun i =>
        (injections rule).map fun injection => (target, i, injection) := by
  simp only [combinations, injections, List.map_flatMap, List.map_map]
  rfl

theorem isInjection_mutatedRequest {fields : List RequestField}
    (htext : fields.map text = (fieldsOf base.proto target.type).map text) {i : Nat}
    (hi : i < (fieldsOf base.proto target.type).length)
    (injection : InjectionMethod × EncodingType × Bytes) :
    IsInjection base (target, i, injection) (mutatedRequest env base target
      (fields.modify i (inject (originalValue fields i) injection))) := by
  have hne : fieldsOf base.proto target.type ≠ [] := List.ne_nil_of_length_pos (by omega)
  have hfield := List.getElem?_eq_getElem hi
  obtain ⟨own, hown, heq⟩ := exists_getElem?_of_map_eq htext hfield
  refine ⟨_, hfield, ?_⟩
  have hfields := fieldsOf_withFields base.proto hne
    (fields.modify i (inject (originalValue fields i) injection)) target.type
  rw [if_pos rfl] at hfields
  obtain ⟨added, hadded, _⟩ := fieldsOf_ofProto env (withFields base.proto
    (fields.modify i (inject (originalValue fields i) injection)) target.type) target.type
  rw [hfields] at hadded
  have hlt : i < (fields.modify i (inject (originalValue fields i) injection)).length := by
    rw [List.length_modify]
    exact (List.getElem?_eq_some_iff.mp hown).1
  unfold mutatedRequest
  dsimp only
  rw [hadded, List.getElem?_append_left hlt, List.getElem?_modify, hown, originalValue_eq hown]
  have hname : own.nameField = (fieldsOf base.proto target.type)[i].nameField :=
    congrArg (·.1) heq
  have htype : own.typeField = (fieldsOf base.proto target.type)[i].typeField :=
    congrArg (·.2.1) heq
  have hvalue : own.value = (fieldsOf base.proto target.type)[i].value := congrArg (·.2.2) heq
  simp [inject, hname, htype, hvalue]

theorem forall₂_injectFields {indices : List Nat} {fields : List RequestField}
    (htext : fields.map text = (fieldsOf base.proto target.type).map text)
    (hbounds : ∀ i ∈ indices, i < (fieldsOf base.proto target.type).length) :
    List.Forall₂ (IsInjection base)
      (indices.flatMap fun i => (injections rule).map fun injection => (target, i, injection))
      (injectFields env rule base target indices fields) := by
  induction indices generalizing fields with
  | nil => exact .nil
  | cons i indices ih =>
    obtain ⟨hi, hbounds⟩ := List.forall_mem_cons.mp hbounds
    rw [List.flatMap_cons, injectFields]
    refine List.rel_append ?_ (ih ((map_text_restore i).trans htext) hbounds)
    rw [List.forall₂_map_left_iff, List.forall₂_map_right_iff, List.forall₂_same]
    intro injection _
    exact isInjection_mutatedRequest htext hi injection

theorem length_combinations (rule : GeneratorRule) (base : Request) :
    (combinations rule base).length = (rule.target.map fun target =>
      (eligible target (fieldsOf base.proto target.type)).length * rule.method.length *
        rule.encoding.length * rule.payload.arg.length).sum := by
  simp [combinations, List.length_flatMap, Nat.mul_assoc]

/-- Requests are generated for all combinations, in order, and are counted. -/
theorem generateInto_complete (env : RequestEnv) (rule : GeneratorRule) (base : Request)
    (requests : List Request) : ∃ appended,
    generateInto env rule base requests = (appended.length, requests ++ appended) ∧
    appended.length = (rule.target.map fun target =>
      (eligible target (fieldsOf base.proto target.type)).length * rule.method.length *
        rule.encoding.length * rule.payload.arg.length).sum ∧
    List.Forall₂ (IsInjection base) (combinations rule base) appended ∧
    ∀ request ∈ appended, request.parentId = base.id := by
  have hall : List.Forall₂ (IsInjection base) (combinations rule base)
      (generate env rule base) := by
    rw [combinations_eq, generate_eq]
    have hsame : List.Forall₂ (· = ·) rule.target rule.target := List.forall₂_refl _
    refine List.rel_flatMap hsame ?_
    rintro target _ rfl
    exact forall₂_injectFields rfl fun i hi => lt_length_of_mem_eligible hi
  refine ⟨generate env rule base, generateInto_eq requests, ?_, hall, fun request hmem =>
    generate_parentId hmem⟩
  rw [← hall.length_eq, length_combinations]

end

/-- The fields that the payloads of a target belong to, where names are compared as a whole. -/
def eligibleByName (target : PayloadTarget) (fields : List RequestField) : List Nat :=
  if target.lastFieldOnly then (List.range fields.length).getLast?.toList
  else (List.range fields.length).filter fun i => (fields[i]?).any fun field =>
    field.hasName && (target.targetName.isEmpty ||
      target.targetName.any fun name => SameName name field.name)

/-- A rule for the parameter `ID`. -/
def idRule : GeneratorRule where
  method := [.setValue]
  encoding := [.none]
  target := [{ typeField := some .urlParams, targetName := [ascii "ID"] }]
  payloadField := some { arg := [ascii "x"] }

/-- A request with a parameter whose name goes on after a zero byte. -/
def zeroNameRequest : Request :=
  Request.ofProto (RequestEnv.single (ascii "site"))
    { hostField := some (ascii "site")
      param := [{ nameField := some (ascii "id" ++ 0 :: ascii "x"), valueField := some [] }] }

/-- A name is compared up to its first zero byte only: the parameter is injected into, though its
    name is not that of the target. -/
theorem generateInto_not_byName :
    (generateInto (RequestEnv.single (ascii "site")) idRule zeroNameRequest []).1 = 1 ∧
    (idRule.target.map fun target =>
      (eligibleByName target (fieldsOf zeroNameRequest.proto target.type)).length *
        idRule.method.length * idRule.encoding.length * idRule.payload.arg.length).sum = 0 := by
  decide +kernel

end GenericGenerator

end plusfish

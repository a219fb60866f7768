import Plusfish.Audit.GenericGenerator

namespace plusfish

open HttpRequest (RequestField)
open GeneratorRule

namespace GenericGenerator

/-- Whether payloads of a target are injected into a field, where the target does not ask for
    the last field only. -/
def Eligible (target : PayloadTarget) (field : RequestField) : Prop :=
  field.hasName ∧
    (target.targetName = [] ∨ ∃ name ∈ target.targetName, strCaseEq name field.name)

instance (target : PayloadTarget) (field : RequestField) : Decidable (Eligible target field) :=
  inferInstanceAs (Decidable (_ ∧ _))

def isEligibleAt (target : PayloadTarget) (fields : List RequestField) (i : Nat) : Bool :=
  (fields[i]?).any fun field => decide (Eligible target field)

/-- The indices of the fields that the payloads of a target are injected into. -/
def eligible (target : PayloadTarget) (fields : List RequestField) : List Nat :=
  if target.lastFieldOnly then (List.range fields.length).getLast?.toList
  else (List.range fields.length).filter (isEligibleAt target fields)

def inject (originalValue : Bytes) (injection : InjectionMethod × EncodingType × Bytes)
    (field : RequestField) : RequestField :=
  { field with
    valueField := some (util.generatePayloadString originalValue injection.2.2 injection.1
      injection.2.1)
    modifiedField := some true }

def restore (originalValue : Bytes) (field : RequestField) : RequestField :=
  { field with valueField := some originalValue, modifiedField := some false }

def originalValue (fields : List RequestField) (i : Nat) : Bytes := ((fields[i]?).getD {}).value

section
variable (env : RequestEnv) (rule : GeneratorRule) (base : Request) (target : PayloadTarget)

/-- The requests for the fields at these indices, each of which is restored after its payloads. -/
def injectFields : List Nat → List RequestField → List Request
  | [], _ => []
  | i :: indices, fields =>
    (injections rule).map (fun injection => mutatedRequest env base target
      (fields.modify i (inject (originalValue fields i) injection))) ++
    injectFields indices (fields.modify i (restore (originalValue fields i)))

end

section
variable {env : RequestEnv} {rule : GeneratorRule} {base : Request} {target : PayloadTarget}
  {fields : List RequestField}

theorem modify_restore_inject (i : Nat) (value : Bytes)
    (injection : InjectionMethod × EncodingType × Bytes) :
    (fields.modify i (restore value)).modify i (inject value injection) =
      fields.modify i (inject value injection) := by
  rw [List.modify_modify_eq]
  rfl

theorem modify_restore_restore (i : Nat) (value : Bytes) :
    (fields.modify i (restore value)).modify i (restore value) =
      fields.modify i (restore value) := by
  rw [List.modify_modify_eq]
  rfl

/-- The fields are restored to the same state after each payload. -/
theorem appendSingleMutatedFieldRequest_eq (i : Nat) (value : Bytes)
    (payloads : List (InjectionMethod × EncodingType × Bytes)) (fields : List RequestField) :
    appendSingleMutatedFieldRequest env base target i value payloads fields =
      (payloads.map fun injection =>
        mutatedRequest env base target (fields.modify i (inject value injection)),
      if payloads = [] then fields else fields.modify i (restore value)) := by
  induction payloads generalizing fields with
  | nil => rfl
  | cons injection payloads ih =>
    have hstep : appendSingleMutatedFieldRequest env base target i value (injection :: payloads)
        fields = (mutatedRequest env base target (fields.modify i (inject value injection)) ::
          (appendSingleMutatedFieldRequest env base target i value payloads
            (fields.modify i (restore value))).1,
          (appendSingleMutatedFieldRequest env base target i value payloads
            (fields.modify i (restore value))).2) := rfl
    rw [hstep, ih, modify_restore_restore]
    simp only [modify_restore_inject, ite_self, List.map_cons, List.cons_ne_nil, if_false]

/-- What restoring a field does not change. -/
def text (field : RequestField) : Option Bytes × Option HttpRequest.ValueType × Bytes :=
  (field.nameField, field.typeField, field.value)

theorem originalValue_eq {i : Nat} {field : RequestField} (hfield : fields[i]? = some field) :
    originalValue fields i = field.value := by
  rw [originalValue, hfield]
  rfl

/-- Fields that are the same in some respect are so one by one. -/
theorem exists_getElem?_of_map_eq {β : Type} {f : RequestField → β}
    {baseFields : List RequestField} (h : fields.map f = baseFields.map f) {i : Nat}
    {field : RequestField} (hfield : baseFields[i]? = some field) :
    ∃ own, fields[i]? = some own ∧ f own = f field := by
  have hboth := congrArg (·[i]?) h
  simp only [List.getElem?_map, hfield, Option.map_some, Option.map_eq_some_iff] at hboth
  exact hboth

theorem map_text_restore (i : Nat) :
    (fields.modify i (restore (originalValue fields i))).map text = fields.map text := by
  refine List.ext_getElem? fun j => ?_
  rw [List.getElem?_map, List.getElem?_map, List.getElem?_modify]
  cases hfield : fields[j]? with
  | none => rfl
  | some field =>
    by_cases hij : i = j
    · subst hij
      rw [originalValue_eq hfield]
      simp [text, restore, HttpRequest.RequestField.value]
    · simp [hij]

theorem isEligibleAt_congr {fields' : List RequestField}
    (htext : fields'.map text = fields.map text) (i : Nat) :
    isEligibleAt target fields' i = isEligibleAt target fields i := by
  have hfield : (fields'[i]?).map text = (fields[i]?).map text := by
    rw [← List.getElem?_map, htext, List.getElem?_map]
  unfold isEligibleAt
  cases hnew : fields'[i]? with
  | none =>
    rw [hnew, Option.map_none, eq_comm, Option.map_eq_none_iff] at hfield
    rw [hfield]
  | some new =>
    rw [hnew, Option.map_some, eq_comm, Option.map_eq_some_iff] at hfield
    obtain ⟨old, hold, heq⟩ := hfield
    have hname : old.nameField = new.nameField := congrArg (·.1) heq
    rw [hold, Option.any_some, Option.any_some, decide_eq_decide]
    simp only [Eligible, HttpRequest.RequestField.hasName, HttpRequest.RequestField.name, hname]

theorem skipped_iff (i : Nat) : (!((fields[i]?).getD {}).hasName ||
    !shouldInjectInField target ((fields[i]?).getD {}).name) = !isEligibleAt target fields i := by
  unfold isEligibleAt
  cases fields[i]? with
  | none => rfl
  | some field =>
    rw [Option.getD_some, Option.any_some, ← Bool.not_and, Bool.not_inj_iff]
    rw [Bool.eq_iff_iff, Bool.and_eq_true, decide_eq_true_eq, Eligible, shouldInjectInField,
      Bool.or_eq_true, List.isEmpty_iff, List.any_eq_true]

theorem injectFields_of_injections_nil (hnone : injections rule = []) (indices : List Nat)
    (fields : List RequestField) : injectFields env rule base target indices fields = [] := by
  induction indices generalizing fields with
  | nil => rfl
  | cons i indices ih => rw [injectFields, hnone, ih, List.map_nil, List.nil_append]

theorem appendFields_of_injections_nil (hnone : injections rule = []) (indices : List Nat) :
    appendFields env rule base target indices fields = [] := by
  induction indices with
  | nil => rfl
  | cons i indices ih =>
    rw [appendFields, appendSingleMutatedFieldRequest_eq, hnone]
    simp [ih]

/-- The loop over all fields injects into those that are eligible at its start. -/
theorem appendFields_eq (indices : List Nat) (fields : List RequestField) :
    appendFields env rule base target indices fields =
      injectFields env rule base target (indices.filter (isEligibleAt target fields)) fields := by
  by_cases hnone : injections rule = []
  · rw [appendFields_of_injections_nil hnone, injectFields_of_injections_nil hnone]
  · induction indices generalizing fields with
    | nil => rfl
    | cons i indices ih =>
      have hcongr : isEligibleAt target (fields.modify i (restore (originalValue fields i))) =
          isEligibleAt target fields := funext (isEligibleAt_congr (map_text_restore i))
      rw [appendFields, appendSingleMutatedFieldRequest_eq, if_neg hnone, List.filter_cons]
      dsimp only
      rw [skipped_iff]
      cases isEligibleAt target fields i with
      | false => exact ih fields
      | true =>
        have hrest := ih (fields.modify i (restore (originalValue fields i)))
        rw [hcongr] at hrest
        rw [if_pos rfl, injectFields, ← hrest]
        rfl

theorem appendMutatedFieldRequests_eq (fields : List RequestField) :
    appendMutatedFieldRequests env rule base target fields =
      injectFields env rule base target (eligible target fields) fields := by
  unfold appendMutatedFieldRequests eligible
  cases hlast : target.lastFieldOnly with
  | false => exact appendFields_eq _ _
  | true =>
    cases fields with
    | nil => rfl
    | cons field fields =>
      have hcondition : (true && !(field :: fields).isEmpty) = true := rfl
      have hlength : (field :: fields).length ≠ 0 := Nat.succ_ne_zero _
      rw [if_pos hcondition, if_pos rfl, List.getLast?_range, if_neg hlength]
      dsimp only
      rw [appendSingleMutatedFieldRequest_eq]
      exact (List.append_nil _).symm

/-- The requests of all targets, each made from a new copy of the message. -/
theorem generate_eq : generate env rule base = rule.target.flatMap fun target =>
    injectFields env rule base target (eligible target (fieldsOf base.proto target.type))
      (fieldsOf base.proto target.type) := by
  refine List.flatMap_congr fun target _ => ?_
  unfold getMutableFieldsForType
  by_cases hempty : fieldsOf base.proto target.type = []
  · have hnone : eligible target [] = [] := by
      unfold eligible
      split <;> rfl
    rw [if_pos hempty, hempty, hnone]
    rfl
  · rw [if_neg hempty]
    exact appendMutatedFieldRequests_eq _

theorem lt_length_of_mem_eligible {i : Nat} (hi : i ∈ eligible target fields) :
    i < fields.length := by
  refine List.mem_range.mp ?_
  unfold eligible at hi
  split at hi
  · exact List.mem_of_getLast? (Option.mem_toList.mp hi)
  · exact List.mem_of_mem_filter hi

theorem prepareHeaders_proto (env : RequestEnv) (self : Request) : ∃ added,
    (Request.prepareHeaders env self).proto =
      { self.proto with header := self.proto.header ++ added } ∧
    ((∃ header ∈ self.proto.header, header.name = HTTPHeaders.kUserAgent) → added = []) := by
  unfold Request.prepareHeaders Request.setHeader Request.replaceOrAddExistingField
  by_cases hcount : self.proto.header.countP (·.name == HTTPHeaders.kUserAgent) ≠ 0
  · refine ⟨[], ?_, fun _ => rfl⟩
    simp [hcount]
  · refine ⟨[{ nameField := some HTTPHeaders.kUserAgent, valueField := some env.userAgent }],
      ?_, ?_⟩
    · simp [hcount]
    · rintro ⟨header, hmem, hname⟩
      have hnone := List.countP_eq_zero.mp (not_not.mp hcount) header hmem
      exact absurd (beq_iff_eq.mpr hname) hnone

/-- Building a request adds no header other than the user agent, and none where there is one. -/
theorem ofProto_proto (env : RequestEnv) (proto : HttpRequest) : ∃ url added,
    (Request.ofProto env proto).proto =
      { proto with urlField := some url, header := proto.header ++ added } ∧
    ((∃ header ∈ proto.header, header.name = HTTPHeaders.kUserAgent) → added = []) := by
  have hbuild : ∀ self : Request, ∃ url added, (Request.buildUrl env self).proto =
      { self.proto with urlField := some url, header := self.proto.header ++ added } ∧
      ((∃ header ∈ self.proto.header, header.name = HTTPHeaders.kUserAgent) → added = []) := by
    intro self
    obtain ⟨added, hproto, hnone⟩ := prepareHeaders_proto env _
    exact ⟨_, added, hproto, hnone⟩
  obtain ⟨_, first, hfirst, hfirstNone⟩ := hbuild { proto }
  obtain ⟨url, second, hsecond, hsecondNone⟩ := hbuild
    { Request.buildUrl env { proto } with
      googleUrl := some (env.gurl (Request.buildUrl env { proto }).url) }
  rw [hfirst] at hsecond hsecondNone
  refine ⟨url, first ++ second, ?_, fun hagent => ?_⟩
  · rw [← List.append_assoc]
    exact hsecond
  · have hnone := hfirstNone hagent
    rw [hnone] at hsecondNone ⊢
    exact hsecondNone (by simpa using hagent)

theorem fieldsOf_ofProto (env : RequestEnv) (proto : HttpRequest) (type : TargetType) : ∃ added,
    fieldsOf (Request.ofProto env proto).proto type = fieldsOf proto type ++ added ∧
    ((∃ header ∈ proto.header, header.name = HTTPHeaders.kUserAgent) → added = []) := by
  obtain ⟨url, added, hproto, hnone⟩ := ofProto_proto env proto
  rw [hproto]
  cases type with
  | headers => exact ⟨added, rfl, hnone⟩
  | _ => exact ⟨[], (List.append_nil _).symm, fun _ => rfl⟩

theorem fieldsOf_withFields (proto : HttpRequest) {type : TargetType}
    (hne : fieldsOf proto type ≠ []) (fields : List RequestField) (type' : TargetType) :
    fieldsOf (withFields proto fields type) type' =
      if type' = type then fields else fieldsOf proto type' := by
  cases type with
  | unknown => exact absurd rfl hne
  | _ => cases type' <;> rfl

end

end GenericGenerator

end plusfish

import Plusfish.Audit.Injection
import Plusfish.DataStore.Acceptance

namespace plusfish

open HttpRequest (RequestField)
open GeneratorRule

namespace GenericGenerator

/-- The name of a field and its value, each of which may be missing. -/
def content (field : RequestField) : Option Bytes × Option Bytes :=
  (field.nameField, field.valueField)

/-- A message in which no field is marked as modified, and in which the default headers are. -/
structure Unmodified (proto : HttpRequest) : Prop where
  fields : ∀ type, ∀ field ∈ fieldsOf proto type, field.modifiedField ≠ some true
  userAgent : ∃ header ∈ proto.header, header.name = HTTPHeaders.kUserAgent

/-- A request that is its base request but for one field, which holds a payload that is made
    from the value in the base request, and which alone is marked as modified. -/
structure DiffersInField (rule : GeneratorRule) (base request : Request) (type : TargetType)
    (i : Nat) (injection : InjectionMethod × EncodingType × Bytes) (field : RequestField) :
    Prop where
  injected : injection ∈ injections rule
  field_base : (fieldsOf base.proto type)[i]? = some field
  content_eq : (fieldsOf request.proto type).map content =
    ((fieldsOf base.proto type).map content).set i (content (inject field.value injection field))
  content_other : ∀ type' ≠ type,
    (fieldsOf request.proto type').map content = (fieldsOf base.proto type').map content
  modified : ∀ type' j other, (fieldsOf request.proto type')[j]? = some other →
    (other.modifiedField = some true ↔ type' = type ∧ j = i)

/-- A request with the method, the host and the port of its base request, and with its fields
    but for one. -/
structure DiffersInOneField (rule : GeneratorRule) (base request : Request) : Prop where
  method : request.proto.methodField = base.proto.methodField
  host : request.proto.hostField = base.proto.hostField
  port : request.proto.portField = base.proto.portField
  fields : ∃ type i injection field, DiffersInField rule base request type i injection field

section
variable {env : RequestEnv} {rule : GeneratorRule} {base : Request} {target : PayloadTarget}
  {fields : List RequestField}

/-- The fields of a message that are left by the payloads of earlier fields, each of which had
    a value. -/
structure Restored (base fields : List RequestField) : Prop where
  content_eq : fields.map content = base.map content
  modified : ∀ field ∈ fields, field.modifiedField ≠ some true

theorem value_eq_of_content {own field : RequestField} (h : content own = content field) :
    own.value = field.value := by
  have hvalue : own.valueField = field.valueField := congrArg (·.2) h
  rw [HttpRequest.RequestField.value, HttpRequest.RequestField.value, hvalue]

theorem Restored.modify_restore {baseFields : List RequestField} (h : Restored baseFields fields)
    {i : Nat} (hvalue : ∀ field, baseFields[i]? = some field → field.hasValue) :
    Restored baseFields (fields.modify i (restore (originalValue fields i))) := by
  constructor
  · rw [← h.content_eq]
    refine List.ext_getElem? fun j => ?_
    rw [List.getElem?_map, List.getElem?_map, List.getElem?_modify]
    cases hown : fields[j]? with
    | none => rfl
    | some own =>
      by_cases hij : i = j
      · subst hij
        obtain ⟨field, hfield⟩ : ∃ field, baseFields[i]? = some field := by
          have hlength := congrArg List.length h.content_eq
          rw [List.length_map, List.length_map] at hlength
          have hi := (List.getElem?_eq_some_iff.mp hown).1
          have hlt : i < baseFields.length := by omega
          exact ⟨baseFields[i], List.getElem?_eq_getElem hlt⟩
        obtain ⟨_, hown', hcontent⟩ := exists_getElem?_of_map_eq h.content_eq hfield
        cases hown.symm.trans hown'
        have hsame : own.valueField = field.valueField := congrArg (·.2) hcontent
        obtain ⟨value, hsome⟩ := Option.isSome_iff_exists.mp (hvalue field hfield)
        rw [originalValue_eq hown]
        simp [content, restore, HttpRequest.RequestField.value, hsame, hsome]
      · simp [hij]
  · intro field hmem
    obtain ⟨j, hj⟩ := List.getElem?_of_mem hmem
    rw [List.getElem?_modify] at hj
    obtain ⟨own, hown, rfl⟩ := Option.map_eq_some_iff.mp hj
    by_cases hij : i = j
    · simp [hij, restore]
    · simpa [hij] using h.modified own (List.mem_of_getElem? hown)

/-- Fields that are the same in a respect to which the name belongs have the same names. -/
theorem map_nameField_of_map_eq {β : Type} {f : RequestField → Option Bytes × β}
    (hname : ∀ field, (f field).1 = field.nameField) {baseFields : List RequestField}
    (h : fields.map f = baseFields.map f) :
    fields.map (·.nameField) = baseFields.map (·.nameField) := by
  have hnames := congrArg (List.map Prod.fst) h
  have hfst : Prod.fst ∘ f = (·.nameField) := funext hname
  rw [List.map_map, List.map_map, hfst] at hnames
  exact hnames

theorem map_nameField_modify {f : RequestField → RequestField}
    (hname : ∀ field, (f field).nameField = field.nameField) (i : Nat) :
    (fields.modify i f).map (·.nameField) = fields.map (·.nameField) := by
  refine List.ext_getElem? fun j => ?_
  rw [List.getElem?_map, List.getElem?_map, List.getElem?_modify]
  cases fields[j]? with
  | none => rfl
  | some field =>
    by_cases hij : i = j
    · simp [hij, hname]
    · simp [hij]

theorem mutatedRequest_fields (env : RequestEnv) (hagent : ∃ header ∈ base.proto.header,
      header.name = HTTPHeaders.kUserAgent) (hne : fieldsOf base.proto target.type ≠ [])
    (hnames : fields.map (·.nameField) =
      (fieldsOf base.proto target.type).map (·.nameField)) (type : TargetType) :
    fieldsOf (mutatedRequest env base target fields).proto type =
      if type = target.type then fields else fieldsOf base.proto type := by
  have hfields := fieldsOf_withFields base.proto hne fields
  have hheaders : ∃ header ∈ (withFields base.proto fields target.type).header,
      header.name = HTTPHeaders.kUserAgent := by
    have hheader := hfields .headers
    have hnames' : (fieldsOf (withFields base.proto fields target.type) .headers).map
        (·.nameField) = base.proto.header.map (·.nameField) := by
      rw [hheader]
      split
      · rename_i htype
        rw [hnames, ← htype]
        rfl
      · rfl
    obtain ⟨header, hmem, hname⟩ := hagent
    have hmem' : header.nameField ∈ base.proto.header.map (·.nameField) :=
      List.mem_map_of_mem hmem
    rw [← hnames'] at hmem'
    obtain ⟨own, hown, heq⟩ := List.mem_map.mp hmem'
    exact ⟨own, hown, by rw [← hname, HttpRequest.RequestField.name, heq]; rfl⟩
  obtain ⟨added, hadded, hnone⟩ := fieldsOf_ofProto env
    (withFields base.proto fields target.type) type
  rw [hnone hheaders, List.append_nil, hfields] at hadded
  exact hadded

theorem mutatedRequest_rest (env : RequestEnv) (base : Request) (target : PayloadTarget)
    (fields : List RequestField) :
    (mutatedRequest env base target fields).proto.methodField = base.proto.methodField ∧
    (mutatedRequest env base target fields).proto.hostField = base.proto.hostField ∧
    (mutatedRequest env base target fields).proto.portField = base.proto.portField := by
  obtain ⟨url, added, hproto, _⟩ := ofProto_proto env (withFields base.proto fields target.type)
  have hmessage : (mutatedRequest env base target fields).proto = _ := hproto
  rw [hmessage]
  cases target.type <;> exact ⟨rfl, rfl, rfl⟩

theorem map_content_modify_inject {i : Nat} {own field : RequestField}
    (hown : fields[i]? = some own) (hname : own.nameField = field.nameField) (value : Bytes)
    (injection : InjectionMethod × EncodingType × Bytes) :
    (fields.modify i (inject value injection)).map content =
      (fields.map content).set i (content (inject value injection field)) := by
  refine List.ext_getElem? fun j => ?_
  rw [List.getElem?_map, List.getElem?_modify, List.getElem?_set, List.getElem?_map,
    List.length_map]
  by_cases hij : i = j
  · subst hij
    rw [hown, if_pos rfl, if_pos (List.getElem?_eq_some_iff.mp hown).1]
    simp [content, inject, hname]
  · rw [if_neg hij]
    simp [hij]

theorem Restored.differsInField (h : Restored (fieldsOf base.proto target.type) fields)
    (hbase : Unmodified base.proto) {i : Nat} {field : RequestField}
    (hfield : (fieldsOf base.proto target.type)[i]? = some field)
    {injection : InjectionMethod × EncodingType × Bytes}
    (hinjection : injection ∈ injections rule) :
    DiffersInField rule base (mutatedRequest env base target
      (fields.modify i (inject (originalValue fields i) injection))) target.type i injection
      field := by
  have hne : fieldsOf base.proto target.type ≠ [] := by
    rintro hempty
    rw [hempty] at hfield
    cases hfield
  have hnames : (fields.modify i (inject (originalValue fields i) injection)).map (·.nameField) =
      (fieldsOf base.proto target.type).map (·.nameField) := by
    have hinject : ∀ field, (inject (originalValue fields i) injection field).nameField =
        field.nameField := fun _ => rfl
    exact (map_nameField_modify hinject i).trans
      (map_nameField_of_map_eq (fun _ => rfl) h.content_eq)
  have hfields := mutatedRequest_fields env hbase.userAgent hne hnames
  obtain ⟨own, hown, hcontent⟩ := exists_getElem?_of_map_eq h.content_eq hfield
  constructor
  · exact hinjection
  · exact hfield
  · rw [hfields, if_pos rfl, map_content_modify_inject hown (congrArg (·.1) hcontent),
      h.content_eq, originalValue_eq hown, value_eq_of_content hcontent]
  · intro type' htype
    rw [hfields, if_neg htype]
  · intro type' j other hother
    rw [hfields] at hother
    by_cases htype : type' = target.type
    · rw [if_pos htype, List.getElem?_modify] at hother
      obtain ⟨before, hbefore, rfl⟩ := Option.map_eq_some_iff.mp hother
      have hunmodified := h.modified before (List.mem_of_getElem? hbefore)
      by_cases hij : i = j
      · simp [htype, hij, inject]
      · simp [hij, hunmodified, eq_comm]
    · rw [if_neg htype] at hother
      have hunmodified := hbase.fields type' other (List.mem_of_getElem? hother)
      simp [htype, hunmodified]

/-- Where each field but the last one has a value, what is injected leaves no trace. -/
theorem Restored.differsInOneField {indices : List Nat}
    (h : Restored (fieldsOf base.proto target.type) fields) (hbase : Unmodified base.proto)
    (hbounds : ∀ i ∈ indices, i < (fieldsOf base.proto target.type).length)
    (hvalues : ∀ i ∈ indices.dropLast, ∀ field,
      (fieldsOf base.proto target.type)[i]? = some field → field.hasValue) :
    ∀ request ∈ injectFields env rule base target indices fields,
      DiffersInOneField rule base request := by
  induction indices generalizing fields with
  | nil => exact fun _ hmem => absurd hmem List.not_mem_nil
  | cons i indices ih =>
    obtain ⟨hi, hbounds⟩ := List.forall_mem_cons.mp hbounds
    intro request hmem
    rcases List.mem_append.mp hmem with hmem | hmem
    · obtain ⟨injection, hinjection, rfl⟩ := List.mem_map.mp hmem
      obtain ⟨hmethod, hhost, hport⟩ := mutatedRequest_rest env base target
        (fields.modify i (inject (originalValue fields i) injection))
      exact ⟨hmethod, hhost, hport, target.type, i, injection, _,
        h.differsInField hbase (List.getElem?_eq_getElem hi) hinjection⟩
    · cases indices with
      | nil => exact absurd hmem List.not_mem_nil
      | cons next indices =>
        rw [List.dropLast_cons_cons] at hvalues
        obtain ⟨hvalue, hvalues⟩ := List.forall_mem_cons.mp hvalues
        exact ih (h.modify_restore hvalue) hbounds hvalues request hmem

/-- After a field has been restored, payloads are injected into the next one. -/
theorem mem_injectFields (env : RequestEnv) (base : Request) (target : PayloadTarget)
    {indices before after : List Nat} {i j : Nat} (hindices : indices = before ++ i :: j :: after)
    {injection : InjectionMethod × EncodingType × Bytes} (hinjection : injection ∈ injections rule)
    (fields : List RequestField) : ∃ fields' : List RequestField,
    fields'.map text = fields.map text ∧
    mutatedRequest env base target ((fields'.modify i (restore (originalValue fields' i))).modify j
      (inject (originalValue (fields'.modify i (restore (originalValue fields' i))) j) injection)) ∈
        injectFields env rule base target indices fields := by
  subst hindices
  induction before generalizing fields with
  | nil =>
    refine ⟨fields, rfl, List.mem_append_right _ (List.mem_append_left _ ?_)⟩
    exact List.mem_map_of_mem hinjection
  | cons earlier before ih =>
    obtain ⟨fields', htext, hmem⟩ :=
      ih (fields.modify earlier (restore (originalValue fields earlier)))
    exact ⟨fields', htext.trans (map_text_restore earlier), List.mem_append_right _ hmem⟩

theorem eligible_nodup (target : PayloadTarget) (fields : List RequestField) :
    (eligible target fields).Nodup := by
  unfold eligible
  split
  · cases (List.range fields.length).getLast? <;> simp
  · exact List.nodup_range.filter _

/-- A field that is not the one of the base request is the one that is injected into. -/
theorem DiffersInField.eq_of_content_ne {request : Request} {type type' : TargetType} {i j : Nat}
    {injection : InjectionMethod × EncodingType × Bytes} {field own before : RequestField}
    (h : DiffersInField rule base request type i injection field)
    (hown : (fieldsOf request.proto type')[j]? = some own)
    (hbefore : (fieldsOf base.proto type')[j]? = some before) (hne : content own ≠ content before) :
    type' = type ∧ j = i := by
  by_contra hother
  have hsame : ((fieldsOf request.proto type').map content)[j]? =
      ((fieldsOf base.proto type').map content)[j]? := by
    by_cases htype : type' = type
    · subst htype
      rw [h.content_eq, List.getElem?_set_ne fun hij => hother ⟨rfl, hij.symm⟩]
    · rw [h.content_other type' htype]
  rw [List.getElem?_map, List.getElem?_map, hown, hbefore] at hsame
  exact hne (Option.some.inj hsame)

theorem getElem?_restore_inject {i j : Nat} (hij : i ≠ j) (value original : Bytes)
    (injection : InjectionMethod × EncodingType × Bytes) :
    ((fields.modify i (restore value)).modify j (inject original injection))[i]? =
        (fields[i]?).map (restore value) ∧
      ((fields.modify i (restore value)).modify j (inject original injection))[j]? =
        (fields[j]?).map (inject original injection) := by
  rw [List.getElem?_modify, List.getElem?_modify, List.getElem?_modify, List.getElem?_modify]
  simp [hij, hij.symm]

/-- A request after a field without a value has been restored differs from the base request in
    two fields. -/
theorem not_differsInOneField {i j : Nat} (hij : i ≠ j) {field : RequestField}
    (hagent : ∃ header ∈ base.proto.header, header.name = HTTPHeaders.kUserAgent)
    (hfield : (fieldsOf base.proto target.type)[i]? = some field) (hvalue : ¬ field.hasValue)
    (hj : j < (fieldsOf base.proto target.type).length)
    (htext : fields.map text = (fieldsOf base.proto target.type).map text) (value : Bytes)
    (injection : InjectionMethod × EncodingType × Bytes) (original : Bytes) :
    ¬ DiffersInOneField rule base (mutatedRequest env base target
      ((fields.modify i (restore value)).modify j (inject original injection))) := by
  have hne : fieldsOf base.proto target.type ≠ [] := List.ne_nil_of_length_pos (by omega)
  have hnames : ((fields.modify i (restore value)).modify j (inject original injection)).map
      (·.nameField) = (fieldsOf base.proto target.type).map (·.nameField) := by
    have hinject : ∀ field, (inject original injection field).nameField = field.nameField :=
      fun _ => rfl
    have hrestore : ∀ field, (restore value field).nameField = field.nameField := fun _ => rfl
    rw [map_nameField_modify hinject, map_nameField_modify hrestore]
    exact map_nameField_of_map_eq (fun _ => rfl) htext
  have hfields := mutatedRequest_fields env hagent hne hnames target.type
  rw [if_pos rfl] at hfields
  obtain ⟨hatRestored, hatInjected⟩ := getElem?_restore_inject hij value original injection
  rw [← hfields] at hatRestored hatInjected
  obtain ⟨own, hown, _⟩ := exists_getElem?_of_map_eq htext hfield
  obtain ⟨other, hother, _⟩ := exists_getElem?_of_map_eq htext (List.getElem?_eq_getElem hj)
  rw [hown] at hatRestored
  rw [hother] at hatInjected
  rintro ⟨_, _, _, type, i', injection', field', hdiffers⟩
  -- The restored field has a value, and the other one is marked.
  have hcontent : content (restore value own) ≠ content field := by
    intro heq
    have hsome : some value = field.valueField := congrArg (·.2) heq
    rw [HttpRequest.RequestField.hasValue, ← hsome] at hvalue
    exact hvalue rfl
  have hrestored := hdiffers.eq_of_content_ne hatRestored hfield hcontent
  have hinjected := (hdiffers.modified target.type j _ hatInjected).mp rfl
  exact hij (hrestored.2.trans hinjected.2.symm)

theorem exists_next_of_mem_dropLast {indices : List Nat} {i : Nat} (hi : i ∈ indices.dropLast) :
    ∃ before j after, indices = before ++ i :: j :: after := by
  induction indices with
  | nil => exact absurd hi List.not_mem_nil
  | cons first indices ih =>
    cases indices with
    | nil => exact absurd hi List.not_mem_nil
    | cons second indices =>
      rw [List.dropLast_cons_cons] at hi
      rcases List.mem_cons.mp hi with rfl | hi
      · exact ⟨[], second, indices, rfl⟩
      · obtain ⟨before, j, after, heq⟩ := ih hi
        exact ⟨first :: before, j, after, by rw [heq, List.cons_append]⟩

theorem exists_not_differsInOneField (env : RequestEnv)
    (hagent : ∃ header ∈ base.proto.header, header.name = HTTPHeaders.kUserAgent)
    (hsome : injections rule ≠ []) (htarget : target ∈ rule.target) {i : Nat}
    (hi : i ∈ (eligible target (fieldsOf base.proto target.type)).dropLast) {field : RequestField}
    (hfield : (fieldsOf base.proto target.type)[i]? = some field) (hvalue : ¬ field.hasValue) :
    ∃ request ∈ generate env rule base, ¬ DiffersInOneField rule base request := by
  obtain ⟨injection, hinjection⟩ := List.exists_mem_of_ne_nil _ hsome
  obtain ⟨before, j, after, hsplit⟩ := exists_next_of_mem_dropLast hi
  have hij : i ≠ j := by
    have hnodup := eligible_nodup target (fieldsOf base.proto target.type)
    rw [hsplit] at hnodup
    have hrest := (List.nodup_append.mp hnodup).2.1
    exact fun heq => (List.nodup_cons.mp hrest).1 (heq ▸ List.mem_cons_self)
  have hj : j ∈ eligible target (fieldsOf base.proto target.type) := by
    rw [hsplit]
    simp
  obtain ⟨fields, htext, hmem⟩ := mem_injectFields env base target hsplit hinjection
    (fieldsOf base.proto target.type)
  rw [generate_eq]
  exact ⟨_, List.mem_flatMap.mpr ⟨target, htarget, hmem⟩,
    not_differsInOneField hij hagent hfield hvalue (lt_length_of_mem_eligible hj) htext _ _ _⟩

/-- The generated requests differ from the base request in the injected field only, exactly where
    no field without a value is restored before another one is injected into. -/
theorem generate_differsInOneField_iff (env : RequestEnv) (rule : GeneratorRule) (base : Request)
    (hbase : Unmodified base.proto) :
    (∀ request ∈ generate env rule base, DiffersInOneField rule base request) ↔
      injections rule = [] ∨ ∀ target ∈ rule.target,
        ∀ i ∈ (eligible target (fieldsOf base.proto target.type)).dropLast, ∀ field,
          (fieldsOf base.proto target.type)[i]? = some field → field.hasValue := by
  constructor
  · intro hall
    by_cases hnone : injections rule = []
    · exact .inl hnone
    refine .inr fun target htarget i hi field hfield => by_contra fun hvalue => ?_
    obtain ⟨request, hmem, hnot⟩ := exists_not_differsInOneField env hbase.userAgent hnone htarget
      hi hfield hvalue
    exact hnot (hall request hmem)
  · rintro hcondition request hmem
    rw [generate_eq] at hmem
    obtain ⟨target, htarget, hmem⟩ := List.mem_flatMap.mp hmem
    rcases hcondition with hnone | hvalues
    · rw [injectFields_of_injections_nil hnone] at hmem
      cases hmem
    · have hstart : Restored (fieldsOf base.proto target.type) (fieldsOf base.proto target.type) :=
        ⟨rfl, hbase.fields target.type⟩
      exact hstart.differsInOneField hbase (fun i hi => lt_length_of_mem_eligible hi)
        (hvalues target htarget) request hmem

end

/-- A rule that injects into all URL parameters. -/
def paramRule : GeneratorRule where
  method := [.setValue]
  encoding := [.none]
  target := [{ typeField := some .urlParams }]
  payloadField := some { arg := [ascii "x"] }

/-- A request with these URL parameters and with the default headers. -/
def paramRequest (param : List RequestField) : Request where
  proto := {
    hostField := some (ascii "site")
    param
    header :=
      [{ nameField := some HTTPHeaders.kUserAgent, valueField := some (ascii "plusfish") }] }

def debugField : RequestField where
  nameField := some (ascii "debug")

def oneField : RequestField where
  nameField := some (ascii "one")
  valueField := some (ascii "1")

theorem paramRequest_unmodified {param : List RequestField}
    (hparam : ∀ field ∈ param, field.modifiedField ≠ some true) :
    Unmodified (paramRequest param).proto := by
  refine ⟨fun type => ?_, _, List.mem_cons_self, rfl⟩
  cases type with
  | urlParams => exact hparam
  | headers =>
    intro field hmem
    rw [List.mem_singleton.mp hmem]
    decide
  | _ => exact fun _ hmem => absurd hmem List.not_mem_nil

/-- In `one=1&debug`, the value that is missing is that of the last field. -/
theorem generate_differsInOneField_lastMissing :
    (generate (RequestEnv.single (ascii "site")) paramRule
      (paramRequest [oneField, debugField])).length = 2 ∧
    ∀ request ∈ generate (RequestEnv.single (ascii "site")) paramRule
        (paramRequest [oneField, debugField]),
      DiffersInOneField paramRule (paramRequest [oneField, debugField]) request :=
  ⟨by decide +kernel,
    (generate_differsInOneField_iff _ paramRule _ (paramRequest_unmodified (by decide))).mpr
      (.inr (by decide))⟩

/-- In `debug&one=1`, the second field is injected into when the first one has an empty value. -/
theorem not_generate_differsInOneField : ¬ ∀ (env : RequestEnv) (rule : GeneratorRule)
    (base : Request), Unmodified base.proto →
      ∀ request ∈ generate env rule base, DiffersInOneField rule base request := by
  intro hall
  have hbase : Unmodified (paramRequest [debugField, oneField]).proto :=
    paramRequest_unmodified (by decide)
  have htarget : ({ typeField := some .urlParams } : PayloadTarget) ∈ paramRule.target :=
    List.mem_cons_self
  have hfirst : 0 ∈ (eligible { typeField := some .urlParams }
      (fieldsOf (paramRequest [debugField, oneField]).proto .urlParams)).dropLast := by decide
  obtain ⟨request, hmem, hnot⟩ := exists_not_differsInOneField (RequestEnv.single (ascii "site"))
    hbase.userAgent (by decide) htarget hfirst rfl (by decide)
  exact hnot (hall _ paramRule _ hbase request hmem)

end GenericGenerator

end plusfish

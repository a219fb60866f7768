import Plusfish.DataStore.Acceptance
import Plusfish.Library.Keyed
import Plusfish.Parsers.GumboFormFilter

open keyed ordered_map

namespace plusfish

/-- A field with a name and a value. -/
def requestField (name value : Bytes) : HttpRequest.RequestField :=
  { nameField := some name, valueField := some value }

namespace Request

/-- A field is added if there is none of its name. -/
theorem replaceOrAddExistingField_add (name value : Bytes)
    (fields : List HttpRequest.RequestField) :
    (replaceOrAddExistingField name value false fields).2 =
      addNew (·.name) fields (requestField name value) := by
  have hadd : addNew (·.name) fields (requestField name value) =
      if fields.any (·.name == name) then fields else fields ++ [requestField name value] := rfl
  rw [hadd]
  unfold replaceOrAddExistingField
  by_cases hany : (fields.any (·.name == name)) = true
  · have hcount : fields.countP (·.name == name) ≠ 0 := by
      obtain ⟨field, hmem, heq⟩ := List.any_eq_true.mp hany
      exact (List.countP_pos_iff.mpr ⟨field, hmem, heq⟩).ne'
    rw [if_pos hany]
    simp only [hcount, ne_eq, not_false_eq_true, Bool.not_false, if_true]
  · have hcount : fields.countP (·.name == name) = 0 := by
      rw [List.countP_eq_zero]
      intro field hmem heq
      exact hany (List.any_eq_true.mpr ⟨field, hmem, heq⟩)
    rw [if_neg hany]
    simp only [hcount, ne_eq, not_true_eq_false, if_false]
    rfl

/-- A request made for a URL has no body. -/
theorem ofUrl_bodyParam (env : RequestEnv) (url : Bytes) (origin : Option (Nat × Request)) :
    (ofUrl env url origin).proto.bodyParam = [] := by
  obtain ⟨gurl, heq⟩ :=
    parseUrl_eq env { origin := origin.map (·.1) } url (origin.map (·.2))
  rw [ofUrl, heq]
  split <;> rfl

end Request

namespace GumboFormFilter

open GumboParser

/-- The value of the first attribute with a name. -/
def attributeValue (attributes : List GumboAttribute) (name : Bytes) : Option Bytes :=
  (attributes.find? (·.name == name)).map (·.value)

/-- The field of an element that has a name. -/
def namedField (attributes : List GumboAttribute) : Option HttpRequest.RequestField :=
  (attributeValue attributes HTMLName.kName).map fun name =>
    requestField name ((attributeValue attributes HTMLName.kValue).getD [])

/-- The field of an input, text area or select element that has a name. -/
def formField : GumboEvent → Option HttpRequest.RequestField
  | .element element _ =>
    if element.tag ∈ [.input, .textarea, .select] then namedField element.attributes else none
  | .comment _ | .text _ => none

/-- The fields below a form, in document order. -/
def formFields (children : List GumboNode) : List HttpRequest.RequestField :=
  (preorderOf children).filterMap formField

/-- The form's method is GET. -/
def methodIsGet (attributes : List GumboAttribute) : Bool :=
  (getAttribute attributes HTMLName.kMethod).any fun method =>
    strCaseEq method.value (ascii "GET")

theorem find_attributeMap (attributes : List GumboAttribute) (name : Bytes) :
    find (attributeMap attributes) name = attributeValue attributes name := by
  have hfold (m : OrderedMap Bytes Bytes) (hm : Sorted m) :
      find (attributes.foldl (fun m attr => emplace m attr.name attr.value) m) name =
        (find m name).or (attributeValue attributes name) := by
    induction attributes generalizing m with
    | nil => simp [attributeValue]
    | cons attr attributes ih =>
      rw [List.foldl_cons, ih _ (sorted_emplace hm _ _), find_emplace_of_sorted hm]
      by_cases hname : attr.name = name
      · subst hname
        cases find m attr.name with
        | none => simp [attributeValue]
        | some old => simp
      · simp [attributeValue, hname]
  exact hfold [] List.Pairwise.nil

section
variable {env : RequestEnv}

theorem processInputField_eq (formMethodIsPost : Bool) (request : Request)
    (attributes : List GumboAttribute) :
    processInputField env formMethodIsPost request attributes =
      match namedField attributes with
      | none => request
      | some field => addRequestParameter env formMethodIsPost request field.name field.value := by
  unfold processInputField namedField
  simp only [find_attributeMap]
  cases attributeValue attributes HTMLName.kName with
  | none => rfl
  | some name => rfl

/-- A field of a form that is posted goes to the body, if its name is a new one there. -/
theorem processInputField_post (request : Request) (attributes : List GumboAttribute) :
    (processInputField env true request attributes).proto.bodyParam =
        (namedField attributes).toList.foldl (addNew (·.name)) request.proto.bodyParam ∧
      (processInputField env true request attributes).proto.param = request.proto.param := by
  rw [processInputField_eq]
  unfold namedField
  cases attributeValue attributes HTMLName.kName with
  | none => exact ⟨rfl, rfl⟩
  | some name => exact ⟨Request.replaceOrAddExistingField_add _ _ _, rfl⟩

/-- A field of a form that is not posted goes to the query, if its name is a new one there. -/
theorem processInputField_get (request : Request) (attributes : List GumboAttribute) :
    (processInputField env false request attributes).proto.param =
        (namedField attributes).toList.foldl (addNew (·.name)) request.proto.param ∧
      (processInputField env false request attributes).proto.bodyParam =
        request.proto.bodyParam := by
  rw [processInputField_eq]
  unfold namedField
  cases attributeValue attributes HTMLName.kName with
  | none => exact ⟨rfl, rfl⟩
  | some name => exact ⟨Request.replaceOrAddExistingField_add _ _ _, rfl⟩

/-- The fields go to one list of the request, each if its name is a new one there, and the
    other list stays as it is. -/
theorem foldl_processInputField {formMethodIsPost : Bool}
    (target other : Request → List HttpRequest.RequestField)
    (hstep : ∀ request attributes,
      target (processInputField env formMethodIsPost request attributes) =
          (namedField attributes).toList.foldl (addNew (·.name)) (target request) ∧
        other (processInputField env formMethodIsPost request attributes) = other request)
    (inputs : List (List GumboAttribute)) (request : Request) :
    target (inputs.foldl (processInputField env formMethodIsPost) request) =
        (inputs.filterMap namedField).foldl (addNew (·.name)) (target request) ∧
      other (inputs.foldl (processInputField env formMethodIsPost) request) = other request := by
  induction inputs generalizing request with
  | nil => exact ⟨rfl, rfl⟩
  | cons attributes inputs ih =>
    obtain ⟨htarget, hother⟩ := hstep request attributes
    obtain ⟨htargets, hothers⟩ := ih (processInputField env formMethodIsPost request attributes)
    rw [List.foldl_cons, htargets, hothers, htarget, hother]
    refine ⟨?_, rfl⟩
    cases hfield : namedField attributes with
    | none => rw [List.filterMap_cons_none hfield, Option.toList_none, List.foldl_nil]
    | some field =>
      rw [List.filterMap_cons_some hfield, Option.toList_some, List.foldl_cons, List.foldl_nil,
        List.foldl_cons]

mutual

/-- The recursion reaches the elements in document order. -/
theorem inputFields_filterMap : (nodes : List GumboNode) →
    (inputFields nodes).filterMap namedField = formFields nodes
  | [] => rfl
  | node :: nodes => by
    rw [inputFields, List.filterMap_append, inputFieldsOf_filterMap node,
      inputFields_filterMap nodes, formFields, formFields, preorderOf, List.filterMap_append]

theorem inputFieldsOf_filterMap : (node : GumboNode) →
    (inputFieldsOf node).filterMap namedField = (preorder node).filterMap formField
  | .element element children => by
    rw [inputFieldsOf, List.filterMap_append, inputFields_filterMap children, formFields, preorder,
      List.filterMap_cons]
    by_cases htag : element.tag ∈ [GumboTag.input, .textarea, .select]
    · have hinput : element.tag = .input ∨ element.tag = .textarea ∨ element.tag = .select := by
        simpa using htag
      rw [if_pos hinput, formField, if_pos htag, List.filterMap_cons, List.filterMap_nil]
      cases namedField element.attributes with
      | none => rfl
      | some field => rfl
    · have hinput : ¬ (element.tag = .input ∨ element.tag = .textarea ∨
          element.tag = .select) := by simpa using htag
      rw [if_neg hinput, formField, if_neg htag, List.filterMap_nil, List.nil_append]
  | .text _ | .comment _ | .other => rfl

end

end

/-- A form is made into a request that has, for POST, the first field of each name in its
    body, and for GET, those of names that the action does not have, after the parameters of
    the action. -/
theorem addForm_fields (env : RequestEnv) (baseRequest : Nat × Request) (self : GumboFormFilter)
    {element : GumboElement} (children : List GumboNode) {action : GumboAttribute}
    (htag : element.tag = .form)
    (haction : getAttribute element.attributes HTMLName.kAction = some action) :
    let own := Request.ofUrl env (util.unescapeHtml action.value) (some baseRequest)
    ∃ request, (self.addForm env baseRequest element children).requests =
        self.requests ++ [request] ∧
      (methodIsGet element.attributes = false →
        request.proto.bodyParam = firstOfEach (·.name) (formFields children) ∧
          request.proto.param = own.proto.param) ∧
      (methodIsGet element.attributes = true →
        request.proto.param = own.proto.param ++
            (firstOfEach (·.name) (formFields children)).filter (fun field =>
              !(own.proto.param.map (·.name)).contains field.name) ∧
          request.proto.bodyParam = []) := by
  intro own
  have hparse : parseElement env baseRequest element.tag element.attributes children =
      some (parseFormFieldRecursive env (!methodIsGet element.attributes) own children) := by
    unfold parseElement methodIsGet
    rw [if_neg (not_not_intro htag), haction, Option.map_some]
    cases getAttribute element.attributes HTMLName.kMethod with
    | none => rfl
    | some method => rfl
  have hbody : own.proto.bodyParam = [] := Request.ofUrl_bodyParam _ _ _
  refine ⟨_, by rw [addForm_requests, hparse, Option.toList_some], fun hmethod => ?_,
    fun hmethod => ?_⟩
  · rw [hmethod, Bool.not_false, parseFormFieldRecursive_eq_foldl]
    obtain ⟨htarget, hother⟩ := foldl_processInputField (·.proto.bodyParam) (·.proto.param)
      processInputField_post (inputFields children) own
    rw [htarget, hother, hbody, inputFields_filterMap, foldl_addNew]
    refine ⟨?_, rfl⟩
    simp
  · rw [hmethod, Bool.not_true, parseFormFieldRecursive_eq_foldl]
    obtain ⟨htarget, hother⟩ := foldl_processInputField (·.proto.param) (·.proto.bodyParam)
      processInputField_get (inputFields children) own
    rw [htarget, hother, hbody, inputFields_filterMap, foldl_addNew]
    exact ⟨rfl, rfl⟩

/-- A search form of a method, which has one field twice, the second time in a select element
    below another element. -/
def fieldsForm (method : String) : GumboElement × List GumboNode :=
  let field (tag : GumboTag) (name value : String) (children : List GumboNode) : GumboNode :=
    .element
      { tag, attributes := [⟨ascii "name", ascii name⟩, ⟨ascii "value", ascii value⟩] } children
  ({ tag := .form
     attributes :=
      [⟨ascii "action", ascii "http://site/"⟩, ⟨ascii "method", ascii method⟩] },
    [field .input "q" "1" [], .element { tag := .other } [field .select "q" "2" []],
      .text { text := ascii "or" }, field .textarea "t" "" []])

theorem addForm_fields_search : ∃ request : Request,
    (addForm (RequestEnv.single (ascii "site")) (0, {}) {} (fieldsForm "post").1
      (fieldsForm "post").2).requests = [request] ∧
    request.proto.bodyParam =
      [requestField (ascii "q") (ascii "1"), requestField (ascii "t") []] := by
  have htag : (fieldsForm "post").1.tag = .form := rfl
  have haction : getAttribute (fieldsForm "post").1.attributes HTMLName.kAction =
      some ⟨ascii "action", ascii "http://site/"⟩ := rfl
  obtain ⟨request, hrequests, hpost, _⟩ := addForm_fields (RequestEnv.single (ascii "site")) (0, {})
    {} (fieldsForm "post").2 htag haction
  obtain ⟨hbody, _⟩ := hpost (by decide)
  exact ⟨request, hrequests, hbody.trans (by decide)⟩

end GumboFormFilter

end plusfish

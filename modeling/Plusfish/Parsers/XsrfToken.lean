import Plusfish.DataStore.Acceptance
import Plusfish.Parsers.GumboFormFilter

open ordered_map visitors

namespace plusfish

namespace GumboFormFilter

open GumboParser

/-- A form for which the filter makes a request. -/
def isForm (element : GumboElement) : Bool :=
  element.tag == .form && (getAttribute element.attributes HTMLName.kAction).isSome

/-- A field that has a name, is hidden, and has the value of a potential token. -/
def isTokenField (attributes : List GumboAttribute) : Bool :=
  let attributes := attributeMap attributes
  (find attributes HTMLName.kName).isSome &&
    (find attributes HTMLName.kType).any (strCaseEq · (ascii "hidden")) &&
    util.isPotentialXSRFToken ((find attributes HTMLName.kValue).getD [])

/-- Whether there is a token in the subtree of a form. -/
def hasToken (children : List GumboNode) : Bool := (inputFields children).any isTokenField

def isTokenForm : GumboEvent → Bool
  | .element element children => isForm element && hasToken children
  | .comment _ | .text _ => false

/-- What a filter is after it has been shown a part of a document. -/
def shown (env : RequestEnv) (baseRequest : Nat × Request) (events : List GumboEvent)
    (self : GumboFormFilter) : GumboFormFilter :=
  visit [(filter env baseRequest).receive] events self

/-- The issues that a filter has reported since it was as before. -/
def reportedSince (before self : GumboFormFilter) : List IssueDetails :=
  self.issues.drop before.issues.length

/-- A new filter reports a form of the document exactly where the form has no token of its own. -/
def XsrfPerForm (env : RequestEnv) (baseRequest : Nat × Request) (root : GumboNode) : Prop :=
  ∀ self : GumboFormFilter, self.formHasPasswordField = false → self.formHasXsrfToken = false →
  ∀ before element children after,
    preorder root = before ++ .element element children :: after → isForm element →
    ((∃ issue ∈ reportedSince (shown env baseRequest before self)
        (shown env baseRequest (before ++ [.element element children]) self),
      issue.type = .xsrfPassive) ↔ ¬ hasToken children)

/-- No form without a token comes after a form with one. -/
def NoFormAfterToken (root : GumboNode) : Prop :=
  ∀ before element children after,
    preorder root = before ++ .element element children :: after → isForm element →
    (∃ event ∈ before, isTokenForm event) → hasToken children

section
variable {env : RequestEnv} {baseRequest : Nat × Request}

theorem shown_append_singleton (events : List GumboEvent) (event : GumboEvent)
    (self : GumboFormFilter) : shown env baseRequest (events ++ [event]) self =
      (filter env baseRequest).receive event (shown env baseRequest events self) :=
  visit_append events [event] self

theorem parseElement_isSome (env : RequestEnv) (baseRequest : Nat × Request)
    (element : GumboElement) (children : List GumboNode) :
    (parseElement env baseRequest element.tag element.attributes children).isSome =
      isForm element := by
  unfold parseElement isForm
  by_cases htag : element.tag = .form
  · simp [htag]
  · simp [htag]

theorem noteInputField_formHasXsrfToken (self : GumboFormFilter)
    (attributes : List GumboAttribute) :
    (self.noteInputField attributes).formHasXsrfToken =
      (self.formHasXsrfToken || isTokenField attributes) := by
  unfold noteInputField isTokenField
  dsimp only
  cases find (attributeMap attributes) HTMLName.kName with
  | none => simp
  | some name =>
    cases find (attributeMap attributes) HTMLName.kType with
    | none => simp
    | some typeValue => rfl

theorem noteInputField_issues (self : GumboFormFilter) (attributes : List GumboAttribute) :
    (self.noteInputField attributes).issues = self.issues := by
  unfold noteInputField
  dsimp only
  split <;> rfl

theorem foldl_noteInputField (fields : List (List GumboAttribute)) (self : GumboFormFilter) :
    (fields.foldl noteInputField self).formHasXsrfToken =
        (self.formHasXsrfToken || fields.any isTokenField) ∧
      (fields.foldl noteInputField self).issues = self.issues := by
  induction fields generalizing self with
  | nil => simp
  | cons field fields ih =>
    obtain ⟨htoken, hissues⟩ := ih (self.noteInputField field)
    rw [List.foldl_cons, htoken, hissues, noteInputField_formHasXsrfToken, noteInputField_issues,
      List.any_cons, Bool.or_assoc]
    exact ⟨rfl, rfl⟩

theorem analyzeCurrentForm_issues (self : GumboFormFilter) (base currentRequest : Request)
    (offset : Nat) : ∃ reported,
    (self.analyzeCurrentForm base currentRequest offset).issues = self.issues ++ reported ∧
    ((∃ issue ∈ reported, issue.type = .xsrfPassive) ↔ ¬ self.formHasXsrfToken) := by
  have hif (condition : Bool) (issue : IssueDetails) (issues : List IssueDetails) :
      (if condition then issues ++ [issue] else issues) =
        issues ++ if condition then [issue] else [] := by
    cases condition <;> simp
  unfold analyzeCurrentForm util.updateIssueVectorWithSnippet
  dsimp only
  rw [hif, hif, hif, List.append_assoc, List.append_assoc]
  refine ⟨_, rfl, ?_⟩
  -- The other two issues are about passwords.
  generalize (self.formHasPasswordField && !currentRequest.proto.ssl) = target
  generalize (self.formHasPasswordField && !base.proto.ssl) = login
  cases target <;> cases login <;> cases self.formHasXsrfToken <;> simp [IssueDetails.type]

/-- The note of a token is kept from one form to the next. -/
theorem receive_formHasXsrfToken (event : GumboEvent) (self : GumboFormFilter) :
    ((filter env baseRequest).receive event self).formHasXsrfToken =
      (self.formHasXsrfToken || isTokenForm event) := by
  cases event with
  | comment text => exact (Bool.or_false _).symm
  | text text => exact (Bool.or_false _).symm
  | element element children =>
    have hform := parseElement_isSome env baseRequest element children
    have hreceive : (filter env baseRequest).receive (.element element children) self =
        self.addForm env baseRequest element children := rfl
    rw [hreceive, addForm, isTokenForm, ← hform]
    cases parseElement env baseRequest element.tag element.attributes children with
    | none => exact (Bool.or_false _).symm
    | some currentRequest => exact (foldl_noteInputField (inputFields children) _).1

theorem shown_formHasXsrfToken (events : List GumboEvent) (self : GumboFormFilter) :
    (shown env baseRequest events self).formHasXsrfToken =
      (self.formHasXsrfToken || events.any isTokenForm) := by
  induction events generalizing self with
  | nil => simp [shown]
  | cons event events ih =>
    have hcons : shown env baseRequest (event :: events) self =
        shown env baseRequest events ((filter env baseRequest).receive event self) := rfl
    rw [hcons, ih, receive_formHasXsrfToken, List.any_cons, Bool.or_assoc]

/-- A form is reported where there is no token in it and none has been noted before it. -/
theorem addForm_reports_iff {element : GumboElement} (hform : isForm element)
    (children : List GumboNode) (self : GumboFormFilter) :
    (∃ issue ∈ reportedSince self (self.addForm env baseRequest element children),
      issue.type = .xsrfPassive) ↔ ¬ (self.formHasXsrfToken || hasToken children) := by
  have hform := (parseElement_isSome env baseRequest element
    children).trans hform
  obtain ⟨currentRequest, hsome⟩ := Option.isSome_iff_exists.mp hform
  unfold addForm
  rw [hsome]
  obtain ⟨htoken, hissues⟩ := foldl_noteInputField (inputFields children)
    { self with formHasPasswordField := false }
  obtain ⟨reported, hreported, hiff⟩ := analyzeCurrentForm_issues ((inputFields children).foldl
    noteInputField { self with formHasPasswordField := false }) baseRequest.2 currentRequest
    element.startPos.offset
  rw [htoken] at hiff
  rw [hissues] at hreported
  unfold reportedSince
  dsimp only
  rw [hreported, List.drop_left]
  exact hiff

/-- The form is reported where neither it nor a form before it has a token. -/
theorem shown_reports_iff {self : GumboFormFilter} (hself : self.formHasXsrfToken = false)
    (before : List GumboEvent) {element : GumboElement} (hform : isForm element)
    (children : List GumboNode) :
    (∃ issue ∈ reportedSince (shown env baseRequest before self)
        (shown env baseRequest (before ++ [.element element children]) self),
      issue.type = .xsrfPassive) ↔
        ¬ ((∃ event ∈ before, isTokenForm event) ∨ hasToken children) := by
  rw [shown_append_singleton]
  refine (addForm_reports_iff hform children (shown env baseRequest before self)).trans ?_
  rw [shown_formHasXsrfToken, hself, Bool.false_or, Bool.or_eq_true, List.any_eq_true]

theorem noFormAfterToken_of_xsrfPerForm {root : GumboNode}
    (h : XsrfPerForm env baseRequest root) : NoFormAfterToken root := by
  intro before element children after hroot hform hbefore
  by_contra hnone
  have hreported := (h {} rfl rfl before element children after hroot hform).mpr hnone
  exact (shown_reports_iff rfl before hform children).mp hreported (.inl hbefore)

/-- The filter takes the forms of a document one by one, and reports each of them by itself
    exactly where no form without a token comes after a form with one. -/
theorem xsrfPerForm_iff (env : RequestEnv) (baseRequest : Nat × Request) (root : GumboNode) :
    (∀ self, filterDocument [filter env baseRequest] root self =
      shown env baseRequest (preorder root) self) ∧
    (XsrfPerForm env baseRequest root ↔ NoFormAfterToken root) := by
  refine ⟨filterDocumentNode_eq_visit (List.cons_ne_nil _ _) root,
    noFormAfterToken_of_xsrfPerForm, ?_⟩
  intro h self _ hself before element children after hroot hform
  have hown := h before element children after hroot hform
  rw [shown_reports_iff hself before hform children, or_iff_right_of_imp hown]

end

/-- A form with an input field that has these attributes. -/
def formWith (attributes : List GumboAttribute) : GumboNode :=
  .element { tag := .form, attributes := [⟨HTMLName.kAction, ascii "/"⟩] }
    [.element { tag := .input, attributes } []]

def tokenForm : GumboNode :=
  formWith [⟨HTMLName.kType, ascii "hidden"⟩, ⟨HTMLName.kName, ascii "x"⟩,
    ⟨HTMLName.kValue, ascii "aGVsbG93b3JsZA=="⟩]

def searchForm : GumboNode := formWith [⟨HTMLName.kName, ascii "q"⟩]

/-- A form without a token is not reported after a form with one. -/
theorem not_xsrfPerForm : ¬ ∀ (env : RequestEnv) (baseRequest : Nat × Request) (root : GumboNode),
    XsrfPerForm env baseRequest root := by
  intro hall
  have h := noFormAfterToken_of_xsrfPerForm
    (hall (RequestEnv.single []) (0, {}) (.element { tag := .other } [tokenForm, searchForm]))
  have hsearch := h [_, _, _] _ _ _ rfl (by decide)
    ⟨_, List.mem_cons_of_mem _ List.mem_cons_self, by decide⟩
  exact absurd hsearch (by decide)

end GumboFormFilter

end plusfish

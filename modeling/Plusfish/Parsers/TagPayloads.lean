import Plusfish.Parsers.GumboXssFilter
import Plusfish.Parsers.Payloads

open matching visitors

namespace plusfish

open util

namespace GumboXssFilter

open GumboParser

/-- The element, if its tag is an unknown one. -/
def unknownElement : GumboEvent → Option GumboElement
  | .element element _ => if element.tag = .unknown then some element else none
  | .comment _ | .text _ => none

/-- The elements of a document whose tags are unknown, in their order. -/
def unknownElements (root : GumboNode) : List GumboElement :=
  (preorder root).filterMap unknownElement

/-- The text of an element's own tag. -/
def ownTag (element : GumboElement) : Bytes :=
  (element.originalTag.data.getD []).take element.originalTag.length

/-- The issue for a payload that is found in an unknown tag. -/
def tagIssue (origRequest : Request) (element : GumboElement) (reqId : Int) : IssueDetails :=
  { severityField := some .high
    typeField := some .xssReflectedTag
    extraInfo := some
      (ascii "Found injected XSS payload at line: " ++ decimal element.startPos.line)
    requestId := some reqId
    responseBodyOffset := some element.startPos.offset
    responseSnippet := responseSnippet ((origRequest.response.map (·.body)).getD [])
      element.startPos.offset }

/-- The issues of reflected tags among those of a document. -/
def tagIssues (regexes : ScrapeRegexes) (origRequest : Request) (root : GumboNode) :
    List IssueDetails :=
  (filterDocument [filter regexes origRequest] root []).filter (·.type = .xssReflectedTag)

/-- What is reported for an element is the payload of its own tag, and nothing where that has
    none. -/
def ReportsOwnTag (regexes : ScrapeRegexes) (origRequest : Request) (element : GumboElement) :
    Prop :=
  (∀ number, FirstPayloadTag (ownTag element) number →
    parseElement regexes origRequest element [] = [tagIssue origRequest element number]) ∧
  ((¬ ∃ number, FirstPayloadTag (ownTag element) number) →
    parseElement regexes origRequest element [] = [])

/-- The first payload tag from the start of an element on, if there is one, stands in the own tag
    of the element exactly if its number fits into an `int64`. -/
def FirstTagIsOwn (element : GumboElement) : Prop :=
  ∀ text, element.originalTag.data = some text → ∀ before tag number,
    First PayloadTag text before tag → IsPayloadTag tag number →
      (number < 2 ^ 63 ↔ (before ++ tag).length ≤ element.originalTag.length)

section
variable {regexes : ScrapeRegexes} {origRequest : Request} {element : GumboElement}

theorem parseElement_append (element : GumboElement) (issues : List IssueDetails) :
    parseElement regexes origRequest element issues =
      issues ++ parseElement regexes origRequest element [] := by
  unfold parseElement
  split
  · split
    · rfl
    · exact (List.append_nil _).symm
  · split
    · rfl
    · exact (List.append_nil _).symm

theorem receive_append (event : GumboEvent) (issues : List IssueDetails) :
    (filter regexes origRequest).receive event issues =
      issues ++ (filter regexes origRequest).receive event [] := by
  cases event with
  | element element children => exact parseElement_append element issues
  | comment | text => exact (List.append_nil _).symm

theorem filterDocument_eq_flatMap (root : GumboNode) :
    filterDocument [filter regexes origRequest] root [] =
      (preorder root).flatMap fun event => (filter regexes origRequest).receive event [] := by
  have hvisit (events : List GumboEvent) (issues : List IssueDetails) :
      visit [(filter regexes origRequest).receive] events issues =
        issues ++ events.flatMap fun event => (filter regexes origRequest).receive event [] := by
    induction events generalizing issues with
    | nil => exact (List.append_nil _).symm
    | cons event events ih =>
      rw [visit_cons, ih, List.flatMap_cons, ← List.append_assoc]
      congr 1
      exact receive_append event issues
  rw [filterDocument, filterDocumentNode_eq_visit (List.cons_ne_nil _ _)]
  exact hvisit (preorder root) []

theorem parseElement_unknown (htag : element.tag = .unknown) :
    parseElement regexes origRequest element [] =
      (element.originalTag.data.bind regexes.tagXssPayload).toList.map
        (tagIssue origRequest element) := by
  rw [parseElement, if_pos htag]
  cases element.originalTag.data.bind regexes.tagXssPayload with
  | none => rfl
  | some reqId => rfl

theorem parseElement_known (htag : element.tag ≠ .unknown) :
    (parseElement regexes origRequest element []).filter (·.type = .xssReflectedTag) = [] := by
  rw [parseElement, if_neg htag]
  split
  · rfl
  · rfl

/-- The issues of reflected tags are those that are reported for the unknown elements. -/
theorem tagIssues_eq_flatMap (root : GumboNode) :
    tagIssues regexes origRequest root =
      (unknownElements root).flatMap fun element =>
        parseElement regexes origRequest element [] := by
  rw [tagIssues, filterDocument_eq_flatMap, unknownElements]
  induction preorder root with
  | nil => rfl
  | cons event events ih =>
    rw [List.flatMap_cons, List.filter_append, ih]
    cases event with
    | element element children =>
      by_cases htag : element.tag = .unknown
      · have hunknown : unknownElement (.element element children) = some element := if_pos htag
        have hall : (parseElement regexes origRequest element []).filter
            (·.type = .xssReflectedTag) = parseElement regexes origRequest element [] := by
          rw [parseElement_unknown htag, List.filter_eq_self]
          intro issue hissue
          obtain ⟨reqId, _, rfl⟩ := List.mem_map.mp hissue
          rfl
        rw [List.filterMap_cons_some hunknown, List.flatMap_cons]
        exact congrArg (· ++ _) hall
      · have hknown : unknownElement (.element element children) = none := if_neg htag
        rw [List.filterMap_cons_none hknown]
        exact congrArg (· ++ _) (parseElement_known htag)
    | comment | text => rfl

theorem firstTagIsOwn_of_first {text before tag : Bytes} {number : ℕ}
    (hdata : element.originalTag.data = some text) (hfirst : First PayloadTag text before tag)
    (hnumber : IsPayloadTag tag number) : FirstTagIsOwn element ↔
      (number < 2 ^ 63 ↔ (before ++ tag).length ≤ element.originalTag.length) := by
  constructor
  · intro h
    exact h text hdata before tag number hfirst hnumber
  · intro h text' hdata' before' tag' number' hfirst' hnumber'
    obtain rfl : text = text' := Option.some.inj (hdata.symm.trans hdata')
    obtain ⟨rfl, rfl⟩ := hfirst.eq payloadTag_apart hfirst'
    rwa [hnumber'.number_unique hnumber]

/-- What is reported for an unknown element is its own payload exactly if the first one from its
    start on is its own. -/
theorem reportsOwnTag_iff (hfinds : FindsPayloads regexes) (htag : element.tag = .unknown) :
    ReportsOwnTag regexes origRequest element ↔ FirstTagIsOwn element := by
  rw [ReportsOwnTag, parseElement_unknown htag]
  cases hdata : element.originalTag.data with
  | none =>
    have hown : ownTag element = [] := by rw [ownTag, hdata, Option.getD_none, List.take_nil]
    rw [hown]
    refine iff_of_true ⟨fun number h => absurd h FirstPayloadTag.not_nil, fun _ => rfl⟩ ?_
    intro text h
    rw [hdata] at h
    cases h
  | some text =>
    have hown : ownTag element = text.take element.originalTag.length := by
      rw [ownTag, hdata, Option.getD_some]
    rw [hown, Option.bind_some]
    by_cases hsome : ∃ before tag, First PayloadTag text before tag
    · obtain ⟨before, tag, hfirst⟩ := hsome
      obtain ⟨number, hnumber⟩ := hfirst.1.1
      have htake := firstPayloadTag_take_iff hfirst hnumber element.originalTag.length
      rw [firstTagIsOwn_of_first hdata hfirst hnumber, hfinds.of_first hfirst hnumber]
      by_cases hle : (before ++ tag).length ≤ element.originalTag.length
      · -- The tag is the element's own.
        have hexists : ∃ number,
            FirstPayloadTag (text.take element.originalTag.length) number :=
          ⟨number, (htake number).mpr ⟨hle, rfl⟩⟩
        simp only [hle, iff_true, hexists, not_true_eq_false, false_implies, and_true]
        constructor
        · intro h
          by_contra hlarge
          have hnone := h number ((htake number).mpr ⟨hle, rfl⟩)
          rw [if_neg hlarge] at hnone
          cases hnone
        · intro hfits number' hnumber'
          rw [((htake number').mp hnumber').2, if_pos hfits]
          rfl
      · -- The element's own tag ends before the payload does, and has none.
        have hnone (number' : ℕ) :
            ¬ FirstPayloadTag (text.take element.originalTag.length) number' :=
          fun h => hle ((htake number').mp h).1
        simp only [hle, iff_false, hnone, exists_false, not_false_eq_true, true_implies,
          false_implies, implies_true, true_and]
        constructor
        · intro hempty hfits
          rw [if_pos hfits] at hempty
          cases hempty
        · intro hlarge
          rw [if_neg hlarge]
          rfl
    · have hnone (number : ℕ) :
          ¬ FirstPayloadTag (text.take element.originalTag.length) number := by
        rintro ⟨before, tag, hfirst, _⟩
        exact hsome (exists_first (hfirst.1.mono (List.take_prefix _ _)))
      rw [hfinds.of_none hsome]
      refine iff_of_true ⟨fun number h => absurd h (hnone number), fun _ => rfl⟩ ?_
      intro text' hdata' before tag number hfirst _
      obtain rfl : text = text' := Option.some.inj (hdata.symm.trans hdata')
      exact absurd ⟨before, tag, hfirst⟩ hsome

open Classical in
/-- The reports of tags are those of the elements whose own tags are payloads. -/
structure TagsAttributed (regexes : ScrapeRegexes) (origRequest : Request) (root : GumboNode) :
    Prop where
  elements : ∀ element ∈ unknownElements root, ReportsOwnTag regexes origRequest element
  count : (tagIssues regexes origRequest root).length =
    (unknownElements root).countP fun element => ∃ number, FirstPayloadTag (ownTag element) number

/-- If every element is reported by its own tag, there is one issue for each that has a
    payload. -/
theorem tagsAttributed_of_elements {root : GumboNode}
    (h : ∀ element ∈ unknownElements root, ReportsOwnTag regexes origRequest element) :
    TagsAttributed regexes origRequest root := by
  classical
  refine ⟨h, ?_⟩
  rw [tagIssues_eq_flatMap]
  generalize unknownElements root = elements at h ⊢
  induction elements with
  | nil => rfl
  | cons element elements ih =>
    obtain ⟨hown, hnone⟩ := h element List.mem_cons_self
    have hrest := ih fun element hmem => h element (List.mem_cons_of_mem _ hmem)
    rw [List.flatMap_cons, List.length_append, hrest, List.countP_cons, Nat.add_comm]
    congr 1
    by_cases hsome : ∃ number, FirstPayloadTag (ownTag element) number
    · obtain ⟨number, hnumber⟩ := hsome
      rw [hown number hnumber, if_pos (by simpa using ⟨number, hnumber⟩)]
      rfl
    · rw [hnone hsome, if_neg (by simpa using hsome)]
      rfl

/-- The issues of reflected tags are those that are made for the unknown elements, and these are
    made by their own tags exactly where the first payload tag from the start of each element
    on is its own. -/
theorem tagsAttributed_iff (hfinds : FindsPayloads regexes) (origRequest : Request)
    (root : GumboNode) :
    tagIssues regexes origRequest root = (unknownElements root).flatMap (fun element =>
        parseElement regexes origRequest element []) ∧
      (TagsAttributed regexes origRequest root ↔
        ∀ element ∈ unknownElements root, FirstTagIsOwn element) := by
  have hunknown : ∀ element ∈ unknownElements root, element.tag = .unknown := by
    intro element helement
    obtain ⟨event, _, hevent⟩ := List.mem_filterMap.mp helement
    cases event with
    | element other children =>
      rw [unknownElement] at hevent
      split at hevent
      · rename_i htag
        exact Option.some.inj hevent ▸ htag
      · cases hevent
    | comment | text => cases hevent
  refine ⟨tagIssues_eq_flatMap root, fun h element hmem => ?_, fun h => ?_⟩
  · exact (reportsOwnTag_iff hfinds (hunknown element hmem)).mp (h.elements element hmem)
  · exact tagsAttributed_of_elements fun element hmem =>
      (reportsOwnTag_iff hfinds (hunknown element hmem)).mpr (h element hmem)

end

/-- An element of an unknown tag, with the text from its start on. -/
def unknownTag (text : String) (length : ℕ) : GumboElement where
  tag := .unknown
  originalTag := ⟨some (ascii text), length⟩

theorem payloadTag_42 : IsPayloadTag (ascii "<plus42fish>") 42 :=
  ⟨ascii "plus42fish", rfl, ascii "plus", ascii "42", ascii "fish", rfl, spells_self _,
    ⟨by decide, by decide +kernel⟩, spells_self _, by decide⟩

theorem foo_no_payloadTag : ¬ ∃ before tag, First PayloadTag (ascii "<foo>") before tag := by
  rintro ⟨before, tag, hoccurs, _⟩
  have hlate : 6 ≤ before.length := le_length_of_occurs (by decide) hoccurs
  have hle : (before ++ tag).length ≤ 5 := hoccurs.2.length_le
  rw [List.length_append] at hle
  omega

/-- A payload tag, and another unknown one after it. -/
def payloadBeforeTag : GumboNode :=
  .element { tag := .other }
    [.element (unknownTag "<plus42fish><foo>" 12) [.element (unknownTag "<foo>" 5) []]]

theorem tagsAttributed_payloadBeforeTag :
    TagsAttributed payloadRegexes {} payloadBeforeTag ∧
    tagIssues payloadRegexes {} payloadBeforeTag =
      [tagIssue {} (unknownTag "<plus42fish><foo>" 12) 42] := by
  have hfirst : First PayloadTag (ascii "<plus42fish><foo>") [] (ascii "<plus42fish>") :=
    ⟨⟨⟨42, payloadTag_42⟩, ⟨ascii "<foo>", rfl⟩⟩, fun _ _ _ => Nat.zero_le _⟩
  have hpayload : FirstTagIsOwn (unknownTag "<plus42fish><foo>" 12) :=
    (firstTagIsOwn_of_first rfl hfirst payloadTag_42).mpr (iff_of_true (by decide) (by decide))
  have hother : FirstTagIsOwn (unknownTag "<foo>" 5) := by
    intro text hdata before tag number hfirst _
    cases hdata
    exact absurd ⟨before, tag, hfirst⟩ foo_no_payloadTag
  have hunknown : unknownElements payloadBeforeTag =
      [unknownTag "<plus42fish><foo>" 12, unknownTag "<foo>" 5] := rfl
  obtain ⟨hissues, hiff⟩ := tagsAttributed_iff payloadRegexes_finds {} payloadBeforeTag
  refine ⟨hiff.mpr fun element hmem => ?_, ?_⟩
  · rw [hunknown, List.mem_cons, List.mem_singleton] at hmem
    rcases hmem with rfl | rfl
    · exact hpayload
    · exact hother
  · have hfound : payloadRegexes.tagXssPayload (ascii "<plus42fish><foo>") = some 42 :=
      payloadRegexes_finds.of_first hfirst payloadTag_42
    have hnothing : payloadRegexes.tagXssPayload (ascii "<foo>") = none :=
      payloadRegexes_finds.of_none foo_no_payloadTag
    rw [hissues, hunknown, List.flatMap_cons, List.flatMap_singleton, parseElement_unknown rfl,
      parseElement_unknown rfl]
    simp [unknownTag, hfound, hnothing]

/-- An unknown tag without a payload, before one that is a payload. -/
def tagBeforePayload : GumboNode :=
  .element (unknownTag "<foo><plus42fish>" 5) [.element (unknownTag "<plus42fish>" 12) []]

/-- The payload is reported for the tag before it as well. -/
theorem tagBeforePayload_reported : FindsPayloads payloadRegexes ∧
    parseElement payloadRegexes {} (unknownTag "<foo><plus42fish>" 5) [] =
      [tagIssue {} (unknownTag "<foo><plus42fish>" 5) 42] ∧
    (¬ ∃ number, FirstPayloadTag (ownTag (unknownTag "<foo><plus42fish>" 5)) number) ∧
    ¬ TagsAttributed payloadRegexes {} tagBeforePayload := by
  have hfirst : First PayloadTag (ascii "<foo><plus42fish>") (ascii "<foo>")
      (ascii "<plus42fish>") :=
    ⟨⟨⟨42, payloadTag_42⟩, List.prefix_rfl⟩, fun before tag hoccurs =>
      le_length_of_occurs (by decide) hoccurs⟩
  have hreport : parseElement payloadRegexes {} (unknownTag "<foo><plus42fish>" 5) [] =
      [tagIssue {} (unknownTag "<foo><plus42fish>" 5) 42] := by
    have hfound : payloadRegexes.tagXssPayload (ascii "<foo><plus42fish>") = some 42 :=
      payloadRegexes_finds.of_first hfirst payloadTag_42
    have hdata : (unknownTag "<foo><plus42fish>" 5).originalTag.data =
        some (ascii "<foo><plus42fish>") := rfl
    rw [parseElement_unknown rfl, hdata, Option.bind_some, hfound]
    rfl
  have hnone : ¬ ∃ number,
      FirstPayloadTag (ownTag (unknownTag "<foo><plus42fish>" 5)) number := by
    rintro ⟨number, hnumber⟩
    have hlength := ((firstPayloadTag_take_iff hfirst payloadTag_42 5 number).mp hnumber).1
    exact absurd hlength (by decide)
  refine ⟨payloadRegexes_finds, hreport, hnone, fun h => ?_⟩
  have hempty := (h.elements (unknownTag "<foo><plus42fish>" 5) List.mem_cons_self).2 hnone
  rw [hreport] at hempty
  cases hempty

end GumboXssFilter

end plusfish

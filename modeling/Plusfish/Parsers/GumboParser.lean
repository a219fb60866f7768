import Plusfish.Library.OrderedMap
import Plusfish.Library.Visitors
import Plusfish.Bytes

open ordered_map visitors

namespace plusfish

namespace HTMLName

def kAction : Bytes := ascii "action"
def kContent : Bytes := ascii "content"
def kHref : Bytes := ascii "href"
def kHttpEquiv : Bytes := ascii "http-equiv"
def kMethod : Bytes := ascii "method"
def kName : Bytes := ascii "name"
def kSrc : Bytes := ascii "src"
def kType : Bytes := ascii "type"
def kUrl : Bytes := ascii "url"
def kValue : Bytes := ascii "value"

end HTMLName

/-- The tags that the filters tell apart. -/
inductive GumboTag where
  | form
  | input
  | textarea
  | select
  | «meta»
  | script
  | unknown
  | other
deriving DecidableEq

/-- An attribute of an element. One without a value has the empty one. -/
structure GumboAttribute where
  name : Bytes
  value : Bytes

/-- A piece of the document. It is given by the text from its start to the end of the document,
    and by its length. What is not in the document has no data. -/
structure GumboStringPiece where
  data : Option Bytes := none
  length : Nat := 0

structure GumboSourcePosition where
  line : Nat := 0
  offset : Nat := 0

/-- An element, apart from its children. -/
structure GumboElement where
  tag : GumboTag
  originalTag : GumboStringPiece := {}
  startPos : GumboSourcePosition := {}
  attributes : List GumboAttribute := []

structure GumboText where
  text : Bytes
  originalText : GumboStringPiece := {}

/-- A document tree, which a library makes that is not part of the repository. Nodes of other
    types are not looked at, and neither is what is below them. -/
inductive GumboNode where
  | element (element : GumboElement) (children : List GumboNode)
  | text (text : GumboText)
  | comment (text : GumboText)
  | other

/-- A filter works on a state that it may share with other filters. -/
structure GumboFilter (σ : Type) where
  parseElement : GumboElement → List GumboNode → σ → σ
  parseComment : GumboText → σ → σ
  parseText : GumboText → σ → σ

/-- What a filter is shown of a document: an element, with what is below it, or a text. -/
inductive GumboEvent where
  | element (element : GumboElement) (children : List GumboNode)
  | comment (text : GumboText)
  | text (text : GumboText)

namespace GumboFilter

variable {σ : Type}

def receive (filter : GumboFilter σ) : GumboEvent → σ → σ
  | .element element children => filter.parseElement element children
  | .comment text => filter.parseComment text
  | .text text => filter.parseText text

def ofReceive (receive : GumboEvent → σ → σ) : GumboFilter σ where
  parseElement element children := receive (.element element children)
  parseComment text := receive (.comment text)
  parseText text := receive (.text text)

@[simp] theorem receive_ofReceive (receive : GumboEvent → σ → σ) :
    (ofReceive receive).receive = receive := by
  funext event
  cases event <;> rfl

/-- The filters of a list, each of which notes what it is shown, under its position. -/
def noting (filters : List (GumboFilter σ)) : List (GumboFilter (σ × List (Nat × GumboEvent))) :=
  (visitors.noting (filters.map receive)).map ofReceive

/-- A filter whose state is a part of a larger one. -/
def within {τ : Type} (get : τ → σ) (set : τ → σ → τ) (filter : GumboFilter σ) : GumboFilter τ where
  parseElement element children state :=
    set state (filter.parseElement element children (get state))
  parseComment text state := set state (filter.parseComment text (get state))
  parseText text state := set state (filter.parseText text (get state))

theorem receive_within {τ : Type} (get : τ → σ) (set : τ → σ → τ) (filter : GumboFilter σ)
    (event : GumboEvent) (state : τ) :
    (filter.within get set).receive event state = set state (filter.receive event (get state)) := by
  cases event <;> rfl

/-- What is not in the filter's part of the state stays as it is. -/
theorem apart_receive_within {τ υ : Type} {apart : τ → υ} {get : τ → σ} {set : τ → σ → τ}
    (hset : ∀ state part, apart (set state part) = apart state) (filter : GumboFilter σ)
    (event : GumboEvent) (state : τ) :
    apart ((filter.within get set).receive event state) = apart state := by
  rw [receive_within, hset]

end GumboFilter

namespace GumboParser

/-- `GetAttribute`: the library compares names without regard to case. -/
def getAttribute (attributes : List GumboAttribute) (name : Bytes) : Option GumboAttribute :=
  attributes.find? fun attr => strCaseEq attr.name name

/-- `FillAttributeMap`. The first attribute of a name counts. -/
def attributeMap (attributes : List GumboAttribute) : OrderedMap Bytes Bytes :=
  attributes.foldl (fun outputMap attr => emplace outputMap attr.name attr.value) []

section
variable {σ : Type} (filters : List (GumboFilter σ))

mutual

/-- The source takes the children of an element in the loop over the filters, so that where
    there is no filter there are none. -/
def filterDocumentNode : GumboNode → σ → σ
  | .element element children, state =>
    let state := filters.foldl (fun state filter =>
      filter.parseElement element children state) state
    if filters.isEmpty then state else filterDocumentNodes children state
  | .comment text, state => filters.foldl (fun state filter => filter.parseComment text state) state
  | .text text, state => filters.foldl (fun state filter => filter.parseText text state) state
  | .other, state => state

def filterDocumentNodes : List GumboNode → σ → σ
  | [], state => state
  | node :: nodes, state => filterDocumentNodes nodes (filterDocumentNode node state)

end

/-- `FilterDocument`, for the root of the document. -/
def filterDocument (root : GumboNode) (state : σ) : σ := filterDocumentNode filters root state

end

mutual

/-- The elements, comments and texts of a document, in the order in which they start. -/
def preorder : GumboNode → List GumboEvent
  | .element element children => .element element children :: preorderOf children
  | .comment text => [.comment text]
  | .text text => [.text text]
  | .other => []

def preorderOf : List GumboNode → List GumboEvent
  | [] => []
  | node :: nodes => preorder node ++ preorderOf nodes

end

section
variable {σ : Type} {filters : List (GumboFilter σ)}

theorem showAll_receive (filters : List (GumboFilter σ)) (event : GumboEvent) (state : σ) :
    showAll (filters.map GumboFilter.receive) event state =
      filters.foldl (fun state filter => filter.receive event state) state := by
  rw [showAll, List.foldl_map]

mutual

/-- The walk through the tree shows its nodes in document order to all the filters. -/
theorem filterDocumentNode_eq_visit (hfilters : filters ≠ []) : (node : GumboNode) → (state : σ) →
    filterDocumentNode filters node state =
      visit (filters.map GumboFilter.receive) (preorder node) state
  | .element element children, state => by
    rw [filterDocumentNode, if_neg (by simpa using hfilters),
      filterDocumentNodes_eq_visit hfilters children, preorder, visit_cons, showAll_receive]
    rfl
  | .comment text, state => by
    rw [filterDocumentNode, preorder, visit_cons, visit_nil, showAll_receive]
    rfl
  | .text text, state => by
    rw [filterDocumentNode, preorder, visit_cons, visit_nil, showAll_receive]
    rfl
  | .other, state => by rw [filterDocumentNode, preorder, visit_nil]

theorem filterDocumentNodes_eq_visit (hfilters : filters ≠ []) :
    (nodes : List GumboNode) → (state : σ) → filterDocumentNodes filters nodes state =
      visit (filters.map GumboFilter.receive) (preorderOf nodes) state
  | [], state => by rw [filterDocumentNodes, preorderOf, visit_nil]
  | node :: nodes, state => by
    rw [filterDocumentNodes, filterDocumentNodes_eq_visit hfilters nodes,
      filterDocumentNode_eq_visit hfilters node, preorderOf, visit_append]

end

/-- What is noted of a document does not change what the filters do with it, and it is, for each
    filter, the document in its order. -/
theorem filterDocument_noting (hfilters : filters ≠ []) (root : GumboNode) (state : σ) :
    (filterDocument (GumboFilter.noting filters) root (state, [])).1 =
        filterDocument filters root state ∧
      ∀ i < filters.length,
        shownTo i (filterDocument (GumboFilter.noting filters) root (state, [])).2 =
          preorder root := by
  have hnoting : GumboFilter.noting filters ≠ [] := by
    simpa [GumboFilter.noting, visitors.noting] using hfilters
  have hreceive : (GumboFilter.noting filters).map GumboFilter.receive =
      visitors.noting (filters.map GumboFilter.receive) := by
    simp [GumboFilter.noting, Function.comp_def]
  have hlength : (filters.map GumboFilter.receive).length = filters.length := List.length_map _
  rw [filterDocument, filterDocument, filterDocumentNode_eq_visit hnoting,
    filterDocumentNode_eq_visit hfilters, hreceive]
  exact ⟨by rw [visit_noting], fun i hi => shownTo_visit_noting (hlength ▸ hi) _ _⟩

/-- A filter that keeps its part of the state for itself makes of a document what it makes of it
    alone. -/
theorem filterDocument_within {τ : Type} {get : τ → σ} {set : τ → σ → τ} {filter : GumboFilter σ}
    {before after : List (GumboFilter τ)} (hget : ∀ state part, get (set state part) = part)
    (hothers : ∀ other ∈ before ++ after, ∀ event state,
      get (other.receive event state) = get state) (root : GumboNode) (state : τ) :
    get (filterDocument (before ++ filter.within get set :: after) root state) =
      filterDocument [filter] root (get state) := by
  rw [filterDocument, filterDocument, filterDocumentNode_eq_visit (by simp),
    filterDocumentNode_eq_visit (by simp), List.map_append, List.map_cons, List.map_singleton]
  refine visit_isolated (fun event state => ?_) (fun other hmem => ?_) _ _
  · rw [GumboFilter.receive_within, hget]
  · rw [← List.map_append] at hmem
    obtain ⟨filter, hfilter, rfl⟩ := List.mem_map.mp hmem
    exact hothers filter hfilter

end

end GumboParser

end plusfish

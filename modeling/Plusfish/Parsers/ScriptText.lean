import Plusfish.Parsers.GumboUrlFilter

namespace plusfish

open util

namespace GumboUrlFilter

open GumboParser

/-- What the content of a text is scraped for. -/
inductive TextScraper where
  | scrapeJs
  | scrapeUrl
deriving DecidableEq

/-- The choice that `ParseText` makes. -/
def textScraper (self : GumboUrlFilter) : TextScraper :=
  if self.lastElement.any (·.tag = .script) then .scrapeJs else .scrapeUrl

def scrapeText (regexes : ScrapeRegexes) (self : GumboUrlFilter) (text : GumboText) :
    TextScraper → GumboUrlFilter
  | .scrapeJs =>
    { self with issues := (scrapeJs regexes text.text self.issues).2 }.addAnchorsSet regexes
      (scrapeJs regexes text.text self.issues).1
  | .scrapeUrl => self.addAnchorsSet regexes (scrapeUrl regexes text.text)

abbrev Noted : Type := GumboUrlFilter × List (GumboText × TextScraper)

/-- The filter, which notes for each text what it is scraped for. -/
def noting (regexes : ScrapeRegexes) : GumboFilter Noted where
  parseElement element _ noted := (noted.1.parseElement regexes element, noted.2)
  parseComment text noted := (noted.1.parseComment regexes text, noted.2)
  parseText text noted := (noted.1.parseText regexes text, noted.2 ++ [(text, noted.1.textScraper)])

mutual

/-- The texts of a node, each with its parent and with the siblings before it. -/
def textsIn (parent : GumboElement) (before : List GumboNode) :
    GumboNode → List (GumboElement × List GumboNode × GumboText)
  | .element element children => textsOf element [] children
  | .text text => [(parent, before, text)]
  | .comment _ | .other => []

def textsOf (parent : GumboElement) (before : List GumboNode) :
    List GumboNode → List (GumboElement × List GumboNode × GumboText)
  | [] => []
  | node :: nodes => textsIn parent before node ++ textsOf parent (before ++ [node]) nodes

end

def eventElement : GumboEvent → Option GumboElement
  | .element element _ => some element
  | .comment _ | .text _ => none

/-- The last element that starts in these nodes. -/
def lastStarted (nodes : List GumboNode) : Option GumboElement :=
  ((preorderOf nodes).filterMap eventElement).getLast?

/-- A text, with what it is scraped for where the last element is this one. -/
def scrapedAfter (element : GumboElement) (text : GumboText) : GumboText × TextScraper :=
  (text, if element.tag = .script then .scrapeJs else .scrapeUrl)

/-- Each text is scraped as JavaScript if its parent is a script, and for plain URLs if not. -/
def ScrapedByParent (regexes : ScrapeRegexes) (root : GumboElement) (children : List GumboNode) :
    Prop :=
  ∀ self, (filterDocument [noting regexes] (.element root children) (self, [])).2 =
    (textsOf root [] children).map fun (parent, _, text) => scrapedAfter parent text

section
variable {regexes : ScrapeRegexes}

theorem parseText_eq (self : GumboUrlFilter) (text : GumboText) :
    self.parseText regexes text = self.scrapeText regexes text self.textScraper := by
  unfold parseText textScraper
  split <;> rfl

/-! Only `ParseElement` changes the last element. -/

theorem foldl_lastElement {α : Type} {f : GumboUrlFilter → α → GumboUrlFilter}
    (hf : ∀ self a, (f self a).lastElement = self.lastElement) (items : List α)
    (self : GumboUrlFilter) : (items.foldl f self).lastElement = self.lastElement := by
  induction items generalizing self with
  | nil => rfl
  | cons item items ih => rw [List.foldl_cons, ih, hf]

theorem addAnchor_lastElement (self : GumboUrlFilter) (newAnchor : Bytes) :
    (self.addAnchor regexes newAnchor).lastElement = self.lastElement := by
  have hwithin : ∀ depth self newAnchor,
      (addAnchorWithin regexes depth self newAnchor).lastElement = self.lastElement := by
    intro depth
    induction depth with
    | zero => exact fun _ _ => rfl
    | succ depth ih =>
      intro self newAnchor
      rw [addAnchorWithin]
      split
      · rfl
      · split
        · rfl
        · exact foldl_lastElement ih _ _
  exact hwithin _ self newAnchor

theorem addAnchorsSet_lastElement (self : GumboUrlFilter) (anchors : List Bytes) :
    (self.addAnchorsSet regexes anchors).lastElement = self.lastElement :=
  foldl_lastElement addAnchor_lastElement anchors self

theorem parseText_lastElement (self : GumboUrlFilter) (text : GumboText) :
    (self.parseText regexes text).lastElement = self.lastElement := by
  rw [parseText_eq]
  cases self.textScraper <;> exact addAnchorsSet_lastElement _ _

theorem parseAttribute_lastElement (self : GumboUrlFilter) (attr : GumboAttribute) :
    (self.parseAttribute regexes attr).lastElement = self.lastElement := by
  have hhandler : (self.parseEventHandler regexes attr).lastElement = self.lastElement := by
    unfold parseEventHandler
    split
    · exact foldl_lastElement (fun self anchor => addAnchor_lastElement self _) _ _
    · rfl
  unfold parseAttribute
  split
  · rw [addAnchor_lastElement, hhandler]
  · split
    · rw [addAnchor_lastElement, hhandler]
    · exact hhandler

theorem parseElement_lastElement (self : GumboUrlFilter) (element : GumboElement) :
    (self.parseElement regexes element).lastElement = some element := by
  have hattributes (self : GumboUrlFilter) :
      (element.attributes.foldl (parseAttribute regexes) self).lastElement = self.lastElement :=
    foldl_lastElement parseAttribute_lastElement _ _
  have hmeta (self : GumboUrlFilter) :
      (self.parseMeta regexes element.attributes).2.lastElement = self.lastElement := by
    unfold parseMeta
    split
    · rfl
    · exact addAnchor_lastElement _ _
  unfold parseElement
  dsimp only
  by_cases htag : element.tag = .«meta»
  · rw [if_pos htag]
    split
    · exact hmeta _
    · rw [hattributes, hmeta]
  · rw [if_neg htag]
    exact hattributes _

theorem preorderOf_append (nodes nodes' : List GumboNode) :
    preorderOf (nodes ++ nodes') = preorderOf nodes ++ preorderOf nodes' := by
  induction nodes with
  | nil => rfl
  | cons node nodes ih => rw [List.cons_append, preorderOf, ih, preorderOf, List.append_assoc]

theorem lastStarted_append (nodes nodes' : List GumboNode) :
    lastStarted (nodes ++ nodes') = (lastStarted nodes').or (lastStarted nodes) := by
  rw [lastStarted, preorderOf_append, List.filterMap_append, List.getLast?_append]
  rfl

theorem lastStarted_element (element : GumboElement) (children : List GumboNode) :
    lastStarted [.element element children] = some ((lastStarted children).getD element) := by
  have horder : preorderOf [.element element children] =
      .element element children :: preorderOf children := by
    rw [preorderOf, preorder, preorderOf, List.append_nil]
  have hsome : eventElement (.element element children) = some element := rfl
  rw [lastStarted, horder, List.filterMap_cons_some hsome, List.getLast?_cons]
  rfl

/-- What is no element does not change which one is the last. -/
theorem lastStarted_append_of_none {nodes : List GumboNode} {node : GumboNode}
    (hnode : lastStarted [node] = none) : lastStarted (nodes ++ [node]) = lastStarted nodes := by
  rw [lastStarted_append, hnode, Option.none_or]

mutual

/-- The last element is the last one that has started among the siblings before, or else the
    parent. -/
theorem filterDocumentNode_noting {parent : GumboElement} {before : List GumboNode} :
    (node : GumboNode) → (noted : Noted) →
    noted.1.lastElement = some ((lastStarted before).getD parent) →
    (filterDocumentNode [noting regexes] node noted).2 = noted.2 ++
        (textsIn parent before node).map (fun (parent, before, text) =>
          scrapedAfter ((lastStarted before).getD parent) text) ∧
      (filterDocumentNode [noting regexes] node noted).1.lastElement =
        some ((lastStarted (before ++ [node])).getD parent)
  | .element element children, noted, _ => by
    have hstart : (noted.1.parseElement regexes element).lastElement =
        some ((lastStarted []).getD element) := parseElement_lastElement _ _
    obtain ⟨hnotes, hlast⟩ := filterDocumentNodes_noting children
      (noted.1.parseElement regexes element, noted.2) hstart
    have hwalk : filterDocumentNode [noting regexes] (.element element children) noted =
        filterDocumentNodes [noting regexes] children
          (noted.1.parseElement regexes element, noted.2) := rfl
    rw [hwalk, hnotes, hlast, lastStarted_append before, lastStarted_element]
    exact ⟨rfl, rfl⟩
  | .text text, noted, hlast => by
    have hnote : (text, noted.1.textScraper) =
        scrapedAfter ((lastStarted before).getD parent) text := by
      rw [textScraper, hlast]
      simp [scrapedAfter]
    rw [lastStarted_append_of_none rfl, ← hlast]
    refine ⟨?_, parseText_lastElement _ _⟩
    rw [textsIn, List.map_singleton]
    dsimp only
    rw [← hnote]
    rfl
  | .comment text, noted, hlast => by
    rw [lastStarted_append_of_none rfl, ← hlast]
    exact ⟨(List.append_nil _).symm, addAnchorsSet_lastElement _ _⟩
  | .other, noted, hlast => by
    rw [lastStarted_append_of_none rfl]
    exact ⟨(List.append_nil _).symm, hlast⟩

theorem filterDocumentNodes_noting {parent : GumboElement} {before : List GumboNode} :
    (nodes : List GumboNode) → (noted : Noted) →
    noted.1.lastElement = some ((lastStarted before).getD parent) →
    (filterDocumentNodes [noting regexes] nodes noted).2 = noted.2 ++
        (textsOf parent before nodes).map (fun (parent, before, text) =>
          scrapedAfter ((lastStarted before).getD parent) text) ∧
      (filterDocumentNodes [noting regexes] nodes noted).1.lastElement =
        some ((lastStarted (before ++ nodes)).getD parent)
  | [], noted, hlast => by
    refine ⟨(List.append_nil _).symm, ?_⟩
    rw [List.append_nil]
    exact hlast
  | node :: nodes, noted, hlast => by
    obtain ⟨hnotes, hnext⟩ := filterDocumentNode_noting node noted hlast
    obtain ⟨hrest, hfinal⟩ := filterDocumentNodes_noting nodes
      (filterDocumentNode [noting regexes] node noted) hnext
    rw [filterDocumentNodes, hrest, hfinal, hnotes, textsOf, List.map_append, List.append_assoc,
      List.append_assoc]
    exact ⟨rfl, rfl⟩

end

/-- For each text that is scraped, the last element is a script exactly where the parent is one. -/
def LastIsParent (root : GumboElement) (children : List GumboNode) : Prop :=
  ∀ parent before text, (parent, before, text) ∈ textsOf root [] children →
    ∀ last, lastStarted before = some last → (last.tag = .script ↔ parent.tag = .script)

theorem filterDocument_notes (root : GumboElement) (children : List GumboNode)
    (self : GumboUrlFilter) :
    (filterDocument [noting regexes] (.element root children) (self, [])).2 =
      (textsOf root [] children).map fun (parent, before, text) =>
        scrapedAfter ((lastStarted before).getD parent) text := by
  have hstart : (self.parseElement regexes root).lastElement = some ((lastStarted []).getD root) :=
    parseElement_lastElement _ _
  exact (filterDocumentNodes_noting children (self.parseElement regexes root, []) hstart).1

theorem scrapedAfter_eq_iff (last parent : GumboElement) (text : GumboText) :
    scrapedAfter last text = scrapedAfter parent text ↔
      (last.tag = .script ↔ parent.tag = .script) := by
  unfold scrapedAfter
  by_cases hlast : last.tag = .script <;> by_cases hparent : parent.tag = .script <;>
    simp [hlast, hparent]

theorem scrapedByParent_iff_lastIsParent (root : GumboElement) (children : List GumboNode) :
    ScrapedByParent regexes root children ↔ LastIsParent root children := by
  constructor
  · intro h parent before text hmem last hlast
    have hnotes := (filterDocument_notes root children {}).symm.trans (h {})
    have hnote := List.map_inj_left.mp hnotes _ hmem
    dsimp only at hnote
    rw [hlast, Option.getD_some] at hnote
    exact (scrapedAfter_eq_iff last parent text).mp hnote
  · intro h self
    rw [filterDocument_notes]
    refine List.map_congr_left fun (parent, before, text) hmem => ?_
    dsimp only
    cases hlast : lastStarted before with
    | none => rfl
    | some last =>
      exact (scrapedAfter_eq_iff last parent text).mpr (h parent before text hmem last hlast)

theorem filterDocument_noting_fst (root : GumboNode) (self : GumboUrlFilter) :
    (filterDocument [noting regexes] root (self, [])).1 =
      filterDocument [filter regexes] root self := by
  have hreceive (event : GumboEvent) (noted : Noted) :
      ((noting regexes).receive event noted).1 = (filter regexes).receive event noted.1 := by
    cases event <;> rfl
  have halone : ∀ other ∈ ([] ++ [] : List (GumboEvent → Noted → Noted)), ∀ event noted,
      (other event noted).1 = noted.1 := fun _ hmem => absurd hmem List.not_mem_nil
  rw [filterDocument, filterDocument, filterDocumentNode_eq_visit (List.cons_ne_nil _ _),
    filterDocumentNode_eq_visit (List.cons_ne_nil _ _)]
  exact visitors.visit_isolated hreceive halone _ _

/-- A filter that notes what it scrapes each text for works like the one of the source, and it
    scrapes the texts by their parents exactly where the last element is a script if and only if
    the parent is one. -/
theorem scrapedByParent_iff (regexes : ScrapeRegexes) (root : GumboElement)
    (children : List GumboNode) :
    (∀ self, (filterDocument [noting regexes] (.element root children) (self, [])).1 =
      filterDocument [filter regexes] (.element root children) self) ∧
    (∀ self : GumboUrlFilter, ∀ text,
      self.parseText regexes text = self.scrapeText regexes text self.textScraper) ∧
    (ScrapedByParent regexes root children ↔ LastIsParent root children) :=
  ⟨filterDocument_noting_fst _, parseText_eq, scrapedByParent_iff_lastIsParent root children⟩

end

/-- A text that follows a script in the body of a page is not in the script. -/
theorem not_scrapedByParent : ¬ ∀ (regexes : ScrapeRegexes) (root : GumboElement)
    (children : List GumboNode), ScrapedByParent regexes root children := by
  intro hall
  have hbody := hall ⟨fun _ => none, fun _ => none, fun _ => false, fun _ => false, fun _ => []⟩
    { tag := .other }
    [.element { tag := .other } [.element { tag := .script } [], .text { text := [] }]]
  have hscript := (scrapedByParent_iff_lastIsParent _ _).mp hbody _ _ _ List.mem_cons_self _ rfl
  exact absurd (hscript.mp rfl) (by decide)

end GumboUrlFilter

end plusfish

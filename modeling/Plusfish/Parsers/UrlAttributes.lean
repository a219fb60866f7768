import Plusfish.Parsers.GumboUrlFilter

namespace plusfish

open util

/-- The elements that one test accepts, among them all that another accepts, are no more than
    those exactly if the test accepts no others. -/
theorem map_filter_eq_iff {α β : Type} {p q : α → Bool} {l : List α}
    (hpq : ∀ a ∈ l, q a = true → p a = true) (f : α → β) :
    (l.filter p).map f = (l.filter q).map f ↔ ∀ a ∈ l, p a = true → q a = true := by
  have hboth : l.filter q = (l.filter p).filter q := by
    rw [List.filter_filter]
    apply List.filter_congr
    intro a ha
    cases hq : q a with
    | false => rfl
    | true => rw [hpq a ha hq, Bool.and_self]
  rw [hboth]
  constructor
  · intro heq a ha hp
    have hlength := congrArg List.length heq
    rw [List.length_map, List.length_map] at hlength
    exact List.length_filter_eq_length_iff.mp hlength.symm a (List.mem_filter.mpr ⟨ha, hp⟩)
  · intro hall
    have hself : (l.filter p).filter q = l.filter p := by
      apply List.filter_eq_self.mpr
      intro a ha
      obtain ⟨hmem, hp⟩ := List.mem_filter.mp ha
      exact hall a hmem hp
    rw [hself]

namespace GumboUrlFilter

open GumboParser

/-- The name is one of those that are known to have links, apart from case. -/
def hasAnchorName (attr : GumboAttribute) : Bool :=
  kAnchorAttributes.any fun name => attr.name.map toLower == name

/-- The value starts like a URL. -/
def hasUrlValue (attr : GumboAttribute) : Bool :=
  kPotentialUrlPrefixes.any fun start => start.isPrefixOf attr.value

/-- The attributes whose values are links. -/
def isLink (attr : GumboAttribute) : Bool := hasAnchorName attr || hasUrlValue attr

/-- The name is a part of one of those that are known to have links, from its start on but not to
    its end. -/
def hasPartOfAnchorName (attr : GumboAttribute) : Bool :=
  kAnchorAttributes.any fun name =>
    (attr.name.map toLower).isPrefixOf name && attr.name.map toLower != name

section
variable (regexes : ScrapeRegexes)

/-- `parseAttribute`, with a note of what it passes to `AddAnchor` itself. -/
def parseAttributeNoting (noted : GumboUrlFilter × List Bytes) (attr : GumboAttribute) :
    GumboUrlFilter × List Bytes :=
  let self := noted.1.parseEventHandler regexes attr
  let newAnchor := unescapeHtml attr.value
  if kAnchorAttributes.any fun attrName => startsWithIgnoreCase attrName attr.name then
    (self.addAnchor regexes newAnchor, noted.2 ++ [newAnchor])
  else if kPotentialUrlPrefixes.any fun start => strNEq start attr.value start.length then
    (self.addAnchor regexes newAnchor, noted.2 ++ [newAnchor])
  else (self, noted.2)

/-- `parseElement`, with a note of what it passes to `AddAnchor` from its attributes. -/
def parseElementNoting (self : GumboUrlFilter) (element : GumboElement) :
    GumboUrlFilter × List Bytes :=
  let self := { self with lastElement := some element }
  let (parsed, self) :=
    if element.tag = .«meta» then self.parseMeta regexes element.attributes else (false, self)
  if parsed then (self, []) else element.attributes.foldl (parseAttributeNoting regexes) (self, [])

end

/-- What the two tests of the loop accept. -/
def accepts (attr : GumboAttribute) : Bool :=
  kAnchorAttributes.any (startsWithIgnoreCase · attr.name) ||
    kPotentialUrlPrefixes.any fun start => strNEq start attr.value start.length

theorem map_toLower_of_mem {name : Bytes} (h : name ∈ kAnchorAttributes) :
    name.map toLower = name := by
  have hall : kAnchorAttributes.all fun name => name.map toLower == name := by decide
  exact eq_of_beq (List.all_eq_true.mp hall name h)

/-- The comparison asks whether the attribute's name begins the known one. -/
theorem any_startsWithIgnoreCase_iff (attr : GumboAttribute) :
    kAnchorAttributes.any (startsWithIgnoreCase · attr.name) = true ↔
      hasAnchorName attr = true ∨ hasPartOfAnchorName attr = true := by
  simp only [hasAnchorName, hasPartOfAnchorName, List.any_eq_true, beq_iff_eq, Bool.and_eq_true,
    bne_iff_ne, List.isPrefixOf_iff_prefix]
  have hinitial {name : Bytes} (hname : name ∈ kAnchorAttributes) :
      startsWithIgnoreCase name attr.name = true ↔ attr.name.map toLower <+: name := by
    rw [startsWithIgnoreCase, List.isPrefixOf_iff_prefix, map_toLower_of_mem hname]
  constructor
  · rintro ⟨name, hname, hstart⟩
    have hstart := (hinitial hname).mp hstart
    by_cases heq : attr.name.map toLower = name
    · exact Or.inl ⟨name, hname, heq⟩
    · exact Or.inr ⟨name, hname, hstart, heq⟩
  · rintro (⟨name, hname, heq⟩ | ⟨name, hname, hstart, _⟩)
    · exact ⟨name, hname, (hinitial hname).mpr (heq ▸ List.prefix_rfl)⟩
    · exact ⟨name, hname, (hinitial hname).mpr hstart⟩

theorem any_strNEq_eq (attr : GumboAttribute) :
    (kPotentialUrlPrefixes.any fun start => strNEq start attr.value start.length) =
      hasUrlValue attr := by
  have hplain : kPotentialUrlPrefixes.all fun start => !start.contains 0 := by decide
  rw [hasUrlValue, Bool.eq_iff_iff]
  simp only [List.any_eq_true]
  apply exists_congr
  intro start
  apply and_congr_right
  intro hstart
  have hzero : 0 ∉ start := by simpa using List.all_eq_true.mp hplain start hstart
  rw [strNEq_iff_isPrefix hzero, List.isPrefixOf_iff_prefix]

/-- No known name is a part of another. -/
theorem not_hasAnchorName_of_part {attr : GumboAttribute} (h : hasPartOfAnchorName attr = true) :
    hasAnchorName attr = false := by
  obtain ⟨name, hname, hpart⟩ := List.any_eq_true.mp h
  obtain ⟨hstart, hne⟩ := Bool.and_eq_true_iff.mp hpart
  rw [hasAnchorName, List.any_eq_false]
  intro other hother heq
  have hall : kAnchorAttributes.all fun name => kAnchorAttributes.all fun other =>
      !other.isPrefixOf name || other == name := by decide
  have hboth := List.all_eq_true.mp (List.all_eq_true.mp hall name hname) other hother
  rw [eq_of_beq heq] at hstart hne
  simp only [Bool.or_eq_true, Bool.not_eq_true', beq_iff_eq] at hboth
  rcases hboth with hnot | hsame
  · rw [hstart] at hnot
    cases hnot
  · exact (bne_iff_ne.mp hne) hsame

section
variable (regexes : ScrapeRegexes)

theorem parseAttributeNoting_eq (noted : GumboUrlFilter × List Bytes) (attr : GumboAttribute) :
    parseAttributeNoting regexes noted attr = (noted.1.parseAttribute regexes attr,
      if accepts attr then noted.2 ++ [unescapeHtml attr.value] else noted.2) := by
  unfold parseAttributeNoting parseAttribute accepts
  dsimp only
  by_cases hname : (kAnchorAttributes.any (startsWithIgnoreCase · attr.name)) = true
  · rw [if_pos hname, if_pos hname, hname, Bool.true_or, if_pos rfl]
  · rw [if_neg hname, if_neg hname, Bool.eq_false_iff.mpr hname, Bool.false_or]
    split
    · rfl
    · rfl

theorem foldl_parseAttributeNoting (attributes : List GumboAttribute) (self : GumboUrlFilter)
    (noted : List Bytes) :
    attributes.foldl (parseAttributeNoting regexes) (self, noted) =
      (attributes.foldl (parseAttribute regexes) self,
        noted ++ (attributes.filter accepts).map fun attr => unescapeHtml attr.value) := by
  induction attributes generalizing self noted with
  | nil => simp
  | cons attr attributes ih =>
    rw [List.foldl_cons, parseAttributeNoting_eq, ih, List.foldl_cons]
    cases haccepts : accepts attr with
    | true => simp [haccepts]
    | false => simp [haccepts]

theorem parseElementNoting_eq (self : GumboUrlFilter) {element : GumboElement}
    (hmeta : element.tag = .«meta» → metaUrl element.attributes = none) :
    self.parseElementNoting regexes element = (self.parseElement regexes element,
      (element.attributes.filter accepts).map fun attr => unescapeHtml attr.value) := by
  have hparsed (self : GumboUrlFilter) :
      (if element.tag = .«meta» then self.parseMeta regexes element.attributes
        else (false, self)) = (false, self) := by
    split
    · rename_i htag
      rw [parseMeta, hmeta htag]
    · rfl
  unfold parseElementNoting parseElement
  simp only [hparsed, Bool.false_eq_true, if_false, foldl_parseAttributeNoting, List.nil_append]

/-- Of an element that is no refresh, just the links go to `AddAnchor`, each of them once, exactly
    if no other attribute has a name that begins like that of a link. -/
theorem parseElement_passes_links_iff (self : GumboUrlFilter) {element : GumboElement}
    (hmeta : element.tag = .«meta» → metaUrl element.attributes = none) :
    (self.parseElementNoting regexes element).1 = self.parseElement regexes element ∧
      ((self.parseElementNoting regexes element).2 =
          (element.attributes.filter isLink).map (fun attr => unescapeHtml attr.value) ↔
        ∀ attr ∈ element.attributes, hasPartOfAnchorName attr = true →
          hasUrlValue attr = true) := by
  have haccepts (attr : GumboAttribute) : accepts attr = true ↔
      isLink attr = true ∨ hasPartOfAnchorName attr = true := by
    rw [accepts, isLink, Bool.or_eq_true, Bool.or_eq_true, any_startsWithIgnoreCase_iff,
      any_strNEq_eq]
    tauto
  rw [parseElementNoting_eq regexes self hmeta]
  refine ⟨rfl, ?_⟩
  rw [map_filter_eq_iff fun attr _ hlink => (haccepts attr).mpr (Or.inl hlink)]
  refine forall₂_congr fun attr _ => ?_
  rw [haccepts, isLink, Bool.or_eq_true]
  constructor
  · intro h hpart
    rcases h (Or.inr hpart) with hname | hvalue
    · rw [not_hasAnchorName_of_part hpart] at hname
      cases hname
    · exact hvalue
  · rintro h (hlink | hpart)
    · exact hlink
    · exact Or.inr (h hpart)

end

/-- Regular expressions that find nothing. -/
def noRegexes : ScrapeRegexes where
  xssPayload _ := none
  tagXssPayload _ := none
  isRelativeUrl _ := false
  isAbsoluteUrl _ := false
  absoluteUrls _ := []

def anchorElement (attributes : List (String × String)) : GumboElement where
  tag := .other
  attributes := attributes.map fun (name, value) => ⟨ascii name, ascii value⟩

theorem parseElement_passes_links_anchor :
    (parseElementNoting noRegexes {}
      (anchorElement [("HREF", "a"), ("foo", "//b"), ("x", "c")])).2 =
        [ascii "a", ascii "//b"] := by
  have hmeta : (anchorElement [("HREF", "a"), ("foo", "//b"), ("x", "c")]).tag = .«meta» →
      metaUrl (anchorElement [("HREF", "a"), ("foo", "//b"), ("x", "c")]).attributes = none :=
    fun htag => by cases htag
  obtain ⟨_, hlinks⟩ := parseElement_passes_links_iff noRegexes {} hmeta
  rw [hlinks.mpr (by decide)]
  decide

/-- The value of an attribute `h` is taken for a link. -/
theorem passes_value_of_part :
    (parseElementNoting noRegexes {} (anchorElement [("h", "1")])).2 = [ascii "1"] ∧
      isLink ⟨ascii "h", ascii "1"⟩ = false := by
  decide

end GumboUrlFilter

end plusfish

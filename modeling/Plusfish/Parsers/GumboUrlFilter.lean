import Plusfish.Parsers.Escaping
import Plusfish.Parsers.GumboParser
import Plusfish.Parsers.ScrapeUtil

namespace plusfish

open util

/-- What a `GumboUrlFilter` collects, and the last element it was shown. -/
structure GumboUrlFilter where
  anchors : List Bytes := []
  issues : List IssueDetails := []
  lastElement : Option GumboElement := none

namespace GumboUrlFilter

open GumboParser

def kJavascriptScheme : Bytes := ascii "javascript:"
def kVbscriptScheme : Bytes := ascii "vbscript:"
def kMetaRefreshUrlPrefix : Bytes := ascii "url="
def kEventHandlerPrefix : Bytes := ascii "on"
def kPotentialUrlPrefixes : List Bytes := ["http://", "https://", "//"].map ascii

/-- Attribute names that are known to contain useful links. -/
def kAnchorAttributes : List Bytes :=
  [HTMLName.kHref, HTMLName.kSrc, HTMLName.kAction, HTMLName.kUrl]

/-- `absl::StartsWithIgnoreCase`. -/
def startsWithIgnoreCase (text start : Bytes) : Bool :=
  (start.map toLower).isPrefixOf (text.map toLower)

/-- `strcasestr`: the haystack from the first occurrence of the needle on. -/
def fromCaseStr (haystack needle : Bytes) : Option Bytes :=
  (cStr haystack).tails.find? fun tail => startsWithIgnoreCase tail (cStr needle)

/-- The script in an anchor with a script scheme. -/
def scriptOf (anchor : Bytes) : Option Bytes :=
  if startsWithIgnoreCase (cStr anchor) kJavascriptScheme then
    some (anchor.drop kJavascriptScheme.length)
  else if startsWithIgnoreCase (cStr anchor) kVbscriptScheme then
    some (anchor.drop kVbscriptScheme.length)
  else none

section
variable (regexes : ScrapeRegexes)

/-- `AddAnchor` and `AddAnchorsSet`, for scripts that are nested at most so deep. -/
def addAnchorWithin : (depth : Nat) → GumboUrlFilter → Bytes → GumboUrlFilter
  | 0, self, _ => self
  | depth + 1, self, newAnchor =>
    if self.anchors.contains newAnchor then self
    else
      match scriptOf newAnchor with
      | none => { self with anchors := self.anchors ++ [newAnchor] }
      | some script =>
        let (inlineAnchors, issues) := scrapeJs regexes script self.issues
        inlineAnchors.foldl (addAnchorWithin depth) { self with issues }

/-- `AddAnchor`. The scripts in a script are shorter than it. -/
def addAnchor (self : GumboUrlFilter) (newAnchor : Bytes) : GumboUrlFilter :=
  addAnchorWithin regexes (newAnchor.length + 1) self newAnchor

def addAnchorsSet (self : GumboUrlFilter) (anchors : List Bytes) : GumboUrlFilter :=
  anchors.foldl (addAnchor regexes) self

def addAnchorsSetHtmlUnescaped (self : GumboUrlFilter) (anchors : List Bytes) : GumboUrlFilter :=
  anchors.foldl (fun self anchor => self.addAnchor regexes (unescapeHtml anchor)) self

/-- The URL of a meta element that is a refresh. Although less common, it can be quoted. -/
def metaUrl (attributes : List GumboAttribute) : Option Bytes :=
  match getAttribute attributes HTMLName.kContent, getAttribute attributes HTMLName.kHttpEquiv with
  | some content, some _ =>
    (fromCaseStr content.value kMetaRefreshUrlPrefix).map fun url =>
      let finalUrl := url.drop kMetaRefreshUrlPrefix.length
      match finalUrl with
      | [] => finalUrl
      | quote :: rest =>
        if quote = 34 ∨ quote = 39 then
          if finalUrl.getLast? = some quote then rest.dropLast else rest
        else finalUrl
  | _, _ => none

/-- `ParseMeta`, with whether the element contained a URL. -/
def parseMeta (self : GumboUrlFilter) (attributes : List GumboAttribute) : Bool × GumboUrlFilter :=
  match metaUrl attributes with
  | none => (false, self)
  | some finalUrl => (true, self.addAnchor regexes finalUrl)

/-- An event handler is scraped as JavaScript. -/
def parseEventHandler (self : GumboUrlFilter) (attr : GumboAttribute) : GumboUrlFilter :=
  if startsWithIgnoreCase attr.name kEventHandlerPrefix then
    let (jsUrls, issues) := scrapeJs regexes attr.value self.issues
    { self with issues }.addAnchorsSetHtmlUnescaped regexes jsUrls
  else self

/-- The loop body of `ParseElement`. -/
def parseAttribute (self : GumboUrlFilter) (attr : GumboAttribute) : GumboUrlFilter :=
  let self := self.parseEventHandler regexes attr
  if kAnchorAttributes.any fun attrName => startsWithIgnoreCase attrName attr.name then
    self.addAnchor regexes (unescapeHtml attr.value)
  else if kPotentialUrlPrefixes.any fun start => strNEq start attr.value start.length then
    self.addAnchor regexes (unescapeHtml attr.value)
  else self

def parseElement (self : GumboUrlFilter) (element : GumboElement) : GumboUrlFilter :=
  let self := { self with lastElement := some element }
  let (parsed, self) :=
    if element.tag = .«meta» then self.parseMeta regexes element.attributes else (false, self)
  if parsed then self else element.attributes.foldl (parseAttribute regexes) self

def parseComment (self : GumboUrlFilter) (text : GumboText) : GumboUrlFilter :=
  self.addAnchorsSet regexes (scrapeUrl regexes text.text)

/-- `ParseText`. Script tags get an additional (special) treatment. -/
def parseText (self : GumboUrlFilter) (text : GumboText) : GumboUrlFilter :=
  if self.lastElement.any (·.tag = .script) then
    let (jsUrls, issues) := scrapeJs regexes text.text self.issues
    { self with issues }.addAnchorsSet regexes jsUrls
  else self.addAnchorsSet regexes (scrapeUrl regexes text.text)

def filter : GumboFilter GumboUrlFilter where
  parseElement element _ self := self.parseElement regexes element
  parseComment text self := self.parseComment regexes text
  parseText text self := self.parseText regexes text

theorem scriptOf_length {anchor script : Bytes} (h : scriptOf anchor = some script) :
    script.length < anchor.length := by
  have hshorter {scheme : Bytes} (hscheme : scheme ≠ [])
      (hstart : startsWithIgnoreCase (cStr anchor) scheme = true) :
      (anchor.drop scheme.length).length < anchor.length := by
    have hle := (List.isPrefixOf_iff_prefix.mp hstart).length_le
    rw [List.length_map, List.length_map] at hle
    have hcstr : (cStr anchor).length ≤ anchor.length := (List.takeWhile_sublist _).length_le
    have hpos := List.length_pos_of_ne_nil hscheme
    rw [List.length_drop]
    omega
  unfold scriptOf at h
  split at h
  · rename_i hstart
    cases h
    exact hshorter (by decide) hstart
  · split at h
    · rename_i hstart
      cases h
      exact hshorter (by decide) hstart
    · cases h

/-- Any depth beyond the length of the anchor is enough. -/
theorem addAnchorWithin_eq {depth depth' : Nat} {newAnchor : Bytes}
    (h : newAnchor.length < depth) (h' : newAnchor.length < depth') (self : GumboUrlFilter) :
    addAnchorWithin regexes depth self newAnchor =
      addAnchorWithin regexes depth' self newAnchor := by
  induction depth generalizing depth' newAnchor self with
  | zero => exact absurd h (Nat.not_lt_zero _)
  | succ depth ih =>
    cases depth' with
    | zero => exact absurd h' (Nat.not_lt_zero _)
    | succ depth' =>
      rw [addAnchorWithin, addAnchorWithin]
      split
      · rfl
      · split
        · rfl
        · rename_i script hscript
          have hshorter := scriptOf_length hscript
          refine List.foldl_ext _ _ _ fun self anchor hmem => ?_
          have hinline := scrapeJs_length regexes anchor hmem
          exact ih (by omega) (by omega) self

/-- `AddAnchor` calls itself for the anchors of a script, and it comes to its end. -/
theorem addAnchor_eq (self : GumboUrlFilter) (newAnchor : Bytes) :
    self.addAnchor regexes newAnchor =
      if self.anchors.contains newAnchor then self
      else
        match scriptOf newAnchor with
        | none => { self with anchors := self.anchors ++ [newAnchor] }
        | some script =>
          { self with issues := (scrapeJs regexes script self.issues).2 }.addAnchorsSet regexes
            (scrapeJs regexes script self.issues).1 := by
  rw [addAnchor, addAnchorWithin]
  split
  · rfl
  · split
    · rfl
    · rename_i script hscript
      have hshorter := scriptOf_length hscript
      refine List.foldl_ext _ _ _ fun self anchor hmem => ?_
      have hinline := scrapeJs_length regexes anchor hmem
      exact addAnchorWithin_eq regexes (by omega) (Nat.lt_succ_self _) self

end

end GumboUrlFilter

end plusfish

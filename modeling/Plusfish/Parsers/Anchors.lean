import Plusfish.Parsers.GumboUrlFilter

open visitors

namespace plusfish

open util

namespace GumboUrlFilter

/-- `AddAnchor` for one string calls itself for another. -/
def Calls (regexes : ScrapeRegexes) (inner outer : Bytes) : Prop :=
  ∃ script issues, scriptOf outer = some script ∧ inner ∈ (scrapeJs regexes script issues).1

/-- `AddAnchor` is called for the strings of a list, one after the other. The set of anchors that a
    script is scraped for has them in any order. -/
inductive Added (regexes : ScrapeRegexes) : GumboUrlFilter → List Bytes → GumboUrlFilter → Prop
  | nil (self : GumboUrlFilter) : Added regexes self [] self
  | known {self last : GumboUrlFilter} {newAnchor : Bytes} {rest : List Bytes}
      (hknown : newAnchor ∈ self.anchors) (hrest : Added regexes self rest last) :
      Added regexes self (newAnchor :: rest) last
  | stored {self last : GumboUrlFilter} {newAnchor : Bytes} {rest : List Bytes}
      (hnew : newAnchor ∉ self.anchors) (hplain : scriptOf newAnchor = none)
      (hrest : Added regexes { self with anchors := self.anchors ++ [newAnchor] } rest last) :
      Added regexes self (newAnchor :: rest) last
  | scraped {self middle last : GumboUrlFilter} {newAnchor script : Bytes}
      {inlineAnchors rest : List Bytes} (hnew : newAnchor ∉ self.anchors)
      (hscript : scriptOf newAnchor = some script)
      (hset : inlineAnchors.Perm (scrapeJs regexes script self.issues).1)
      (hinline : Added regexes { self with issues := (scrapeJs regexes script self.issues).2 }
        inlineAnchors middle)
      (hrest : Added regexes middle rest last) : Added regexes self (newAnchor :: rest) last

/-- What happens to a filter: calls of `AddAnchor`, and changes that leave the anchors alone. -/
inductive Session (regexes : ScrapeRegexes) : GumboUrlFilter → GumboUrlFilter → Prop
  | refl (self : GumboUrlFilter) : Session regexes self self
  | add {self middle last : GumboUrlFilter} {anchors : List Bytes}
      (hsession : Session regexes self middle) (hadded : Added regexes middle anchors last) :
      Session regexes self last
  | other {self middle last : GumboUrlFilter} (hsession : Session regexes self middle)
      (hanchors : last.anchors = middle.anchors) : Session regexes self last

/-- The anchors are different from each other, and none of them is a script. -/
structure ValidAnchors (anchors : List Bytes) : Prop where
  nodup : anchors.Nodup
  noScript : ∀ anchor ∈ anchors, ∀ scheme ∈ [kJavascriptScheme, kVbscriptScheme],
    ¬ scheme <+: anchor.map toLower

section
variable {regexes : ScrapeRegexes} {self middle last : GumboUrlFilter}

theorem Calls.length_lt {inner outer : Bytes} (h : Calls regexes inner outer) :
    inner.length < outer.length := by
  obtain ⟨script, issues, hscript, hinner⟩ := h
  exact (scrapeJs_length regexes inner hinner).trans (scriptOf_length hscript)

theorem startsWithIgnoreCase_iff {anchor scheme : Bytes}
    (hscheme : scheme ∈ [kJavascriptScheme, kVbscriptScheme]) :
    startsWithIgnoreCase (cStr anchor) scheme = true ↔ scheme <+: anchor.map toLower := by
  have hall : [kJavascriptScheme, kVbscriptScheme].all fun scheme =>
      scheme.map toLower == scheme && !scheme.contains 0 := by decide
  have hboth := List.all_eq_true.mp hall scheme hscheme
  simp only [Bool.and_eq_true, beq_iff_eq, Bool.not_eq_true', List.contains_eq_mem,
    decide_eq_false_iff_not] at hboth
  rw [startsWithIgnoreCase, List.isPrefixOf_iff_prefix, hboth.1, map_toLower_cStr]
  constructor
  · intro hinitial
    exact hinitial.trans (cStr_isPrefix _)
  · rintro ⟨rest, heq⟩
    rw [← heq, cStr_append_of_not_mem hboth.2]
    exact List.prefix_append _ _

/-- What is stored is not a script. -/
theorem scriptOf_eq_none_iff {anchor : Bytes} : scriptOf anchor = none ↔
    ∀ scheme ∈ [kJavascriptScheme, kVbscriptScheme], ¬ scheme <+: anchor.map toLower := by
  simp only [List.forall_mem_cons, List.not_mem_nil, false_implies, implies_true, and_true]
  rw [← startsWithIgnoreCase_iff (List.mem_cons_self ..),
    ← startsWithIgnoreCase_iff (List.mem_cons_of_mem _ (List.mem_singleton_self _)), scriptOf]
  split
  · rename_i hjavascript
    simp [hjavascript]
  · split
    · rename_i hvbscript
      simp [hvbscript]
    · rename_i hjavascript hvbscript
      simp [hjavascript, hvbscript]

theorem Added.valid {anchors : List Bytes} (h : Added regexes self anchors last)
    (hself : ValidAnchors self.anchors) : ValidAnchors last.anchors := by
  induction h with
  | nil => exact hself
  | known _ _ ih => exact ih hself
  | @stored self last newAnchor rest hnew hplain _ ih =>
    refine ih ⟨?_, ?_⟩
    · exact List.nodup_append.mpr ⟨hself.nodup, List.nodup_singleton _, fun a ha b hb heq =>
        hnew (List.mem_singleton.mp hb ▸ heq ▸ ha)⟩
    · intro anchor hanchor
      rcases List.mem_append.mp hanchor with hold | hlast
      · exact hself.noScript anchor hold
      · rw [List.mem_singleton.mp hlast]
        exact scriptOf_eq_none_iff.mp hplain
  | scraped _ _ _ _ _ ihinline ihrest => exact ihrest (ihinline hself)

theorem Added.append {anchors anchors' : List Bytes} (h : Added regexes self anchors middle)
    (h' : Added regexes middle anchors' last) : Added regexes self (anchors ++ anchors') last := by
  induction h with
  | nil => exact h'
  | known hknown _ ih => exact .known hknown (ih h')
  | stored hnew hplain _ ih => exact .stored hnew hplain (ih h')
  | scraped hnew hscript hset hinline _ _ ih => exact .scraped hnew hscript hset hinline (ih h')

theorem Added.foldl {f : GumboUrlFilter → Bytes → GumboUrlFilter} {anchors : List Bytes}
    (hf : ∀ self, ∀ anchor ∈ anchors, Added regexes self [anchor] (f self anchor))
    (self : GumboUrlFilter) : Added regexes self anchors (anchors.foldl f self) := by
  induction anchors generalizing self with
  | nil => exact .nil self
  | cons anchor anchors ih =>
    exact (hf self anchor List.mem_cons_self).append
      (ih (fun self anchor h => hf self anchor (List.mem_cons_of_mem _ h)) (f self anchor))

/-- `AddAnchor` comes to its end, in one of the orders that the sets may have. -/
theorem addAnchorWithin_added {depth : Nat} {newAnchor : Bytes} (h : newAnchor.length < depth)
    (self : GumboUrlFilter) :
    Added regexes self [newAnchor] (addAnchorWithin regexes depth self newAnchor) := by
  induction depth generalizing newAnchor self with
  | zero => exact absurd h (Nat.not_lt_zero _)
  | succ depth ih =>
    rw [addAnchorWithin]
    by_cases hknown : newAnchor ∈ self.anchors
    · rw [if_pos (by simpa using hknown)]
      exact .known hknown (.nil _)
    · rw [if_neg (by simpa using hknown)]
      cases hscript : scriptOf newAnchor with
      | none => exact .stored hknown hscript (.nil _)
      | some script =>
        have hshorter := scriptOf_length hscript
        refine .scraped hknown hscript (List.Perm.refl _) (Added.foldl ?_ _) (.nil _)
        intro self anchor hanchor
        have hinline := scrapeJs_length regexes anchor hanchor
        exact ih (by omega) self

theorem addAnchor_added (self : GumboUrlFilter) (newAnchor : Bytes) :
    Added regexes self [newAnchor] (self.addAnchor regexes newAnchor) :=
  addAnchorWithin_added (Nat.lt_succ_self _) self

theorem addAnchorsSet_added (regexes : ScrapeRegexes) (self : GumboUrlFilter)
    (anchors : List Bytes) :
    Added regexes self anchors (self.addAnchorsSet regexes anchors) :=
  Added.foldl (fun self anchor _ => addAnchor_added self anchor) self

theorem Session.trans (h : Session regexes self middle) (h' : Session regexes middle last) :
    Session regexes self last := by
  induction h' with
  | refl => exact h
  | add _ hadded ih => exact .add ih hadded
  | other _ hanchors ih => exact .other ih hanchors

theorem Session.of_added {anchors : List Bytes} (h : Added regexes self anchors last) :
    Session regexes self last := .add (.refl self) h

theorem Session.of_anchors (h : last.anchors = self.anchors) : Session regexes self last :=
  .other (.refl self) h

theorem Session.foldl {α : Type} {f : GumboUrlFilter → α → GumboUrlFilter}
    (hf : ∀ self item, Session regexes self (f self item)) (items : List α)
    (self : GumboUrlFilter) : Session regexes self (items.foldl f self) := by
  induction items generalizing self with
  | nil => exact .refl self
  | cons item items ih => exact (hf self item).trans (ih (f self item))

/-- A change of the issues comes before anchors are added. -/
theorem Session.of_added_after {anchors : List Bytes} (hanchors : middle.anchors = self.anchors)
    (h : Added regexes middle anchors last) : Session regexes self last :=
  .add (.of_anchors hanchors) h

theorem parseEventHandler_session (self : GumboUrlFilter) (attr : GumboAttribute) :
    Session regexes self (self.parseEventHandler regexes attr) := by
  unfold parseEventHandler
  split
  · have hissues : Session regexes self
        { self with issues := (scrapeJs regexes attr.value self.issues).2 } := .of_anchors rfl
    refine hissues.trans (Session.foldl (fun self anchor => ?_) _ _)
    exact .of_added (addAnchor_added self (unescapeHtml anchor))
  · exact .refl self

theorem parseAttribute_session (self : GumboUrlFilter) (attr : GumboAttribute) :
    Session regexes self (self.parseAttribute regexes attr) := by
  refine (parseEventHandler_session self attr).trans ?_
  unfold parseAttribute
  dsimp only
  split
  · exact .of_added (addAnchor_added _ _)
  · split
    · exact .of_added (addAnchor_added _ _)
    · exact .refl _

theorem parseElement_session (self : GumboUrlFilter) (element : GumboElement) :
    Session regexes self (self.parseElement regexes element) := by
  have hshown : Session regexes self { self with lastElement := some element } := .of_anchors rfl
  refine hshown.trans ?_
  have hattributes (self : GumboUrlFilter) :
      Session regexes self (element.attributes.foldl (parseAttribute regexes) self) :=
    Session.foldl parseAttribute_session _ _
  unfold parseElement parseMeta
  dsimp only
  split
  · cases metaUrl element.attributes with
    | none => exact hattributes _
    | some finalUrl => exact .of_added (addAnchor_added _ _)
  · exact hattributes _

/-- Each callback is a part of a session. -/
theorem receive_session (self : GumboUrlFilter) (event : GumboEvent) :
    Session regexes self ((filter regexes).receive event self) := by
  cases event with
  | element element children => exact parseElement_session self element
  | comment text => exact .of_added (addAnchorsSet_added regexes self _)
  | text text =>
    show Session regexes self (self.parseText regexes text)
    unfold parseText
    split
    · have hadded := addAnchorsSet_added regexes
        { self with issues := (scrapeJs regexes text.text self.issues).2 }
        (scrapeJs regexes text.text self.issues).1
      refine Session.of_added_after ?_ hadded
      rfl
    · exact .of_added (addAnchorsSet_added regexes self _)

theorem visit_session (events : List GumboEvent) (self : GumboUrlFilter) :
    Session regexes self (visit [(filter regexes).receive] events self) :=
  Session.foldl receive_session events self

theorem Session.valid (h : Session regexes self last) (hself : ValidAnchors self.anchors) :
    ValidAnchors last.anchors := by
  induction h with
  | refl => exact hself
  | add _ hadded ih => exact hadded.valid ih
  | other _ hanchors ih => exact hanchors ▸ ih

theorem ValidAnchors.mono {anchors anchors' : List Bytes} (h : ValidAnchors anchors')
    (hinitial : anchors <+: anchors') : ValidAnchors anchors :=
  ⟨h.nodup.sublist hinitial.sublist, fun anchor hanchor =>
    h.noScript anchor (hinitial.subset hanchor)⟩

end

/-- `AddAnchor` calls itself for shorter strings only and comes to its end. Every sequence of
    callbacks is a session. In one that starts without anchors, no part of the list from its start
    on has an anchor twice, or a script. -/
theorem anchors_valid (regexes : ScrapeRegexes) :
    (∀ inner outer, Calls regexes inner outer → inner.length < outer.length) ∧
    (∀ self newAnchor, Added regexes self [newAnchor] (self.addAnchor regexes newAnchor)) ∧
    (∀ (events : List GumboEvent) (self : GumboUrlFilter),
      Session regexes self (visit [(filter regexes).receive] events self)) ∧
    ∀ start last : GumboUrlFilter, start.anchors = [] → Session regexes start last →
      ∀ anchors, anchors <+: last.anchors → ValidAnchors anchors := by
  refine ⟨fun inner outer h => h.length_lt, addAnchor_added, visit_session, ?_⟩
  intro start last hstart hsession anchors hinitial
  have hempty : ValidAnchors start.anchors := by
    rw [hstart]
    exact ⟨List.nodup_nil, fun anchor h => absurd h List.not_mem_nil⟩
  exact (hsession.valid hempty).mono hinitial

end GumboUrlFilter

end plusfish

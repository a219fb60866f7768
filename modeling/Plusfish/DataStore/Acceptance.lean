import Plusfish.DataStore.Insert

open memory ordered_map

namespace plusfish

/-- An environment with the default limits and with regular expressions that are
    literal texts. -/
def StoreEnv.literal : StoreEnv where
  pivotRequestLimit := 500
  pivotChildLimit := 500
  maxIssuesPerCheckPerUrl := 3
  maxIssuesPerUrl := 25
  maxIssuesPerCheck := 100
  regexOk := fun _ => true
  partialMatch := fun text regex => text.tails.any regex.isPrefixOf
  messageDifferencerEquals := fun a b => a = b

/-- An environment in which every text is a URL of one host. -/
def RequestEnv.single (host : Bytes) : RequestEnv where
  gurl := fun _ =>
    { isValid := true
      host := host
      effectiveIntPort := 80
      schemeIsSecure := false
      path := ascii "/"
      hasQuery := false
      query := [] }
  resolve := fun base _ => base
  userAgent := ascii "plusfish"

/-- A request for one page of a site. -/
def shopRequest : Request :=
  Request.ofProto (RequestEnv.single (ascii "site"))
    { hostField := some (ascii "site")
      portField := some 80
      path := [{ nameField := some (ascii "/"), valueField := some (ascii "shop") }] }

namespace DataStore

section
variable (env : StoreEnv) (self : DataStore) (request : Request)

/-- The scope as the comments on the regex lists describe it: a URL is in it if one
    of the whitelist regexes, where there are any, matches the URL. -/
def documentedScope : Prop :=
  request.urlIsValid = true ∧ request.host ∈ self.allowedHosts ∧
    (∀ regex ∈ self.urlBlacklistRegexes, env.partialMatch request.url regex = false) ∧
    (self.urlWhitelistRegexes = [] ∨
      ∃ regex ∈ self.urlWhitelistRegexes, env.partialMatch request.url regex = true)

/-- The URL of a request that is in scope matches one whitelist regex and misses
    another. -/
def whitelistDisagrees : Prop :=
  request.urlIsValid = true ∧ request.host ∈ self.allowedHosts ∧
    (∀ regex ∈ self.urlBlacklistRegexes, env.partialMatch request.url regex = false) ∧
    (∃ regex ∈ self.urlWhitelistRegexes, env.partialMatch request.url regex = true) ∧
    ∃ regex ∈ self.urlWhitelistRegexes, env.partialMatch request.url regex = false

end

variable {env : StoreEnv} {self : DataStore} {mem : Heap Request} {req : Nat}

theorem inScope_iff {request : Request} : self.inScope env request = true ↔
    request.urlIsValid = true ∧ request.host ∈ self.allowedHosts ∧
      (∀ regex ∈ self.urlBlacklistRegexes, env.partialMatch request.url regex = false) ∧
      ∀ regex ∈ self.urlWhitelistRegexes, env.partialMatch request.url regex = true := by
  simp only [inScope, Bool.and_eq_true, List.contains_iff_mem, Bool.not_eq_true',
    List.any_eq_false, Bool.not_eq_false, Bool.not_eq_true]
  constructor
  · rintro ⟨⟨⟨hhost, hwhite⟩, hblack⟩, hvalid⟩
    exact ⟨hvalid, hhost, hblack, hwhite⟩
  · rintro ⟨hvalid, hhost, hblack, hwhite⟩
    exact ⟨⟨⟨hhost, hwhite⟩, hblack⟩, hvalid⟩

theorem documentedScope_of_inScope {request : Request}
    (h : self.inScope env request = true) : self.documentedScope env request := by
  obtain ⟨hvalid, hhost, hblack, hwhite⟩ := inScope_iff.mp h
  refine ⟨hvalid, hhost, hblack, ?_⟩
  cases hlist : self.urlWhitelistRegexes with
  | nil => exact Or.inl rfl
  | cons regex regexes =>
    have hmem : regex ∈ self.urlWhitelistRegexes := by simp [hlist]
    exact Or.inr ⟨regex, List.mem_cons_self, hwhite regex hmem⟩

/-- The filters are the documented scope except where the whitelist regexes disagree
    about the URL. -/
theorem inScope_iff_documentedScope_iff {request : Request} :
    (self.inScope env request = true ↔ self.documentedScope env request) ↔
      ¬ self.whitelistDisagrees env request := by
  constructor
  · rintro hiff ⟨hvalid, hhost, hblack, hsome, regex, hregex, hmiss⟩
    have hscope := inScope_iff.mp (hiff.mpr ⟨hvalid, hhost, hblack, Or.inr hsome⟩)
    have hmatch := hscope.2.2.2 regex hregex
    rw [hmiss] at hmatch
    cases hmatch
  · intro hagree
    refine ⟨documentedScope_of_inScope, ?_⟩
    rintro ⟨hvalid, hhost, hblack, hwhite⟩
    refine inScope_iff.mpr ⟨hvalid, hhost, hblack, fun regex hregex => ?_⟩
    by_contra hmiss
    rcases hwhite with hnone | hsome
    · rw [hnone] at hregex
      cases hregex
    · exact hagree ⟨hvalid, hhost, hblack, hsome, regex, hregex, by simpa using hmiss⟩

/-- A request that is new and has room is accepted exactly within the documented
    scope, unless one whitelist regex matches its URL and another does not. -/
theorem addRequest_accepts_documentedScope_iff (env : StoreEnv) (self : DataStore)
    (mem : Heap Request) (req : Nat)
    (hroom : (self.rootPivot env (deref mem req).host).hasRoom env (deref mem req).place.2 = true)
    (hnew : ∀ sample ∈ self.siteMap (deref mem req).place,
      ¬ (deref mem sample).equals (deref mem req)) :
    ((self.addRequest env mem req).1 ≠ kInvalidId ↔
      self.documentedScope env (deref mem req)) ↔
      ¬ self.whitelistDisagrees env (deref mem req) := by
  have htakes := (takes_iff env self mem req).mpr ⟨hroom, hnew⟩
  rw [addRequest_fst_ne_kInvalidId, ← inScope_iff_documentedScope_iff]
  simp only [htakes, and_true]

/-- A store that includes two parts of a site. -/
def twoAreas : DataStore :=
  { allowedHosts := [ascii "site"]
    urlWhitelistRegexes := [ascii "/shop", ascii "/blog"] }

theorem addRequest_accepts_documentedScope_iff_shop :
    ((twoAreas.addRequest StoreEnv.literal ⟨[shopRequest]⟩ 0).1 ≠ kInvalidId ↔
      twoAreas.documentedScope StoreEnv.literal shopRequest) ↔
      ¬ twoAreas.whitelistDisagrees StoreEnv.literal shopRequest :=
  addRequest_accepts_documentedScope_iff _ _ ⟨[shopRequest]⟩ 0 (by decide)
    (fun sample hsample => by cases hsample)

/-- A request for one of the two parts is refused, though nothing else stands in its
    way: its URL does not match the regex of the other part. -/
theorem addRequest_refuses_documentedScope :
    (twoAreas.rootPivot StoreEnv.literal shopRequest.host).hasRoom StoreEnv.literal
        shopRequest.place.2 = true ∧
      twoAreas.siteMap shopRequest.place = [] ∧
      ¬ ((twoAreas.addRequest StoreEnv.literal ⟨[shopRequest]⟩ 0).1 ≠ kInvalidId ↔
        twoAreas.documentedScope StoreEnv.literal shopRequest) := by
  refine ⟨by decide, rfl, fun hiff => ?_⟩
  have hdocumented : twoAreas.documentedScope StoreEnv.literal shopRequest :=
    ⟨by decide, by decide, by decide, Or.inr ⟨ascii "/shop", by decide, by decide⟩⟩
  have hrefused : (twoAreas.addRequest StoreEnv.literal ⟨[shopRequest]⟩ 0).1 = kInvalidId := by
    decide
  exact hiff.mpr hdocumented hrefused

/-- With positive limits, pivots that do not take a request are left as they are. A
    host pivot is never added in vain, since a new tree takes any request. -/
theorem placed_of_not_takes (hchild : 1 ≤ env.pivotChildLimit.toInt)
    (hrequest : 1 ≤ env.pivotRequestLimit.toInt) (hrefused : self.takes env mem req = false) :
    self.placed env mem req = self := by
  unfold takes at hrefused
  unfold placed
  cases hroot : find self.sitePivots (deref mem req).host with
  | none =>
    simp only [rootPivot, hroot, Option.getD_none, Pivot.insert_new hchild hrequest] at hrefused
    cases hrefused
  | some root =>
    simp only [rootPivot, hroot, Option.getD_some] at hrefused ⊢
    rw [Pivot.insert_of_failed hchild hrequest root _ hrefused, assign, hroot, Option.isSome_some,
      if_pos rfl, adjust_self hroot]

/-- With positive limits, a refused request leaves no trace: neither in the pivots,
    the id index, the id counter and the queues, nor in any stored request. -/
theorem addRequest_refused_leaves_no_trace (hchild : 1 ≤ env.pivotChildLimit.toInt)
    (hrequest : 1 ≤ env.pivotRequestLimit.toInt)
    (hrefused : (self.addRequest env mem req).1 = kInvalidId) :
    (self.addRequest env mem req).2 = (mem, self) := by
  rcases addRequest_cases env self mem req with
    ⟨_, heq⟩ | ⟨_, hfull, heq⟩ | ⟨hscope, htakes, _⟩
  · rw [heq]
  · rw [heq, placed_of_not_takes hchild hrequest hfull]
  · exact absurd hrefused (addRequest_fst_ne_kInvalidId.mpr ⟨hscope, htakes⟩)

/-- Limits that leave room for one page in a directory. -/
def tightEnv : StoreEnv := { StoreEnv.literal with pivotChildLimit := 1 }

def shopPage (page : String) : Request :=
  Request.ofProto (RequestEnv.single (ascii "site"))
    { hostField := some (ascii "site")
      portField := some 80
      path := [{ nameField := some (ascii "/"), valueField := some (ascii "shop") },
        { nameField := some (ascii "/"), valueField := some (ascii page) }] }

/-- One of two pages of a directory is stored. -/
def cartStored : Heap Request × DataStore :=
  (({ allowedHosts := [ascii "site"] } : DataStore).addRequest tightEnv
    ⟨[shopPage "cart", shopPage "blog"]⟩ 0).2

/-- The other page is refused by the pivot of the directory, which has no room for a child. -/
theorem addRequest_refused_leaves_no_trace_shop :
    cartStored.2.siteMap (shopPage "cart").place = [0] ∧
    cartStored.2.inScope tightEnv (shopPage "blog") = true ∧
    (cartStored.2.addRequest tightEnv cartStored.1 1).2 = cartStored :=
  ⟨by decide, by decide, addRequest_refused_leaves_no_trace (by decide) (by decide) (by decide)⟩

end DataStore

end plusfish

import Mathlib.Logic.Relation
import Plusfish.Crawler
import Plusfish.DataStore.Insert
import Plusfish.DataStore.Issues

open memory Relation

namespace plusfish

/-- The two are requests for one URL with one handler. -/
structure Request.SameTarget (request request' : Request) : Prop where
  url : request'.url = request.url
  requestHandler : request'.requestHandler = request.requestHandler

theorem Request.SameTarget.refl (request : Request) : SameTarget request request := ⟨rfl, rfl⟩

theorem Request.SameTarget.trans (a b c : Request) (hab : SameTarget a b) (hbc : SameTarget b c) :
    SameTarget a c :=
  ⟨hbc.url.trans hab.url, hbc.requestHandler.trans hab.requestHandler⟩

/-- One thing that a component does to the requests and the datastore. -/
inductive StoreEffect (env : StoreEnv) : Heap Request × DataStore → Heap Request × DataStore → Prop
  | alloc (mem : Heap Request) (store : DataStore) (request : Request) :
      StoreEffect env (mem, store) ((mem.alloc request).2, store)
  | add (mem : Heap Request) (store : DataStore) (req : Nat) :
      StoreEffect env (mem, store) (store.addRequest env mem req).2
  | issue (mem : Heap Request) (store : DataStore) (requestId : Int) (issue : IssueDetails) :
      StoreEffect env (mem, store) (store.addIssueDetails env mem requestId issue).2
  | modify (mem : Heap Request) (store : DataStore) (req : Nat) (f : Request → Request)
      (htarget : ∀ request, Request.SameTarget request (f request)) :
      StoreEffect env (mem, store) (mem.modify req f, store)
  | keep (mem : Heap Request) (store store' : DataStore)
      (hindex : store'.requestsById = store.requestsById)
      (hexclude : store'.urlBlacklistRegexes = store.urlBlacklistRegexes) :
      StoreEffect env (mem, store) (mem, store')

abbrev StoreEffects (env : StoreEnv) := ReflTransGen (StoreEffect env)

theorem DataStore.addRequest_frame (env : StoreEnv) (mem : Heap Request) (store : DataStore)
    (req : Nat) : Heap.Frame Request.SameTarget mem (store.addRequest env mem req).2.1 := by
  rcases addRequest_cases env store mem req with ⟨_, heq⟩ | ⟨_, _, heq⟩ | ⟨_, _, heq⟩
  · rw [heq]
    exact .refl Request.SameTarget.refl _
  · rw [heq]
    exact .refl Request.SameTarget.refl _
  · rw [heq]
    exact .modify Request.SameTarget.refl _ _ fun _ => ⟨rfl, rfl⟩

theorem DataStore.addIssueDetails_frame (env : StoreEnv) (mem : Heap Request) (store : DataStore)
    (requestId : Int) (issue : IssueDetails) :
    Heap.Frame Request.SameTarget mem (store.addIssueDetails env mem requestId issue).2.1 := by
  have houtcome := addIssueDetails_outcome env mem store requestId issue
  generalize store.addIssueDetails env mem requestId issue = result at houtcome
  cases houtcome with
  | refused => exact .refl Request.SameTarget.refl _
  | stored => exact .modify Request.SameTarget.refl _ _ fun _ => ⟨rfl, rfl⟩

/-- No component changes what a request that exists is for. -/
theorem StoreEffect.frame {env : StoreEnv} {before after : Heap Request × DataStore}
    (h : StoreEffect env before after) : Heap.Frame Request.SameTarget before.1 after.1 := by
  cases h with
  | alloc mem store request => exact .alloc Request.SameTarget.refl mem request
  | add mem store req => exact DataStore.addRequest_frame env mem store req
  | issue mem store requestId issue => exact DataStore.addIssueDetails_frame env mem store _ _
  | modify mem store req f htarget => exact .modify Request.SameTarget.refl _ _ htarget
  | keep => exact .refl Request.SameTarget.refl _

theorem StoreEffects.frame {env : StoreEnv} {before after : Heap Request × DataStore}
    (h : StoreEffects env before after) : Heap.Frame Request.SameTarget before.1 after.1 := by
  induction h with
  | refl => exact .refl Request.SameTarget.refl _
  | tail _ hstep ih => exact ih.trans Request.SameTarget.trans hstep.frame

theorem StoreEffects.foldl {env : StoreEnv} {α : Type}
    {f : Heap Request × DataStore → α → Heap Request × DataStore}
    (hf : ∀ state a, StoreEffects env state (f state a)) (state : Heap Request × DataStore)
    (l : List α) : StoreEffects env state (l.foldl f state) := by
  induction l generalizing state with
  | nil => exact .refl
  | cons a l ih => exact (hf state a).trans (ih _)

/-- One thing that the crawler and the passive auditor do while they look at a page: a new
    request is given to the datastore, an issue is reported, or a fingerprint is kept. -/
inductive PageEffect (env : StoreEnv) (newRequest : Request → Prop) :
    Heap Request × DataStore → Heap Request × DataStore → Prop
  | add (mem : Heap Request) (store : DataStore) (request : Request) (hnew : newRequest request) :
      PageEffect env newRequest (mem, store)
        (store.addRequest env (mem.alloc request).2 mem.next).2
  | issue (mem : Heap Request) (store : DataStore) (requestId : Int) (issue : IssueDetails) :
      PageEffect env newRequest (mem, store) (store.addIssueDetails env mem requestId issue).2
  | fingerprint (mem : Heap Request) (store : DataStore) (requestId : Int)
      (fingerprint : HtmlFingerprint) :
      PageEffect env newRequest (mem, store)
        ((store.addResponseFingerprintToRequest mem requestId fingerprint).2, store)

abbrev PageEffects (env : StoreEnv) (newRequest : Request → Prop) :=
  ReflTransGen (PageEffect env newRequest)

section
variable {env : StoreEnv} {newRequest : Request → Prop}

theorem PageEffect.storeEffects {before after : Heap Request × DataStore}
    (h : PageEffect env newRequest before after) : StoreEffects env before after := by
  cases h with
  | add mem store request =>
    exact (ReflTransGen.single (.alloc mem store request)).tail (.add _ _ _)
  | issue mem store requestId issue => exact .single (.issue mem store requestId issue)
  | fingerprint mem store requestId fingerprint =>
    unfold DataStore.addResponseFingerprintToRequest
    split
    · exact .refl
    · exact .single (.modify mem store _ _ fun _ => ⟨rfl, rfl⟩)

theorem PageEffects.storeEffects {before after : Heap Request × DataStore}
    (h : PageEffects env newRequest before after) : StoreEffects env before after := by
  induction h with
  | refl => exact .refl
  | tail _ hstep ih => exact ih.trans hstep.storeEffects

theorem PageEffects.mono {newRequest' : Request → Prop} {before after : Heap Request × DataStore}
    (h : PageEffects env newRequest before after)
    (himp : ∀ request, newRequest request → newRequest' request) :
    PageEffects env newRequest' before after := by
  refine h.lift id fun _ _ hstep => ?_
  cases hstep with
  | add mem store request hnew => exact .add mem store request (himp request hnew)
  | issue mem store requestId issue => exact .issue mem store requestId issue
  | fingerprint mem store requestId fingerprint =>
    exact .fingerprint mem store requestId fingerprint

theorem PageEffects.foldl {α : Type} {f : Heap Request × DataStore → α → Heap Request × DataStore}
    (l : List α) (hf : ∀ state, ∀ a ∈ l, PageEffects env newRequest state (f state a))
    (state : Heap Request × DataStore) : PageEffects env newRequest state (l.foldl f state) := by
  induction l generalizing state with
  | nil => exact .refl
  | cons a l ih =>
    have hrest (state : Heap Request × DataStore) (b : α) (hb : b ∈ l) :=
      hf state b (List.mem_cons_of_mem _ hb)
    exact (hf state a List.mem_cons_self).trans (ih hrest _)

/-- The two are one request, with one parent. -/
structure Request.SameLineage (request request' : Request) : Prop where
  id : request'.id = request.id
  parentId : request'.parentId = request.parentId

theorem Request.SameLineage.refl (request : Request) : SameLineage request request := ⟨rfl, rfl⟩

theorem Request.SameLineage.trans (a b c : Request) (hab : SameLineage a b)
    (hbc : SameLineage b c) : SameLineage a c :=
  ⟨hbc.id.trans hab.id, hbc.parentId.trans hab.parentId⟩

/-- A request gets its id where it is new, and keeps it. -/
theorem PageEffect.lineage {before after : Heap Request × DataStore}
    (h : PageEffect env newRequest before after) :
    Heap.Frame Request.SameLineage before.1 after.1 := by
  cases h with
  | add mem store request =>
    rcases DataStore.addRequest_cases env store (mem.alloc request).2 mem.next with
      ⟨_, heq⟩ | ⟨_, _, heq⟩ | ⟨_, _, heq⟩
    · rw [heq]
      exact .alloc Request.SameLineage.refl mem request
    · rw [heq]
      exact .alloc Request.SameLineage.refl mem request
    · rw [heq]
      exact .alloc_modify Request.SameLineage.refl mem request _
  | issue mem store requestId issue =>
    have houtcome := DataStore.addIssueDetails_outcome env mem store requestId issue
    generalize store.addIssueDetails env mem requestId issue = result at houtcome
    cases houtcome with
    | refused => exact .refl Request.SameLineage.refl mem
    | stored => exact .modify Request.SameLineage.refl mem _ fun _ => ⟨rfl, rfl⟩
  | fingerprint mem store requestId fingerprint =>
    unfold DataStore.addResponseFingerprintToRequest
    split
    · exact .refl Request.SameLineage.refl mem
    · exact .modify Request.SameLineage.refl mem _ fun _ => ⟨rfl, rfl⟩

theorem PageEffects.lineage {before after : Heap Request × DataStore}
    (h : PageEffects env newRequest before after) :
    Heap.Frame Request.SameLineage before.1 after.1 := by
  induction h with
  | refl => exact .refl Request.SameLineage.refl _
  | tail _ hstep ih => exact ih.trans Request.SameLineage.trans hstep.lineage

/-- What looking at a page leaves alone in the datastore. -/
structure DataStore.SamePlans (store store' : DataStore) : Prop where
  requestMeta : store'.requestMeta = store.requestMeta
  crawlQueue : store'.crawlQueue = store.crawlQueue
  auditQueue : store'.auditQueue = store.auditQueue
  notFoundFingerprints : store'.notFoundFingerprints = store.notFoundFingerprints

theorem DataStore.addRequest_samePlans (env : StoreEnv) (mem : Heap Request) (store : DataStore)
    (req : Nat) : SamePlans store (store.addRequest env mem req).2.2 := by
  rcases addRequest_cases env store mem req with ⟨_, heq⟩ | ⟨_, _, heq⟩ | ⟨_, _, heq⟩
  · rw [heq]
    exact ⟨rfl, rfl, rfl, rfl⟩
  · rw [heq]
    exact ⟨rfl, rfl, rfl, rfl⟩
  · rw [heq]
    exact ⟨rfl, rfl, rfl, rfl⟩

theorem PageEffect.samePlans {before after : Heap Request × DataStore}
    (h : PageEffect env newRequest before after) : DataStore.SamePlans before.2 after.2 := by
  cases h with
  | add mem store request => exact DataStore.addRequest_samePlans env _ store _
  | issue mem store requestId issue =>
    obtain ⟨_, _, _, heq⟩ := DataStore.addIssueDetails_sameButIssues env mem store requestId issue
    rw [heq]
    exact ⟨rfl, rfl, rfl, rfl⟩
  | fingerprint => exact ⟨rfl, rfl, rfl, rfl⟩

theorem PageEffects.samePlans {before after : Heap Request × DataStore}
    (h : PageEffects env newRequest before after) : DataStore.SamePlans before.2 after.2 := by
  induction h with
  | refl => exact ⟨rfl, rfl, rfl, rfl⟩
  | tail _ hstep ih =>
    have hlast := hstep.samePlans
    exact ⟨hlast.requestMeta.trans ih.requestMeta, hlast.crawlQueue.trans ih.crawlQueue,
      hlast.auditQueue.trans ih.auditQueue,
      hlast.notFoundFingerprints.trans ih.notFoundFingerprints⟩

end

theorem PassiveAuditor.check_pageEffects (env : ScanEnv) (newRequest : Request → Prop)
    (self : PassiveAuditor) (mem : Heap Request) (store : DataStore) (req : Nat) :
    PageEffects env.store newRequest (mem, store) (self.check env mem store req) := by
  unfold PassiveAuditor.check
  split
  · exact .refl
  · refine .foldl _ (fun state entry _ => ?_) _
    obtain ⟨mem, store⟩ := state
    obtain ⟨matcher, test⟩ := entry
    dsimp only
    split
    · exact .single (.issue mem store _ _)
    · exact .refl

theorem PassiveAuditor.check_effects (env : ScanEnv) (self : PassiveAuditor) (mem : Heap Request)
    (store : DataStore) (req : Nat) :
    StoreEffects env.store (mem, store) (self.check env mem store req) :=
  (check_pageEffects env (fun _ => False) self mem store req).storeEffects

namespace Crawler

/-- The page that `ScrapeRequest` gets from the HTML scraper. -/
def scrapedPage (env : ScanEnv) (mem : Heap Request) (req : Nat) : Option Scraped :=
  (deref mem req).response.bind fun response =>
    if scrapeMimeType response = .ascHtml ∨ scrapeMimeType response = .xmlXhtml then
      env.scrapeHtml req (deref mem req) response.body
    else none

/-- The requests that scraping a page can give to the datastore: those for its links and those
    of its forms. -/
def Discovers (env : ScanEnv) (mem : Heap Request) (req : Nat) (request : Request) : Prop :=
  (∃ url ref, request = Request.ofUrl env.request url (some (req, ref))) ∨
    ∃ scraped, scrapedPage env mem req = some scraped ∧ request ∈ scraped.requests

theorem addNewRequest_effects (env : ScanEnv) (mem : Heap Request) (store : DataStore)
    (request : Request) :
    StoreEffects env.store (mem, store) (addNewRequest env mem store request) :=
  (ReflTransGen.single (.alloc mem store request)).tail (.add _ store mem.next)

section
variable {env : ScanEnv} {newRequest : Request → Prop} {req : Nat}

theorem addLocation_effects
    (hlink : ∀ url ref, newRequest (Request.ofUrl env.request url (some (req, ref))))
    (state : Heap Request × DataStore) :
    PageEffects env.store newRequest state (addLocation env state.1 state.2 req) := by
  unfold addLocation
  split
  · exact .single (.add state.1 state.2 _ (hlink _ _))
  · exact .refl

theorem addScraped_effects
    (hlink : ∀ url ref, newRequest (Request.ofUrl env.request url (some (req, ref))))
    {scraped : Scraped} (hform : ∀ request ∈ scraped.requests, newRequest request)
    (mem : Heap Request) (store : DataStore) (alsoExtractLinks storeFingerprint : Bool) :
    PageEffects env.store newRequest (mem, store)
      (addScraped env mem store req scraped alsoExtractLinks storeFingerprint) := by
  have hfingerprint : ∃ mem', PageEffects env.store newRequest (mem, store) (mem', store) ∧
      (if storeFingerprint then
        (store.addResponseFingerprintToRequest mem (deref mem req).id scraped.fingerprint).2
      else mem) = mem' := by
    refine ⟨_, ?_, rfl⟩
    split
    · exact .single (.fingerprint mem store _ _)
    · exact .refl
  obtain ⟨mem', heffects, heq⟩ := hfingerprint
  unfold addScraped
  simp only [heq]
  have hanchors : PageEffects env.store newRequest (mem', store)
      (if alsoExtractLinks then
        scraped.anchors.foldl (fun state anchor => maybeAddUrl env state.1 state.2 req anchor)
          (mem', store)
      else (mem', store)) := by
    split
    · exact .foldl _ (fun state anchor _ => .single (.add state.1 state.2 _ (hlink _ _))) _
    · exact .refl
  have hrequests (linked : Heap Request × DataStore) : PageEffects env.store newRequest linked
      (scraped.requests.foldl (fun state request => addNewRequest env state.1 state.2 request)
        linked) :=
    .foldl _ (fun state request hmem => .single (.add state.1 state.2 _ (hform request hmem))) _
  refine (heffects.trans (hanchors.trans (hrequests _))).trans ?_
  exact PageEffects.foldl scraped.issues
    (fun state issue _ => .single (.issue state.1 state.2 _ _)) _

theorem scrapeRequest_pageEffects (env : ScanEnv) (mem : Heap Request) (store : DataStore)
    (req : Nat) (extractLinks storeFingerprint : Bool) :
    PageEffects env.store (Discovers env mem req) (mem, store)
      (scrapeRequest env mem store req extractLinks storeFingerprint).2 := by
  have hlink (url : Bytes) (ref : Request) :
      Discovers env mem req (Request.ofUrl env.request url (some (req, ref))) :=
    Or.inl ⟨url, ref, rfl⟩
  have hlocation (state : Heap Request × DataStore) :
      PageEffects env.store (Discovers env mem req) state
        (if env.extractLinks && extractLinks then addLocation env state.1 state.2 req
        else (state.1, state.2)) := by
    split
    · exact addLocation_effects hlink state
    · exact .refl
  unfold scrapeRequest
  cases hresponse : (deref mem req).response with
  | none => exact .refl
  | some response =>
    dsimp only
    split
    · rename_i hmime
      cases hscraped : env.scrapeHtml req (deref mem req) response.body with
      | none => exact .refl
      | some scraped =>
        have hpage : scrapedPage env mem req = some scraped := by
          simp [scrapedPage, hresponse, hmime, hscraped]
        have hform (request : Request) (hmem : request ∈ scraped.requests) :
            Discovers env mem req request := Or.inr ⟨scraped, hpage, hmem⟩
        exact (addScraped_effects hlink hform mem store _ storeFingerprint).trans (hlocation _)
    · exact hlocation (mem, store)

theorem scrapeRequest_effects (env : ScanEnv) (mem : Heap Request) (store : DataStore) (req : Nat)
    (extractLinks storeFingerprint : Bool) : StoreEffects env.store (mem, store)
      (scrapeRequest env mem store req extractLinks storeFingerprint).2 :=
  (scrapeRequest_pageEffects env mem store req extractLinks storeFingerprint).storeEffects

end

/-- All that the crawler does with a response. -/
theorem requestCallback_effects (env : ScanEnv) (passiveAuditor : PassiveAuditor)
    (mem : Heap Request) (store : DataStore) (req : Nat) :
    StoreEffects env.store (mem, store) (requestCallback env passiveAuditor mem store req) := by
  unfold requestCallback
  cases (deref mem req).response with
  | none => exact .refl
  | some response =>
    dsimp only
    split
    · exact .refl
    · have hcheck : StoreEffects env.store (mem, store)
          (if env.hasAuditors then passiveAuditor.check env mem store req else (mem, store)) := by
        split
        · exact PassiveAuditor.check_effects env passiveAuditor mem store req
        · exact .refl
      generalize (if env.hasAuditors then passiveAuditor.check env mem store req
        else (mem, store)) = checked at hcheck
      have haudit : StoreEffects env.store checked (checked.1,
          if skipsTesting checked.2 response then checked.2
          else if env.hasAuditors then checked.2.addRequestToAuditQueue req
          else checked.2) := by
        split
        · exact .refl
        · split
          · exact .single (.keep checked.1 checked.2 _ rfl rfl)
          · exact .refl
      generalize (if skipsTesting checked.2 response then checked.2
        else if env.hasAuditors then checked.2.addRequestToAuditQueue req
        else checked.2) = audited at haudit
      have hscrape := scrapeRequest_effects env checked.1 audited req true true
      refine hcheck.trans (haudit.trans (hscrape.trans ?_))
      dsimp only [scrapeWithLinks]
      split
      · exact .single (.modify _ _ req (·.truncateResponseBody) fun _ => ⟨rfl, rfl⟩)
      · exact .refl

end Crawler

end plusfish

import Plusfish.Crawler.Effects
import Plusfish.DataStore.Acceptance
import Plusfish.DataStore.Ignores

open memory ordered_map

namespace plusfish

namespace DataStore

/-- The two datastores agree on the requests, the pivots and the queues. -/
structure SameSites (store store' : DataStore) : Prop where
  requestId : store'.requestId = store.requestId
  requestsById : store'.requestsById = store.requestsById
  sitePivots : store'.sitePivots = store.sitePivots
  probeQueue : store'.probeQueue = store.probeQueue
  crawlQueue : store'.crawlQueue = store.crawlQueue
  auditQueue : store'.auditQueue = store.auditQueue

theorem SameSites.refl (store : DataStore) : SameSites store store := ⟨rfl, rfl, rfl, rfl, rfl, rfl⟩

theorem SameSites.size_eq {store store' : DataStore} (h : SameSites store store') :
    store'.size = store.size := by
  rw [size, h.sitePivots, size]

theorem SameButIssues.sameSites_iff {store store₁ store₂ : DataStore}
    (h : SameButIssues store₁ store₂) : SameSites store store₂ ↔ SameSites store store₁ := by
  obtain ⟨_, _, _, rfl⟩ := h
  exact ⟨fun ⟨h₁, h₂, h₃, h₄, h₅, h₆⟩ => ⟨h₁, h₂, h₃, h₄, h₅, h₆⟩,
    fun ⟨h₁, h₂, h₃, h₄, h₅, h₆⟩ => ⟨h₁, h₂, h₃, h₄, h₅, h₆⟩⟩

end DataStore

namespace Crawler

open DataStore

/-- Whether the datastore ignores the requests, each of which is a new object. -/
def ignoresAll (env : StoreEnv) (store : DataStore) : Heap Request → List Request → Bool
  | _, [] => true
  | mem, request :: requests =>
    let (req, mem) := mem.alloc request
    store.ignores env mem req && ignoresAll env store mem requests

/-- Whether the datastore ignores the form requests of the page, where there is one. -/
def ignoresForms (env : ScanEnv) (mem : Heap Request) (store : DataStore) (req : Nat) : Bool :=
  (scrapedPage env mem req).all fun scraped => ignoresAll env.store store mem scraped.requests

section
variable {env : ScanEnv} {store : DataStore}

theorem ignoresAll_congr {mem mem' : Heap Request} (hnext : mem'.next = mem.next)
    (hproto : ∀ p, (deref mem' p).proto = (deref mem p).proto) (requests : List Request) :
    ignoresAll env.store store mem' requests = ignoresAll env.store store mem requests := by
  induction requests generalizing mem mem' with
  | nil => rfl
  | cons request requests ih =>
    have hproto' (p : Nat) : (deref (mem'.alloc request).2 p).proto =
        (deref (mem.alloc request).2 p).proto := by
      have h := hproto p
      simp only [deref, Heap.get?_alloc, hnext] at h ⊢
      split
      · rfl
      · exact h
    have hreq : deref (mem'.alloc request).2 mem.next = deref (mem.alloc request).2 mem.next := by
      simp only [deref, Heap.get?_alloc, hnext, if_pos]
    simp only [ignoresAll, Heap.alloc_fst, hnext, ignores_congr hproto' hreq]
    rw [ih (by simp [hnext]) hproto']

/-- Gives several new requests to the datastore, one after the other. -/
def addNewRequests (env : ScanEnv) (state : Heap Request × DataStore) (requests : List Request) :
    Heap Request × DataStore :=
  requests.foldl (fun (mem, store) request => addNewRequest env mem store request) state

theorem size_le_addNewRequests (state : Heap Request × DataStore) (requests : List Request) :
    state.2.size ≤ (addNewRequests env state requests).2.size := by
  induction requests generalizing state with
  | nil => exact Nat.le_refl _
  | cons request requests ih =>
    have hfirst := size_le_addRequest env.store (state.1.alloc request).2 state.2 state.1.next
    exact Nat.le_trans hfirst (ih _)

/-- Requests that are given to the datastore one after the other change its requests, pivots
    or queues, unless it ignores each of them: what one of them adds stays. -/
theorem addNewRequests_sameSites_iff (mem : Heap Request) (requests : List Request) :
    SameSites store (addNewRequests env (mem, store) requests).2 ↔
      ignoresAll env.store store mem requests = true := by
  induction requests generalizing mem with
  | nil => exact iff_of_true (.refl store) rfl
  | cons request requests ih =>
    have hadd := addRequest_ignores env.store (mem.alloc request).2 store mem.next
    have hcons : addNewRequests env (mem, store) (request :: requests) =
        addNewRequests env (addNewRequest env mem store request) requests := rfl
    rw [hcons, ignoresAll, Bool.and_eq_true]
    split at hadd
    · rename_i hignores
      have hnew : addNewRequest env mem store request = ((mem.alloc request).2, store) := by
        simp only [addNewRequest, Heap.alloc_fst, hadd]
      rw [hnew, ih]
      exact (and_iff_right hignores).symm
    · rename_i hignores
      refine iff_of_false (fun hsame => ?_) fun h => hignores h.1
      have hgrown : (addNewRequest env mem store request).2.size ≤
          (addNewRequests env (addNewRequest env mem store request) requests).2.size :=
        size_le_addNewRequests _ requests
      have hmore : store.size < (addNewRequest env mem store request).2.size := hadd
      have hsize := hsame.size_eq
      omega

theorem addScrapedIssues_sameButIssues (state : Heap Request × DataStore) (req : Nat)
    (issues : List IssueDetails) :
    SameButIssues state.2 (issues.foldl
      (fun (mem, store) issue => addScrapedIssue env mem store req issue) state).2 := by
  induction issues generalizing state with
  | nil => exact .refl state.2
  | cons issue issues ih =>
    exact (addIssueDetails_sameButIssues env.store state.1 state.2 _ _).trans (ih _)

theorem next_addResponseFingerprintToRequest (mem : Heap Request) (store : DataStore)
    (requestId : Int) (fingerprint : HtmlFingerprint) :
    (store.addResponseFingerprintToRequest mem requestId fingerprint).2.next = mem.next := by
  unfold addResponseFingerprintToRequest
  cases store.getRequestById requestId with
  | none => rfl
  | some req => exact Heap.next_modify _ _ _

theorem deref_addResponseFingerprintToRequest (mem : Heap Request) (store : DataStore)
    (requestId : Int) (fingerprint : HtmlFingerprint) (p : Nat) :
    (deref (store.addResponseFingerprintToRequest mem requestId fingerprint).2 p).proto =
      (deref mem p).proto := by
  unfold addResponseFingerprintToRequest
  cases store.getRequestById requestId with
  | none => rfl
  | some req => exact deref_modify_keeps (·.proto) mem req p fun _ => rfl

/-- Where no links are extracted, a page changes the requests, pivots or queues exactly if the
    datastore does not ignore its forms. -/
theorem addScraped_sameSites_iff (mem : Heap Request) (req : Nat) (scraped : Scraped)
    (storeFingerprint : Bool) :
    SameSites store (addScraped env mem store req scraped false storeFingerprint).2 ↔
      ignoresAll env.store store mem scraped.requests = true := by
  have hfingerprint : ∃ mem', mem'.next = mem.next ∧
      (∀ p, (deref mem' p).proto = (deref mem p).proto) ∧
      (if storeFingerprint then
        (store.addResponseFingerprintToRequest mem (deref mem req).id scraped.fingerprint).2
      else mem) = mem' := by
    refine ⟨_, ?_, fun p => ?_, rfl⟩
    · cases storeFingerprint with
      | true => exact next_addResponseFingerprintToRequest _ _ _ _
      | false => rfl
    · cases storeFingerprint with
      | true => exact deref_addResponseFingerprintToRequest _ _ _ _ _
      | false => rfl
  obtain ⟨mem', hnext, hproto, heq⟩ := hfingerprint
  unfold addScraped
  simp only [heq, Bool.false_eq_true, if_false]
  rw [← ignoresAll_congr hnext hproto, ← addNewRequests_sameSites_iff]
  exact (addScrapedIssues_sameButIssues _ req scraped.issues).sameSites_iff

theorem scrapeRequest_sameSites_iff (mem : Heap Request) (req : Nat) {extractLinks : Bool}
    (storeFingerprint : Bool) (hlinks : (env.extractLinks && extractLinks) = false) :
    SameSites store (scrapeRequest env mem store req extractLinks storeFingerprint).2.2 ↔
      ignoresForms env mem store req = true := by
  unfold scrapeRequest ignoresForms scrapedPage
  rw [hlinks]
  cases hresponse : (deref mem req).response with
  | none => exact iff_of_true (.refl store) rfl
  | some response =>
    simp only [Option.bind_some, Bool.false_eq_true, if_false]
    split
    · cases env.scrapeHtml req (deref mem req) response.body with
      | none => exact iff_of_true (.refl store) rfl
      | some scraped => exact addScraped_sameSites_iff mem req scraped storeFingerprint
    · exact iff_of_true (.refl store) rfl

end

/-- With link extraction off, scraping changes no request, pivot or queue exactly if the page
    has no form whose request the datastore does not ignore. -/
theorem scrape_sameSites_iff (env : ScanEnv) (mem : Heap Request) (store : DataStore) (req : Nat) :
    (SameSites store (scrape env mem store req).2.2 ↔ ignoresForms env mem store req = true) ∧
    (env.extractLinks = false →
      (SameSites store (scrapeWithLinks env mem store req).2.2 ↔
        ignoresForms env mem store req = true)) := by
  refine ⟨scrapeRequest_sameSites_iff mem req false (Bool.and_false _), fun hlinks => ?_⟩
  exact scrapeRequest_sameSites_iff mem req true (by rw [hlinks, Bool.false_and])

/-- An environment in which links are not extracted and every HTML page has one form. -/
def loginEnv : ScanEnv where
  store := .literal
  request := .single (ascii "site")
  maxAuditorRunners := 10
  extractLinks := false
  discardBinaryResponses := true
  hasAuditors := true
  hasObjectsFinder := false
  accepts := fun _ => true
  scrapeHtml := fun p page _ =>
    some { requests := [Request.ofUrl (.single (ascii "site")) (ascii "login") (some (p, page))] }
  parseFingerprint := fun _ => none

/-- A page of the site that was fetched. -/
def fetchedPage : Heap Request :=
  ⟨[{ shopRequest with response := some { proto := { mimeTypeField := some .ascHtml } } }]⟩

/-- A datastore whose scope is the hosts in the list, with no requests yet. -/
def scopeOf (allowedHosts : List Bytes) : DataStore := { allowedHosts }

/-- The form of a page outside the scope is ignored. -/
theorem scrape_sameSites_iff_loginEnv :
    ignoresForms loginEnv fetchedPage (scopeOf []) 0 = true ∧
      (SameSites (scopeOf []) (scrapeWithLinks loginEnv fetchedPage (scopeOf []) 0).2.2 ↔
        ignoresForms loginEnv fetchedPage (scopeOf []) 0 = true) :=
  ⟨by decide, (scrape_sameSites_iff loginEnv fetchedPage (scopeOf []) 0).2 rfl⟩

/-- The form of a page in the scope is stored and queued, with link extraction off. -/
theorem loginForm_added : loginEnv.extractLinks = false ∧
    ¬ SameSites (scopeOf [ascii "site"])
      (scrape loginEnv fetchedPage (scopeOf [ascii "site"]) 0).2.2 ∧
    ¬ SameSites (scopeOf [ascii "site"])
      (scrapeWithLinks loginEnv fetchedPage (scopeOf [ascii "site"]) 0).2.2 := by
  refine ⟨rfl, fun hsame => ?_, fun hsame => ?_⟩
  · exact absurd hsame.probeQueue (by decide)
  · exact absurd hsame.probeQueue (by decide)

end Crawler

end plusfish

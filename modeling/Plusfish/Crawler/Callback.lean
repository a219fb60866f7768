import Plusfish.Crawler.Scrape

open memory Relation

namespace plusfish

/-- The fingerprint of a response is not a part of what is parsed. -/
theorem Response.parse_htmlFingerprint {self parsed : Response} {text : Bytes} {accepted : Bool}
    (h : self.parse text = some (accepted, parsed)) :
    parsed.htmlFingerprint = self.htmlFingerprint := by
  unfold Response.parse at h
  split at h
  · cases h
    rfl
  · dsimp only at h
    split at h
    · cases h
    · cases h
      rfl
    · cases h
      rfl

/-- What a request gets from `DoneCb` with its response. -/
theorem Request.doneCb_response {self done : Request} (h : self.doneCb = some (true, done)) :
    ∃ response, done.response = some response ∧ response.htmlFingerprint = none := by
  unfold Request.doneCb at h
  split at h
  · cases h
  · split at h
    · cases h
    · cases h
    · rename_i response hparse
      cases h
      exact ⟨response, rfl, Response.parse_htmlFingerprint hparse⟩

theorem DataStore.SamePlans.isFileNotFound {store store' : DataStore} (h : SamePlans store store')
    (fingerprint : Option HtmlFingerprint) : store'.isFileNotFoundHtmlFingerprint fingerprint =
      store.isFileNotFoundHtmlFingerprint fingerprint := by
  unfold isFileNotFoundHtmlFingerprint
  rw [h.notFoundFingerprints]

namespace Crawler

open DataStore

/-- The things that `Crawler::RequestCallback` does with a page. -/
inductive CallbackAction where
  | passiveCheck
  | addToAuditQueue
  | scrapeWithLinks
  | truncateResponseBody
deriving DecidableEq

section
variable (env : ScanEnv)

/-- What the callback does with the page of a request, in this order. -/
def callbackActions (mem : Heap Request) (store : DataStore) (req : Nat) : List CallbackAction :=
  match (deref mem req).response with
  | none => []
  | some response =>
    if isCrawlerLoop mem store (deref mem req) response then []
    else
      (if env.hasAuditors then [.passiveCheck] else []) ++
      (if !skipsTesting store response && env.hasAuditors then [.addToAuditQueue] else []) ++
      [.scrapeWithLinks] ++
      (if env.discardBinaryResponses && binaryMimeTypes.contains response.mimeType then
        [.truncateResponseBody] else [])

def perform (passiveAuditor : PassiveAuditor) (req : Nat) (state : Heap Request × DataStore) :
    CallbackAction → Heap Request × DataStore
  | .passiveCheck => passiveAuditor.check env state.1 state.2 req
  | .addToAuditQueue => (state.1, state.2.addRequestToAuditQueue req)
  | .scrapeWithLinks => (Crawler.scrapeWithLinks env state.1 state.2 req).2
  | .truncateResponseBody => (state.1.modify req (·.truncateResponseBody), state.2)

end

variable {env : ScanEnv} {mem : Heap Request} {store : DataStore} {req : Nat}

/-- The callback is its actions, one after the other: what the passive check does has no
    influence on the others. -/
theorem requestCallback_eq_perform (passiveAuditor : PassiveAuditor) :
    requestCallback env passiveAuditor mem store req =
      (callbackActions env mem store req).foldl (perform env passiveAuditor req) (mem, store) := by
  have hcheck : SamePlans store (passiveAuditor.check env mem store req).2 :=
    (PassiveAuditor.check_pageEffects env (fun _ => False) passiveAuditor mem store req).samePlans
  unfold requestCallback callbackActions
  cases (deref mem req).response with
  | none => rfl
  | some response =>
    have hskips : skipsTesting (passiveAuditor.check env mem store req).2 response =
        skipsTesting store response := by
      simp only [skipsTesting, hcheck.isFileNotFound]
    dsimp only
    split
    · rfl
    · cases env.hasAuditors <;> cases htests : skipsTesting store response <;> split <;>
        simp_all [perform]

theorem perform_auditQueue (passiveAuditor : PassiveAuditor) (state : Heap Request × DataStore)
    (action : CallbackAction) : (perform env passiveAuditor req state action).2.auditQueue =
      state.2.auditQueue ++ if action = .addToAuditQueue then [req] else [] := by
  cases action with
  | passiveCheck =>
    have hcheck := PassiveAuditor.check_pageEffects env (fun _ => False) passiveAuditor state.1
      state.2 req
    simpa [perform] using hcheck.samePlans.auditQueue
  | addToAuditQueue => rfl
  | scrapeWithLinks =>
    have hscrape := scrapeRequest_pageEffects env state.1 state.2 req true true
    simpa [perform, Crawler.scrapeWithLinks] using hscrape.samePlans.auditQueue
  | truncateResponseBody => simp [perform]

/-- The callback adds its request to the audit queue where that is one of its actions. -/
theorem requestCallback_auditQueue (passiveAuditor : PassiveAuditor) :
    (requestCallback env passiveAuditor mem store req).2.auditQueue = store.auditQueue ++
      (callbackActions env mem store req).flatMap fun action =>
        if action = .addToAuditQueue then [req] else [] := by
  rw [requestCallback_eq_perform]
  generalize callbackActions env mem store req = actions
  suffices h : ∀ state : Heap Request × DataStore,
      (actions.foldl (perform env passiveAuditor req) state).2.auditQueue =
        state.2.auditQueue ++ actions.flatMap fun action =>
          if action = .addToAuditQueue then [req] else [] from h (mem, store)
  induction actions with
  | nil => simp
  | cons action actions ih =>
    intro state
    rw [List.foldl_cons, ih, perform_auditQueue, List.flatMap_cons, List.append_assoc]

theorem requestCallback_untested_iff (passiveAuditor : PassiveAuditor) :
    (requestCallback env passiveAuditor mem store req).2.auditQueue = store.auditQueue ↔
      .addToAuditQueue ∉ callbackActions env mem store req := by
  rw [requestCallback_auditQueue, List.append_right_eq_self, List.flatMap_eq_nil_iff]
  constructor
  · intro hnone hmem
    simpa using hnone _ hmem
  · intro hnot action hmem
    have hne : action ≠ .addToAuditQueue := by
      rintro rfl
      exact hnot hmem
    rw [if_neg hne]

/-- Whether the fingerprint that the scraper computes from a page is that of a page for missing
    files. -/
def isNotFoundPage (env : ScanEnv) (mem : Heap Request) (store : DataStore) (req : Nat) : Bool :=
  (scrapedPage env mem req).any fun scraped =>
    store.isFileNotFoundHtmlFingerprint (some scraped.fingerprint)

/-- Whether a page is not tested whatever its fingerprint is: there is nothing to test it with,
    it closes a crawler loop, or it has one of the codes that are not tested. -/
def UntestedAnyway (env : ScanEnv) (mem : Heap Request) (store : DataStore) (req : Nat) : Prop :=
  env.hasAuditors = false ∨ ∃ response, (deref mem req).response = some response ∧
    (isCrawlerLoop mem store (deref mem req) response = true ∨
      noTestingResponseCodes.contains response.proto.code = true)

/-- A page that was just parsed has no fingerprint yet, so that only its code is looked at. -/
theorem addToAuditQueue_mem_iff {response : Response}
    (hresponse : (deref mem req).response = some response)
    (hfresh : response.htmlFingerprint = none) :
    .addToAuditQueue ∉ callbackActions env mem store req ↔ UntestedAnyway env mem store req := by
  have hskips : skipsTesting store response =
      noTestingResponseCodes.contains response.proto.code := by
    simp [skipsTesting, hfresh, isFileNotFoundHtmlFingerprint]
  unfold callbackActions UntestedAnyway
  simp only [hresponse, Option.some.injEq, exists_eq_left', hskips]
  cases isCrawlerLoop mem store (deref mem req) response <;> cases env.hasAuditors <;>
    cases noTestingResponseCodes.contains response.proto.code <;> simp

/-- A request that `DoneCb` hands over with its page just parsed: a page for missing files is
    kept out of the audit queue exactly if it is not tested anyway. -/
theorem doneCb_notFoundPage_untested_iff (env : ScanEnv) (passiveAuditor : PassiveAuditor)
    (store : DataStore) {mem : Heap Request} {req : Nat} {done : Request} (hreq : req < mem.next)
    (hdone : (deref mem req).doneCb = some (true, done)) :
    (isNotFoundPage env (mem.modify req fun _ => done) store req = true →
      (requestCallback env passiveAuditor (mem.modify req fun _ => done) store req).2.auditQueue =
        store.auditQueue) ↔
    (isNotFoundPage env (mem.modify req fun _ => done) store req = true →
      UntestedAnyway env (mem.modify req fun _ => done) store req) := by
  obtain ⟨response, hresponse, hfresh⟩ := Request.doneCb_response hdone
  have hderef : deref (mem.modify req fun _ => done) req = done := by
    obtain ⟨request, hget⟩ := Heap.get?_of_lt_next hreq
    simp [deref, Heap.get?_modify, hget]
  rw [requestCallback_untested_iff,
    addToAuditQueue_mem_iff (by rw [hderef, hresponse]) hfresh]

/-- A request of the site whose response has just arrived. -/
def arrivedPage : Heap Request :=
  ⟨[{ shopRequest with
      rawResponse := ascii "HTTP/1.1 200 OK\r\nContent-type: text/html\r\n\r\n<html>" }]⟩

/-- A datastore in which the fingerprint of every page of `loginEnv` is that of a page for
    missing files. -/
def notFoundKnown : DataStore := (scopeOf []).addFileNotFoundHtmlFingerprint {}

theorem arrivedPage_doneCb : ∃ done, (deref arrivedPage 0).doneCb = some (true, done) ∧
    isNotFoundPage loginEnv (arrivedPage.modify 0 fun _ => done) notFoundKnown 0 = true := by
  have hdone : ((deref arrivedPage 0).doneCb.map fun result => (result.1,
      isNotFoundPage loginEnv (arrivedPage.modify 0 fun _ => result.2) notFoundKnown 0)) =
        some (true, true) := by decide +kernel
  obtain ⟨⟨accepted, done⟩, heq, hpage⟩ := Option.map_eq_some_iff.mp hdone
  obtain ⟨rfl, hnotFound⟩ := Prod.ext_iff.mp hpage
  exact ⟨done, heq, hnotFound⟩

theorem doneCb_notFoundPage_untested_iff_arrivedPage :
    ∃ done, (deref arrivedPage 0).doneCb = some (true, done) ∧
      ((isNotFoundPage loginEnv (arrivedPage.modify 0 fun _ => done) notFoundKnown 0 = true →
        (requestCallback loginEnv {} (arrivedPage.modify 0 fun _ => done) notFoundKnown
          0).2.auditQueue = notFoundKnown.auditQueue) ↔
      (isNotFoundPage loginEnv (arrivedPage.modify 0 fun _ => done) notFoundKnown 0 = true →
        UntestedAnyway loginEnv (arrivedPage.modify 0 fun _ => done) notFoundKnown 0)) := by
  obtain ⟨done, hdone, _⟩ := arrivedPage_doneCb
  exact ⟨done, hdone, doneCb_notFoundPage_untested_iff loginEnv {} notFoundKnown (by decide) hdone⟩

/-- A page for missing files is queued for the audit although its fingerprint is registered. -/
theorem notFoundPage_queued : ∃ done, (deref arrivedPage 0).doneCb = some (true, done) ∧
    isNotFoundPage loginEnv (arrivedPage.modify 0 fun _ => done) notFoundKnown 0 = true ∧
    (requestCallback loginEnv {} (arrivedPage.modify 0 fun _ => done) notFoundKnown
      0).2.auditQueue ≠ notFoundKnown.auditQueue := by
  have hqueued : ((deref arrivedPage 0).doneCb.map fun result => (result.1,
      isNotFoundPage loginEnv (arrivedPage.modify 0 fun _ => result.2) notFoundKnown 0,
      (requestCallback loginEnv {} (arrivedPage.modify 0 fun _ => result.2) notFoundKnown
        0).2.auditQueue)) = some (true, true, [0]) := by decide +kernel
  obtain ⟨⟨accepted, done⟩, heq, hpage⟩ := Option.map_eq_some_iff.mp hqueued
  obtain ⟨rfl, hnotFound⟩ := Prod.ext_iff.mp hpage
  obtain ⟨hnotFound, hqueue⟩ := Prod.ext_iff.mp hnotFound
  refine ⟨done, heq, hnotFound, ?_⟩
  dsimp only at hqueue
  rw [hqueue]
  decide

end Crawler

end plusfish

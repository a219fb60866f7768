import Plusfish.Crawler.Links
import Plusfish.MainLoop.Pipeline

open memory Relation transition

namespace plusfish

namespace Crawler

section
variable {env : ScanEnv} {start before after state : Heap Request × DataStore} {order : List Nat}

/-- What is covered when a page has been looked at for a while is covered in the end. -/
theorem covers_of_effects (hstart : start.2.Recorded env.store env.Makes start.1 order)
    (hbefore : PageEffects env.store env.Makes start before)
    (hafter : PageEffects env.store env.Makes before after) {request : Request}
    (hcovers : before.2.Covers env.store before.1 request) :
    after.2.Covers env.store after.1 request := by
  have hgrown := DataStore.Grows.records (hbefore.records fun _ => id)
  obtain ⟨_, _, haccepts⟩ := hgrown.accepts order hstart
  have hgrows := DataStore.Grows.records (hafter.records fun _ => id)
  exact hgrows.remembers.covers haccepts.recorded.allocated_siteMap hcovers

/-- A request that was in scope at the start is covered once it has been given to the datastore. -/
theorem addNewRequest_covers (hstart : start.2.Recorded env.store env.Makes start.1 order)
    (hstate : PageEffects env.store env.Makes start state) {request : Request}
    (hscope : start.2.inScope env.store request = true) :
    (addNewRequest env state.1 state.2 request).2.Covers env.store
      (addNewRequest env state.1 state.2 request).1 request := by
  have hgrown := DataStore.Grows.records (hstate.records fun _ => id)
  obtain ⟨_, _, haccepts⟩ := hgrown.accepts order hstart
  have hderef : deref (state.1.alloc request).2 state.1.next = request := by simp [deref]
  have hscope' : state.2.inScope env.store (deref (state.1.alloc request).2 state.1.next) =
      true := by
    rw [hderef]
    exact hgrown.remembers.inScope request hscope
  have hallocated (place : Bytes × List Bytes) (sample : Nat)
      (hmem : sample ∈ state.2.siteMap place) : sample < (state.1.alloc request).2.next := by
    have hlt := haccepts.recorded.allocated_siteMap place sample hmem
    rw [Heap.next_alloc]
    omega
  have hcovers := DataStore.addRequest_covers hscope' (by simp) hallocated
  rw [hderef] at hcovers
  exact hcovers

/-- A loop over the links of a page covers those that were in scope at its start. -/
theorem foldl_covers {α : Type} {l : List α}
    {f : Heap Request × DataStore → α → Heap Request × DataStore} {link : α → Request}
    (hstart : start.2.Recorded env.store env.Makes start.1 order)
    (heffects : ∀ state, ∀ a ∈ l, PageEffects env.store env.Makes state (f state a))
    (hcovers : ∀ state, PageEffects env.store env.Makes start state → ∀ a ∈ l,
      start.2.inScope env.store (link a) = true →
        (f state a).2.Covers env.store (f state a).1 (link a))
    (hstate : PageEffects env.store env.Makes start state) :
    ∀ a ∈ l, start.2.inScope env.store (link a) = true →
      (l.foldl f state).2.Covers env.store (l.foldl f state).1 (link a) := by
  induction l generalizing state with
  | nil => exact List.forall_mem_nil _
  | cons first rest ih =>
    have hfirst := hstate.trans (heffects state first List.mem_cons_self)
    have hrest (state : Heap Request × DataStore) (a : α) (ha : a ∈ rest) :=
      heffects state a (List.mem_cons_of_mem _ ha)
    refine List.forall_mem_cons.mpr ⟨fun hscope => ?_, ?_⟩
    · have hcovered := hcovers state hstate first List.mem_cons_self hscope
      exact covers_of_effects hstart hfirst (.foldl rest hrest _) hcovered
    · exact ih hrest (fun state hstate a ha => hcovers state hstate a (List.mem_cons_of_mem _ ha))
        hfirst

end

variable {env : ScanEnv} {mem : Heap Request} {store : DataStore} {order : List Nat} {req : Nat}

theorem maybeAddUrl_covers {state : Heap Request × DataStore} (hreq : req < mem.next)
    (hstart : store.Recorded env.store env.Makes mem order)
    (hstate : PageEffects env.store env.Makes (mem, store) state) {url : Bytes}
    (hscope : store.inScope env.store (linkRequest env req (deref mem req) url) = true) :
    (maybeAddUrl env state.1 state.2 req url).2.Covers env.store
      (maybeAddUrl env state.1 state.2 req url).1 (linkRequest env req (deref mem req) url) := by
  have hsame : linkRequest env req (deref state.1 req) url =
      linkRequest env req (deref mem req) url :=
    linkRequest_congr (Frame.deref hstate.content hreq) url
  have hcovers := addNewRequest_covers hstart hstate hscope
  rw [← hsame] at hcovers ⊢
  exact hcovers

/-- What is found on a page is covered: first the anchors, then the forms. -/
theorem addScraped_covers (hstart : store.Recorded env.store env.Makes mem order)
    (hreq : req < mem.next) {scraped : Scraped}
    (hforms : ∀ request ∈ scraped.requests, env.Makes request) :
    ∀ request ∈ scrapedLinks env req (deref mem req) scraped,
      store.inScope env.store request = true →
        (addScraped env mem store req scraped env.extractLinks true).2.Covers env.store
          (addScraped env mem store req scraped env.extractLinks true).1 request := by
  have hlink (url : Bytes) (ref : Request) :
      env.Makes (Request.ofUrl env.request url (some (req, ref))) := Or.inl ⟨url, _, rfl⟩
  let noted := (store.addResponseFingerprintToRequest mem (deref mem req).id scraped.fingerprint).2
  let linked := if env.extractLinks then
      scraped.anchors.foldl (fun state anchor => maybeAddUrl env state.1 state.2 req anchor)
        (noted, store)
    else (noted, store)
  let formed := scraped.requests.foldl
    (fun state request => addNewRequest env state.1 state.2 request) linked
  have heq : addScraped env mem store req scraped env.extractLinks true =
      scraped.issues.foldl (fun state issue => addScrapedIssue env state.1 state.2 req issue)
        formed := rfl
  have hnoted : PageEffects env.store env.Makes (mem, store) (noted, store) :=
    .single (.fingerprint mem store _ _)
  have hadded (state : Heap Request × DataStore) (anchor : Bytes) :
      PageEffects env.store env.Makes state (maybeAddUrl env state.1 state.2 req anchor) :=
    .single (.add state.1 state.2 _ (hlink _ _))
  have hgiven (state : Heap Request × DataStore) (request : Request)
      (hmem : request ∈ scraped.requests) :
      PageEffects env.store env.Makes state (addNewRequest env state.1 state.2 request) :=
    .single (.add state.1 state.2 _ (hforms request hmem))
  have hlinked : PageEffects env.store env.Makes (noted, store) linked := by
    dsimp only [linked]
    split
    · exact .foldl _ (fun state anchor _ => hadded state anchor) _
    · exact .refl
  have hformed : PageEffects env.store env.Makes linked formed := .foldl _ hgiven _
  have hissued : PageEffects env.store env.Makes formed
      (scraped.issues.foldl (fun state issue => addScrapedIssue env state.1 state.2 req issue)
        formed) := .foldl _ (fun state issue _ => .single (.issue state.1 state.2 _ _)) _
  have hbefore := (hnoted.trans hlinked).trans hformed
  intro request hmem hscope
  rw [heq]
  rcases List.mem_append.mp hmem with hanchor | hform
  · refine covers_of_effects hstart (hnoted.trans hlinked) (hformed.trans hissued) ?_
    by_cases hextract : env.extractLinks = true
    · rw [if_pos hextract] at hanchor
      obtain ⟨url, hurl, rfl⟩ := List.mem_map.mp hanchor
      dsimp only [linked]
      rw [if_pos hextract]
      exact foldl_covers hstart (fun state anchor _ => hadded state anchor)
        (fun state hstate anchor _ hscope => maybeAddUrl_covers hreq hstart hstate hscope) hnoted
        url hurl hscope
    · rw [if_neg hextract] at hanchor
      cases hanchor
  · refine covers_of_effects hstart hbefore hissued ?_
    exact foldl_covers hstart hgiven
      (fun state hstate request _ hscope => addNewRequest_covers hstart hstate hscope)
      (hnoted.trans hlinked) request hform hscope

/-- Scraping covers the links of a page that are in scope. -/
theorem scrapeWithLinks_covers (hstart : store.Recorded env.store env.Makes mem order)
    (hreq : req < mem.next) : ∀ request ∈ links env req (deref mem req),
      store.inScope env.store request = true →
        (scrapeWithLinks env mem store req).2.2.Covers env.store
          (scrapeWithLinks env mem store req).2.1 request := by
  have hlink (url : Bytes) (ref : Request) :
      env.Makes (Request.ofUrl env.request url (some (req, ref))) := Or.inl ⟨url, _, rfl⟩
  -- The redirection comes last, whatever was found on the page.
  have hlocation (state : Heap Request × DataStore)
      (hstate : PageEffects env.store env.Makes (mem, store) state) :
      ∀ request ∈ locationLinks env req (deref mem req), store.inScope env.store request = true →
        (if env.extractLinks then addLocation env state.1 state.2 req else state).2.Covers env.store
          (if env.extractLinks then addLocation env state.1 state.2 req else state).1 request := by
    have hsame := (Frame.deref hstate.content hreq).response
    have hheader : (deref state.1 req).response.bind (·.getHeader HTTPHeaders.kLocation) =
        (deref mem req).response.bind (·.getHeader HTTPHeaders.kLocation) := by
      cases hpage : (deref mem req).response <;> cases hpage' : (deref state.1 req).response <;>
        simp_all [Response.getHeader]
    intro request hmem hscope
    unfold locationLinks at hmem
    split at hmem
    · rename_i hextract
      rw [if_pos hextract, addLocation, hheader]
      obtain ⟨url, hurl, rfl⟩ := List.mem_map.mp hmem
      rw [Option.mem_toList.mp hurl]
      exact maybeAddUrl_covers hreq hstart hstate hscope
    · cases hmem
  unfold scrapeWithLinks scrapeRequest links
  rw [Bool.and_true]
  cases hresponse : (deref mem req).response with
  | none => exact List.forall_mem_nil _
  | some response =>
    dsimp only
    by_cases hmime : scrapeMimeType response = .ascHtml ∨ scrapeMimeType response = .xmlXhtml
    · rw [if_pos hmime, if_pos hmime]
      cases hscraped : env.scrapeHtml req (deref mem req) response.body with
      | none => exact List.forall_mem_nil _
      | some scraped =>
        have hforms (request : Request) (hmem : request ∈ scraped.requests) : env.Makes request :=
          Or.inr (Or.inr ⟨_, _, _, scraped, hscraped, hmem⟩)
        have heffects : PageEffects env.store env.Makes (mem, store)
            (addScraped env mem store req scraped env.extractLinks true) :=
          addScraped_effects hlink hforms mem store _ _
        intro request hmem hscope
        dsimp only
        rcases List.mem_append.mp hmem with hfound | hredirected
        · have hcovered := addScraped_covers hstart hreq hforms request hfound hscope
          refine covers_of_effects hstart heffects ?_ hcovered
          split
          · exact addLocation_effects hlink _
          · exact .refl
        · exact hlocation _ heffects request hredirected hscope
    · rw [if_neg hmime, if_neg hmime]
      exact hlocation (mem, store) .refl

/-- The passive check and the queue for the audit leave the page as it is. -/
theorem foldl_perform_content (passiveAuditor : PassiveAuditor) (state : Heap Request × DataStore)
    {actions : List CallbackAction}
    (hactions : ∀ action ∈ actions, action = .passiveCheck ∨ action = .addToAuditQueue) :
    Heap.Frame Request.SameContent state.1
      (actions.foldl (perform env passiveAuditor req) state).1 := by
  induction actions generalizing state with
  | nil => exact .refl Request.SameContent.refl _
  | cons action actions ih =>
    obtain ⟨hfirst, hrest⟩ := List.forall_mem_cons.mp hactions
    refine Heap.Frame.trans Request.SameContent.trans ?_ (ih _ hrest)
    rcases hfirst with rfl | rfl
    · exact (PassiveAuditor.check_pageEffects env (fun _ => False) passiveAuditor state.1 state.2
        req).content
    · exact .refl Request.SameContent.refl _

/-- A page that is not dropped as a loop has its links covered once the crawler is done with it. -/
theorem requestCallback_covers {scraper : HtmlScraper} (passiveAuditor : PassiveAuditor)
    (hstart : store.Recorded env.store (env.withScraper scraper).Makes mem order)
    (hreq : req < mem.next) (hlooped : ∀ response, (deref mem req).response = some response →
      isCrawlerLoop mem store (deref mem req) response = false) :
    ∀ request ∈ links (env.withScraper scraper) req (deref mem req),
      store.inScope env.store request = true →
        (requestCallback (env.withScraper scraper) passiveAuditor mem store req).2.Covers env.store
          (requestCallback (env.withScraper scraper) passiveAuditor mem store req).1 request := by
  intro request hmem hscope
  cases hresponse : (deref mem req).response with
  | none =>
    rw [links, hresponse] at hmem
    cases hmem
  | some response =>
    let before : List CallbackAction := (if env.hasAuditors then [.passiveCheck] else []) ++
      (if !skipsTesting store response && env.hasAuditors then [.addToAuditQueue] else [])
    let later : List CallbackAction :=
      if env.discardBinaryResponses && binaryMimeTypes.contains response.mimeType then
        [.truncateResponseBody] else []
    have hactions : callbackActions (env.withScraper scraper) mem store req =
        before ++ .scrapeWithLinks :: later := by
      unfold callbackActions
      rw [hresponse]
      dsimp only
      rw [hlooped response hresponse, if_neg (by simp), List.append_assoc _ [_],
        List.singleton_append]
      rfl
    rw [requestCallback_eq_perform, hactions, List.foldl_append, List.foldl_cons]
    let checked := before.foldl (perform (env.withScraper scraper) passiveAuditor req) (mem, store)
    have hbefore : ∀ action ∈ before, action = .passiveCheck ∨ action = .addToAuditQueue := by
      intro action haction
      rcases List.mem_append.mp haction with hin | hin
      · split at hin
        · exact Or.inl (List.mem_singleton.mp hin)
        · cases hin
      · split at hin
        · exact Or.inr (List.mem_singleton.mp hin)
        · cases hin
    have hcontent : Heap.Frame Request.SameContent mem checked.1 :=
      foldl_perform_content passiveAuditor (mem, store) hbefore
    have hgrown := DataStore.Grows.records
      (foldl_perform_records (env.withScraper scraper) passiveAuditor (mem, store) req before)
    obtain ⟨_, _, haccepts⟩ := hgrown.accepts order hstart
    have hlinks : links (env.withScraper scraper) req (deref checked.1 req) =
        links (env.withScraper scraper) req (deref mem req) :=
      links_congr scraper (Frame.deref hcontent hreq)
    rw [← hlinks] at hmem
    have hcovered := scrapeWithLinks_covers haccepts.recorded
      (Nat.lt_of_lt_of_le hreq hcontent.next_le) request hmem (hgrown.remembers.inScope _ hscope)
    have hscraped := DataStore.Grows.records
      (perform_records (env.withScraper scraper) passiveAuditor checked req .scrapeWithLinks)
    obtain ⟨_, _, hrecorded⟩ := hscraped.accepts _ haccepts.recorded
    have hlater := DataStore.Grows.records (foldl_perform_records (env.withScraper scraper)
      passiveAuditor (perform (env.withScraper scraper) passiveAuditor req checked .scrapeWithLinks)
        req later)
    exact hlater.remembers.covers hrecorded.recorded.allocated_siteMap hcovered

end Crawler

namespace MainLoop

open Crawler

variable {env : ScanEnv} {config : ScanConfig} {ops ops' : List ScanOp} {loop last : MainLoop}
  {scraper : HtmlScraper} {req : Nat} {transfer : Transfer}

/-- In every run, when the crawler is called back for a page that it does not take for a loop, the
    links of the page that are in scope are covered from then on: a request that can stand for the
    link is stored at its place, or there is no room left at the place. -/
theorem linksCovered_of_run
    (hreach : run (step (env.withScraper scraper)) (start (env.withScraper scraper) config) ops =
      some loop)
    (hrun : run (step (env.withScraper scraper)) loop (.requestCallback req transfer :: ops') =
      some last)
    (hcrawler : (deref loop.scan.mem req).requestHandler = some .crawler)
    (hlooped : isCrawlerLoop (loop.scan.receive req transfer).mem loop.scan.store
      (deref (loop.scan.receive req transfer).mem req) transfer.response = false) :
    ∀ link ∈ links (env.withScraper scraper) req (deref (loop.scan.receive req transfer).mem req),
      loop.scan.store.inScope env.store link = true →
        last.scan.store.Covers env.store last.scan.mem link := by
  intro link hlink hscope
  obtain ⟨next, hstep, hrest⟩ := run_cons_eq_some.mp hrun
  obtain ⟨_, _, hpipelined⟩ :=
    run_pipelined (Scan.configured_pipelined (env.withScraper scraper) config) hreach
  obtain ⟨order, hline⟩ := hpipelined.moves (Scan.receive_moves _ loop.scan req transfer)
  obtain ⟨_, _, hnext⟩ := step_pipelined hpipelined hstep
  obtain ⟨_, _, _, hlater⟩ := run_pipelined hnext.remember hrest
  obtain ⟨order', hline'⟩ := hnext
  refine hlater.since.remembers.covers hline'.records.allocated_siteMap ?_
  obtain ⟨request, hget⟩ : ∃ request, loop.scan.mem.get? req = some request := by
    cases hget : loop.scan.mem.get? req with
    | none => simp [deref, hget] at hcrawler
    | some request => exact ⟨request, rfl⟩
  have hpage : deref (loop.scan.receive req transfer).mem req = request.withTransfer transfer := by
    simp [Scan.receive, deref, Heap.get?_modify, hget]
  have hresponse : (request.withTransfer transfer).response = some transfer.response := rfl
  have hhandler : (request.withTransfer transfer).requestHandler = some .crawler := by
    rw [deref_of_get? hget] at hcrawler
    rw [← hcrawler, Request.withTransfer]
    dsimp only
    split <;> split <;> rfl
  have hreq : req < (loop.scan.receive req transfer).mem.next := by
    simpa [Scan.receive] using Heap.lt_next_of_get? hget
  unfold step at hstep
  split at hstep
  · cases hstep
  · obtain ⟨scan, hcallback, rfl⟩ := Option.map_eq_some_iff.mp hstep
    unfold Scan.requestCallback at hcallback
    split at hcallback
    · cases hcallback
    · dsimp only at hcallback
      rw [hpage, hhandler] at hcallback
      cases hcallback
      refine requestCallback_covers _ hline.records hreq (fun response heq => ?_) link hlink hscope
      rw [hpage, hresponse] at heq
      cases heq
      exact hlooped

/-- A scraper that finds one link twice on each page. -/
def twoAnchors : HtmlScraper :=
  { noScraper with
    gumboParse := fun _ => some .other
    anchors := fun _ => [ascii "http://site/b", ascii "http://site/b"] }

/-- The transfer of an HTML page. -/
def htmlTransfer : Transfer :=
  { response := { proto := { codeField := some .ok, mimeTypeField := some .ascHtml } } }

/-- A page of a site has two links, both of which are in scope. -/
theorem linksCovered_of_run_twoAnchors : ∃ loop last,
    run (step (siteEnv.withScraper twoAnchors)) (start (siteEnv.withScraper twoAnchors) {})
      [.addUrl (ascii "http://site/a"), .iterate fixedNumber true] = some loop ∧
    run (step (siteEnv.withScraper twoAnchors)) loop
      [.requestCallback 0 htmlTransfer, .iterate fixedNumber true] = some last ∧
    (links (siteEnv.withScraper twoAnchors) 0 (deref (loop.scan.receive 0 htmlTransfer).mem 0)).map
      (loop.scan.store.inScope siteEnv.store) = [true, true] ∧
    ∀ link ∈ links (siteEnv.withScraper twoAnchors) 0
      (deref (loop.scan.receive 0 htmlTransfer).mem 0),
        loop.scan.store.inScope siteEnv.store link = true →
          last.scan.store.Covers siteEnv.store last.scan.mem link := by
  have hends : ((run (step (siteEnv.withScraper twoAnchors))
      (start (siteEnv.withScraper twoAnchors) {})
      [.addUrl (ascii "http://site/a"), .iterate fixedNumber true]).bind fun loop =>
        (run (step (siteEnv.withScraper twoAnchors)) loop
          [.requestCallback 0 htmlTransfer, .iterate fixedNumber true]).map fun _ =>
            ((deref loop.scan.mem 0).requestHandler,
              isCrawlerLoop (loop.scan.receive 0 htmlTransfer).mem loop.scan.store
                (deref (loop.scan.receive 0 htmlTransfer).mem 0) htmlTransfer.response,
              (links (siteEnv.withScraper twoAnchors) 0
                (deref (loop.scan.receive 0 htmlTransfer).mem 0)).map
                  (loop.scan.store.inScope siteEnv.store))) =
      some (some .crawler, false, [true, true]) := by decide +kernel
  obtain ⟨loop, hreach, hrest⟩ := Option.bind_eq_some_iff.mp hends
  obtain ⟨last, hrun, hall⟩ := Option.map_eq_some_iff.mp hrest
  obtain ⟨hcrawler, hboth⟩ := Prod.ext_iff.mp hall
  obtain ⟨hlooped, hscope⟩ := Prod.ext_iff.mp hboth
  exact ⟨loop, last, hreach, hrun, hscope, linksCovered_of_run hreach hrun hcrawler hlooped⟩

end MainLoop

end plusfish

import Plusfish.Library.Fifo
import Plusfish.MainLoop.Moves

open fifo memory ordered_map Relation transition

namespace plusfish

/-- The event is that a valid seed is added whose host is this one. -/
def ScanOp.Seeds (env : ScanEnv) (host : Bytes) : ScanOp → Prop
  | .addUrl url => (Request.ofUrl env.request url none).urlIsValid = true ∧
      host = (Request.ofUrl env.request url none).host
  | _ => False

/-- The number of iterations that an event makes. -/
def ScanOp.iterations : ScanOp → Nat
  | .iterate _ _ => 1
  | _ => 0

namespace Scan

/-- The datastore does not have the request. -/
structure Unaccepted (env : ScanEnv) (mem : Heap Request) (order : List Nat) (req : Nat) :
    Prop where
  allocated : req < mem.next
  notAccepted : req ∉ order
  noIssues : (∀ request, env.Makes request → request.issues = []) → (deref mem req).issues = []

theorem Unaccepted.of_frame {env : ScanEnv} {mem mem' : Heap Request} {order : List Nat} {req : Nat}
    (h : Unaccepted env mem order req) (hframe : Heap.Frame Request.SameAttached mem mem') :
    Unaccepted env mem' order req :=
  ⟨Nat.lt_of_lt_of_le h.allocated hframe.next_le, h.notAccepted,
    fun hall => Eq.trans (Frame.deref hframe h.allocated) (h.noIssues hall)⟩

/-- The requests that the crawler will hand over next. -/
def waiting (scan : Scan) : List Nat := scan.store.crawlQueue ++ scan.store.probeQueue

/-- The request does not exist yet, or the finder has it. -/
def Unseen (past : Scan) (req : Nat) : Prop :=
  past.mem.next ≤ req ∨ req ∈ past.objectsFinder.requests.map Prod.snd

/-- What there was in the past is still there, with the same filters, and the accepted requests
    that are new were not seen before. -/
structure Since (env : ScanEnv) (past scan : Scan) (order : List Nat) : Prop where
  grown : (past.crawled ++ past.waiting) <+: order
  remembers : DataStore.Remembers env.store (past.mem, past.store) (scan.mem, scan.store)
  urlWhitelistRegexes : scan.store.urlWhitelistRegexes = past.store.urlWhitelistRegexes
  urlBlacklistRegexes : scan.store.urlBlacklistRegexes = past.store.urlBlacklistRegexes
  unseen : ∀ req ∈ order, req ∈ past.crawled ++ past.waiting ∨ past.Unseen req
  tests : ∀ entry ∈ scan.objectsFinder.requests, past.Unseen entry.2

/-- The accepted requests are served in order: they pass the probe queue and then the crawl queue,
    and the crawler hands them over. Those of the finder are not among them yet, and have no
    issues. -/
structure InLine (env : ScanEnv) (hosts : List Bytes) (scan past : Scan)
    (inHand order : List Nat) : Prop where
  allowedHosts : scan.store.allowedHosts = hosts
  since : past.Since env scan order
  records : scan.store.Recorded env.store env.Makes scan.mem order
  served : Channel.InOrder (scan.crawled ++ scan.store.crawlQueue ++ inHand)
    ⟨order, scan.store.probeQueue⟩
  tests : ∀ entry ∈ scan.objectsFinder.requests, Unaccepted env scan.mem order entry.2
  distinct : (scan.objectsFinder.requests.map Prod.snd).Nodup

/-- Some requests may have been taken from the probe queue that are not yet in the crawl queue. -/
def Pipelined (env : ScanEnv) (hosts : List Bytes) (scan past : Scan) (inHand : List Nat) : Prop :=
  ∃ order, scan.InLine env hosts past inHand order

section
variable {env : ScanEnv} {caller : ScheduleCaller → Prop} {hosts : List Bytes}
  {inHand : List Nat} {past scan next : Scan}

theorem InLine.order_eq {order : List Nat} (h : scan.InLine env hosts past [] order) :
    order = scan.crawled ++ scan.waiting := by
  have hserved : order = _ := h.served
  rw [hserved, List.append_nil, List.append_assoc]
  rfl

theorem unseen_of_mem {entry : Bytes × Nat} (hmem : entry ∈ scan.objectsFinder.requests) :
    scan.Unseen entry.2 := Or.inr (List.mem_map_of_mem hmem)

namespace Since

variable {order added : List Nat}

/-- What was not seen lately was not seen before. -/
theorem unseen_of_unseen (h : past.Since env scan order) {req : Nat} (hunseen : scan.Unseen req) :
    past.Unseen req := by
  rcases hunseen with hle | hmem
  · exact Or.inl (Nat.le_trans h.remembers.asked.next_le hle)
  · obtain ⟨entry, hentry, rfl⟩ := List.mem_map.mp hmem
    exact h.tests entry hentry

theorem accept (h : past.Since env scan order)
    (hremembers : DataStore.Remembers env.store (scan.mem, scan.store) (next.mem, next.store))
    (hinclude : next.store.urlWhitelistRegexes = scan.store.urlWhitelistRegexes)
    (hexclude : next.store.urlBlacklistRegexes = scan.store.urlBlacklistRegexes)
    (hadded : ∀ req ∈ added, scan.Unseen req)
    (htests : ∀ entry ∈ next.objectsFinder.requests, scan.Unseen entry.2) :
    past.Since env next (order ++ added) := by
  refine ⟨h.grown.trans (List.prefix_append _ _), h.remembers.trans hremembers,
    hinclude.trans h.urlWhitelistRegexes, hexclude.trans h.urlBlacklistRegexes,
    List.forall_mem_append.mpr ⟨h.unseen, fun req hmem => ?_⟩, fun entry hmem => ?_⟩
  · exact Or.inr (h.unseen_of_unseen (hadded req hmem))
  · exact h.unseen_of_unseen (htests entry hmem)

theorem keep (h : past.Since env scan order)
    (hremembers : DataStore.Remembers env.store (scan.mem, scan.store) (next.mem, next.store))
    (hinclude : next.store.urlWhitelistRegexes = scan.store.urlWhitelistRegexes)
    (hexclude : next.store.urlBlacklistRegexes = scan.store.urlBlacklistRegexes)
    (htests : ∀ entry ∈ next.objectsFinder.requests, scan.Unseen entry.2) :
    past.Since env next order := by
  have hnone := h.accept hremembers hinclude hexclude (List.forall_mem_nil _) htests
  rwa [List.append_nil] at hnone

end Since

namespace Pipelined

/-- From here on, this state is the past. -/
theorem remember (h : scan.Pipelined env hosts past []) : scan.Pipelined env hosts scan [] := by
  obtain ⟨order, hline⟩ := h
  have horder := hline.order_eq
  refine ⟨order, { hline with since := ⟨horder ▸ List.prefix_refl _, .refl _, rfl, rfl, ?_, ?_⟩ }⟩
  · exact fun req hmem => Or.inl (horder ▸ hmem)
  · exact fun entry => unseen_of_mem

/-- New requests join at the end. -/
theorem of_grows (h : scan.Pipelined env hosts past inHand)
    (hgrows : DataStore.Grows env.store env.Makes (scan.mem, scan.store) (next.mem, next.store))
    (hcrawled : next.crawled = scan.crawled)
    (hfinder : next.objectsFinder.requests.Sublist scan.objectsFinder.requests) :
    next.Pipelined env hosts past inHand := by
  obtain ⟨order, hline⟩ := h
  obtain ⟨added, hadded, haccepts⟩ := hgrows.accepts order hline.records
  have hqueue : next.store.crawlQueue = scan.store.crawlQueue := hgrows.crawlQueue
  have hprobe : next.store.probeQueue = scan.store.probeQueue ++ added := haccepts.probeQueue
  have hsince : past.Since env next (order ++ added) := by
    refine hline.since.accept hgrows.remembers hgrows.filters.urlWhitelistRegexes
      hgrows.filters.urlBlacklistRegexes (fun req hmem => Or.inl (hadded req hmem)) ?_
    exact fun entry hmem => unseen_of_mem (hfinder.subset hmem)
  refine ⟨order ++ added, hgrows.filters.allowedHosts.trans hline.allowedHosts, hsince,
    haccepts.recorded, ?_, fun entry hmem => ?_, hline.distinct.sublist (hfinder.map Prod.snd)⟩
  · have hserved := hline.served.of_moves (.push _ added)
    rw [List.append_nil] at hserved
    rw [hcrawled, hqueue, hprobe]
    exact hserved
  · have htest := hline.tests entry (hfinder.subset hmem)
    refine ⟨Nat.lt_of_lt_of_le htest.allocated hgrows.hosts.next_le, fun hin => ?_, fun hall => ?_⟩
    · rcases List.mem_append.mp hin with hold | hnew
      · exact htest.notAccepted hold
      · exact absurd (hadded _ hnew) (Nat.not_le.mpr htest.allocated)
    · exact Eq.trans (haccepts.unissued entry.2 htest.allocated htest.notAccepted)
        (htest.noIssues hall)

theorem schedulings (h : scan.Pipelined env hosts past inHand) (hcrawler : ¬ caller .crawler)
    (hfinder : ¬ caller .hiddenObjectsFinder) (hscheduled : Schedulings env caller scan next) :
    next.Pipelined env hosts past inHand := by
  refine h.of_grows (.record (Schedulings.record hscheduled))
    (Schedulings.crawled hscheduled hcrawler) ?_
  rw [Schedulings.objectsFinder hscheduled hfinder]

theorem move (h : scan.Pipelined env hosts past inHand) (hmove : Move env scan next) :
    next.Pipelined env hosts past inHand := by
  cases hmove with
  | site htarget hrecords haudit => exact h.of_grows (.records hrecords) rfl (.refl _)
  | done | detector => exact h.of_grows (.refl _) rfl (.refl _)
  | finder objectsFinder hkept => exact h.of_grows (.refl _) rfl hkept
  | probe url =>
    have hscheduled : Schedulings env (· = .notFoundDetector) scan _ :=
      (newRequest_schedulings env (· = .notFoundDetector) scan url).tail
        (.schedule _ .notFoundDetector (by rfl) scan.mem.next .notFoundDetector)
    exact h.schedulings (fun hc => by cases hc) (fun hc => by cases hc) hscheduled

theorem moves (h : scan.Pipelined env hosts past inHand) (hmoves : Moves env scan next) :
    next.Pipelined env hosts past inHand := by
  induction hmoves with
  | refl => exact h
  | tail _ hmove ih => exact ih.move hmove

/-! The callbacks. -/

theorem runnerCallback (h : scan.Pipelined env hosts past inHand) (p req : Nat) :
    (scan.runnerCallback env p req).Pipelined env hosts past inHand := by
  have hcount : Schedulings env isRunner scan
      (scan.setRunner p (scan.runnerAt p).countCallback) := setRunner_schedulings scan p _
  have hevaluated := (h.schedulings id id hcount).moves (evaluateCallback_moves env _ p req)
  unfold Scan.runnerCallback
  dsimp only
  generalize Scan.evaluateCallback env _ p req = evaluated at hevaluated
  split
  · have hscraped := hevaluated.moves (scrapeRequests_moves env evaluated p)
    have hfinished : Schedulings env isRunner (evaluated.scrapeRequests env p)
        (evaluated.finishedCheckCb env p) := finishedCheckCb_schedulings evaluated p
    exact hscraped.schedulings id id hfinished
  · exact hevaluated

/-- The finder gives a request away that it then forgets. -/
theorem addFoundObject {req : Nat} (h : scan.Pipelined env hosts past inHand)
    (hfound : scan.addFoundObject env req = some next) : next.Pipelined env hosts past inHand := by
  obtain ⟨given, mem, store, mem', store', completed, found, hfind, hadd, hissue, rfl⟩ :=
    addFoundObject_cases hfound
  obtain ⟨order, hline⟩ := h
  have htest := hline.tests _ (mem_of_find hfind)
  obtain ⟨added, hadded, haccepts⟩ :=
    hline.records.addRequest htest.allocated htest.notAccepted htest.noIssues
  obtain ⟨hcrawl, hfilters, _⟩ := DataStore.addRequest_keeps env.store scan.mem scan.store given
  have hremembers := DataStore.addRequest_remembers env.store scan.mem scan.store given
  rw [hadd] at haccepts hcrawl hfilters hremembers
  have hothers := ((perm_adjust hfind (fun req => req)).1.map Prod.snd).nodup_iff.mp hline.distinct
  have hgiven :
      (({ scan with mem, store } : Scan).eraseTest (deref scan.mem req).url).Pipelined env hosts
        past inHand := by
    have hsince : past.Since env
        (({ scan with mem, store } : Scan).eraseTest (deref scan.mem req).url)
        (order ++ added) := by
      refine hline.since.accept hremembers hfilters.urlWhitelistRegexes
        hfilters.urlBlacklistRegexes (fun q hmem => ?_) fun entry hmem => ?_
      · exact hadded q hmem ▸ unseen_of_mem (mem_of_find hfind)
      · exact unseen_of_mem (mem_of_mem_erase hmem)
    refine ⟨order ++ added, hfilters.allowedHosts.trans hline.allowedHosts, hsince,
      haccepts.recorded, ?_, fun entry hmem => ?_, (List.nodup_cons.mp hothers).2⟩
    · have hserved := hline.served.of_moves (.push _ added)
      rw [List.append_nil] at hserved
      change Channel.InOrder (scan.crawled ++ store.crawlQueue ++ inHand) ⟨_, store.probeQueue⟩
      rw [hcrawl, haccepts.probeQueue]
      exact hserved
    · have hother := hline.tests entry (mem_of_mem_erase hmem)
      refine ⟨Nat.lt_of_lt_of_le hother.allocated hremembers.asked.next_le, fun hin => ?_,
        fun hall => ?_⟩
      · rcases List.mem_append.mp hin with hold | hnew
        · exact hother.notAccepted hold
        · refine (List.nodup_cons.mp hothers).1 ?_
          exact hadded _ hnew ▸ List.mem_map_of_mem hmem
      · exact Eq.trans (haccepts.unissued entry.2 hother.allocated hother.notAccepted)
          (hother.noIssues hall)
  have hreported : DataStore.Grows env.store env.Makes (mem, store) (mem', store') := by
    rcases hissue with heq | ⟨requestId, issue, heq⟩
    · rw [heq]
      exact .refl _
    · rw [heq]
      have hissued : DataStore.Record env.store env.Makes (mem, store)
        (store.addIssueDetails env.store mem requestId issue).2 := .issue mem store requestId issue
      exact .record hissued
  have hnoted :
      (({ scan with mem := mem', store := store' } : Scan).eraseTest
        (deref scan.mem req).url).Pipelined env hosts past inHand :=
    hgiven.of_grows hreported rfl (.refl _)
  exact hnoted.moves (.single (recount_move env _ completed found))

theorem hiddenObjectCallback {req : Nat} (h : scan.Pipelined env hosts past inHand)
    (hcallback : scan.hiddenObjectCallback env req = some next) :
    next.Pipelined env hosts past inHand := by
  rcases hiddenObjectCallback_cases env scan req with ⟨_, completed, heq⟩ | ⟨_, heq⟩
  · rw [heq] at hcallback
    cases hcallback
    exact h.moves
      ((ReflTransGen.single (eraseTest_move env _ _)).tail (recount_move env _ completed _))
  · rw [heq] at hcallback
    exact (h.moves (.single (recount_move env _ _ _))).addFoundObject hcallback

theorem requestCallback {req : Nat} {transfer : Transfer} (h : scan.Pipelined env hosts past inHand)
    (hcallback : scan.requestCallback env req transfer = some next) :
    next.Pipelined env hosts past inHand := by
  have hreceived := h.moves (receive_moves env scan req transfer)
  unfold Scan.requestCallback at hcallback
  split at hcallback
  · cases hcallback
  · dsimp only at hcallback
    split at hcallback
    · cases hcallback
    · cases hcallback
      exact hreceived.of_grows (.records (Crawler.requestCallback_records env
        (scan.receive req transfer).passiveAuditor _ _ req)) rfl (.refl _)
    · rename_i p _
      cases hcallback
      exact hreceived.runnerCallback p req
    · cases hcallback
      exact hreceived.moves (notFoundCallback_moves env _ req)
    · exact hreceived.hiddenObjectCallback hcallback

/-! The loop body. -/

/-- The next request is taken from the probe queue. -/
theorem getRequestFromProbeQueue {req : Nat} {rest : List Nat}
    (h : scan.Pipelined env hosts past [])
    (hqueue : scan.store.probeQueue = req :: rest) :
    ({ scan with store := scan.store.getRequestFromProbeQueue.2 } : Scan).Pipelined env hosts past
      [req] := by
  obtain ⟨order, hline⟩ := h
  refine ⟨order, hline.allowedHosts, hline.since.keep ?_ rfl rfl fun _ => unseen_of_mem, ?_, ?_,
    hline.tests, hline.distinct⟩
  · exact .keep scan.mem rfl (fun _ => id) rfl rfl
  · exact hline.records.keep rfl rfl rfl (fun _ _ => DataStore.SameFilters.admits ⟨rfl, rfl, rfl⟩)
      (.of_eq rfl rfl rfl)
  · have hserved := hline.served.of_moves (.pop hqueue)
    rw [List.append_nil] at hserved
    simpa [DataStore.getRequestFromProbeQueue, hqueue, Scan.crawled] using hserved

theorem stored_eq {req stored : Nat} (h : scan.Pipelined env hosts past [req])
    (hstored : scan.store.getRequestById (deref scan.mem req).id = some stored) : stored = req := by
  obtain ⟨order, hline⟩ := h
  have hmem : req ∈ order := by
    have hserved : order = _ := hline.served
    rw [hserved]
    simp
  rw [hline.records.numbers.id req hmem] at hstored
  exact (Option.some.inj hstored).symm

theorem addRequestToCrawlQueue {req : Nat} (h : scan.Pipelined env hosts past [req]) :
    ({ scan with store := scan.store.addRequestToCrawlQueue req } : Scan).Pipelined env hosts past
      [] := by
  obtain ⟨order, hline⟩ := h
  refine ⟨order, hline.allowedHosts, hline.since.keep ?_ rfl rfl fun _ => unseen_of_mem, ?_, ?_,
    hline.tests, hline.distinct⟩
  · exact .keep scan.mem rfl (fun _ => id) rfl rfl
  · exact hline.records.keep rfl rfl rfl (fun _ _ => DataStore.SameFilters.admits ⟨rfl, rfl, rfl⟩)
      (.of_eq rfl rfl rfl)
  · have hserved := hline.served
    rw [List.append_assoc] at hserved
    rw [List.append_nil]
    exact hserved

theorem serveProbeQueue {number : ProbeNumber} (h : scan.Pipelined env hosts past [])
    (hserve : scan.serveProbeQueue env number = some next) : next.Pipelined env hosts past [] := by
  unfold Scan.serveProbeQueue at hserve
  split at hserve
  · cases hserve
    exact h
  · rename_i req rest hqueue
    dsimp only at hserve
    obtain ⟨stored, hstored, rfl⟩ := Option.map_eq_some_iff.mp hserve
    have hprobed := (h.getRequestFromProbeQueue hqueue).moves
      (addProbeUrl_moves env _ (deref scan.mem req).url number)
    have hsearched (probed : Bool) (url : Bytes) := hprobed.moves (offerUrl_moves env _ probed url)
    obtain rfl := (hsearched _ _).stored_eq hstored
    exact (hsearched _ _).addRequestToCrawlQueue

/-- The request that the crawler hands over is the next one in the crawl queue. -/
theorem serveCrawlQueue (h : scan.Pipelined env hosts past [])
    (hserve : scan.serveCrawlQueue env = some next) : next.Pipelined env hosts past [] := by
  unfold Scan.serveCrawlQueue at hserve
  split at hserve
  · cases hserve
    exact h
  · rename_i req rest hqueue
    dsimp only at hserve
    obtain ⟨stored, hstored, rfl⟩ := Option.map_eq_some_iff.mp hserve
    obtain ⟨order, hline⟩ := h
    have hserved : order = _ := hline.served
    rw [hqueue, List.append_nil] at hserved
    have hmem : req ∈ order := by
      rw [hserved]
      simp
    replace hstored : scan.store.getRequestById (deref scan.mem req).id = some stored := hstored
    rw [hline.records.numbers.id req hmem] at hstored
    obtain rfl := Option.some.inj hstored
    let after : Scan :=
      (Crawler.crawl env { scan with store := scan.store.getRequestFromCrawlQueue.2 } req).2
    have hcrawled : after.crawled = scan.crawled ++ [req] := by
      rw [crawled_of_calls (show after.calls = scan.calls ++ [_] from rfl)]
      simp
    have hasked : Heap.Frame Request.SameAsked scan.mem after.mem :=
      .modify Request.SameAsked.refl scan.mem req fun _ => rfl
    have htests (entry : Bytes × Nat) (hmem : entry ∈ after.objectsFinder.requests) :
        scan.Unseen entry.2 := Or.inr (List.mem_map_of_mem hmem)
    refine ⟨order, hline.allowedHosts, hline.since.keep ?_ rfl rfl htests, ?_, ?_,
      fun entry hmem => ?_, hline.distinct⟩
    · exact (DataStore.Remembers.objects hasked scan.store).trans
        (.keep after.mem rfl (fun _ => id) rfl rfl)
    · have hpopped : scan.store.getRequestFromCrawlQueue.2.Recorded env.store env.Makes scan.mem
          order := hline.records.keep rfl rfl rfl
        (fun _ _ => DataStore.SameFilters.admits ⟨rfl, rfl, rfl⟩) (.of_eq rfl rfl rfl)
      apply hpopped.objects
      · exact .modify Request.SameEntry.refl scan.mem req fun _ => ⟨rfl, rfl⟩
      · exact .modify Request.SameAttached.refl scan.mem req fun _ => rfl
    · change Channel.InOrder (after.crawled ++ scan.store.crawlQueue.tail ++ [])
        ⟨order, scan.store.probeQueue⟩
      rw [Channel.InOrder, hcrawled, hqueue, List.tail_cons, hserved]
      simp
    · exact (hline.tests entry hmem).of_frame (.modify Request.SameAttached.refl scan.mem req
        fun _ => rfl)

/-- The finder keeps a request that it makes itself. -/
theorem testObject (h : scan.Pipelined env hosts past inHand) (testUrl : Bytes) :
    (scan.testObject env testUrl).Pipelined env hosts past inHand := by
  obtain ⟨order, hline⟩ := h
  let made := (scan.newRequest env testUrl).2
  let scheduled := (made.scheduleWith env .hiddenObjectsFinder scan.mem.next
    .hiddenObjectsFinder).2
  have hschedulings : Schedulings env (· = .hiddenObjectsFinder) scan scheduled :=
    (newRequest_schedulings env (· = .hiddenObjectsFinder) scan testUrl).tail
      (.schedule _ .hiddenObjectsFinder (by rfl) scan.mem.next .hiddenObjectsFinder)
  have hcrawled := Schedulings.crawled hschedulings (fun hc => by cases hc)
  have hentry : Heap.Frame Request.SameEntry scan.mem scheduled.mem :=
    (Heap.Frame.alloc Request.SameEntry.refl scan.mem _).trans Request.SameEntry.trans
      (.modify Request.SameEntry.refl made.mem _ fun _ => ⟨rfl, rfl⟩)
  have hattached : Heap.Frame Request.SameAttached scan.mem scheduled.mem :=
    (Heap.Frame.alloc Request.SameAttached.refl scan.mem _).trans Request.SameAttached.trans
      (.modify Request.SameAttached.refl made.mem _ fun _ => rfl)
  have hrecords := hline.records.objects hentry hattached
  have hremembers : DataStore.Remembers env.store (scan.mem, scan.store)
      (scheduled.mem, scan.store) := .objects (hentry.mono fun _ _ hsame => hsame.asked) scan.store
  have hserved : Channel.InOrder (scheduled.crawled ++ scan.store.crawlQueue ++ inHand)
      ⟨order, scan.store.probeQueue⟩ := by
    rw [hcrawled]
    exact hline.served
  have hold (entry : Bytes × Nat) (hmem : entry ∈ scan.objectsFinder.requests) :
      Unaccepted env scheduled.mem order entry.2 := (hline.tests entry hmem).of_frame hattached
  unfold Scan.testObject
  dsimp only
  split
  · have hnew : Unaccepted env scheduled.mem order scan.mem.next := by
      refine ⟨?_, fun hin => Nat.lt_irrefl _ (hline.records.numbers.allocated _ hin), fun _ => ?_⟩
      · simp [scheduled, made, newRequest, scheduleWith, setRequestHandler, schedule]
      · simp [scheduled, made, newRequest, scheduleWith, setRequestHandler, schedule, deref,
          Heap.get?_modify]
    have hassign := perm_assign scan.objectsFinder.requests testUrl scan.mem.next
    refine ⟨order, hline.allowedHosts, hline.since.keep hremembers rfl rfl fun entry hmem => ?_,
      hrecords, hserved, fun entry hmem => ?_, ?_⟩
    · rcases List.mem_cons.mp (hassign.mem_iff.mp hmem) with rfl | hkept
      · exact Or.inl (Nat.le_refl _)
      · exact unseen_of_mem (mem_of_mem_erase hkept)
    · rcases List.mem_cons.mp (hassign.mem_iff.mp hmem) with rfl | hkept
      · exact hnew
      · exact hold entry (mem_of_mem_erase hkept)
    · refine (hassign.map Prod.snd).nodup_iff.mpr (List.nodup_cons.mpr ⟨fun hin => ?_, ?_⟩)
      · obtain ⟨entry, hkept, heq⟩ := List.mem_map.mp hin
        have hlt := (hline.tests entry (mem_of_mem_erase hkept)).allocated
        rw [heq] at hlt
        exact Nat.lt_irrefl _ hlt
      · exact hline.distinct.sublist ((erase_sublist _ testUrl).map Prod.snd)
  · have hsince : past.Since env scheduled order :=
      hline.since.keep hremembers rfl rfl fun _ hmem => Or.inr (List.mem_map_of_mem hmem)
    exact ⟨order, hline.allowedHosts, hsince, hrecords, hserved, hold, hline.distinct⟩

theorem scheduleTests (amount : Nat) (h : scan.Pipelined env hosts past inHand) :
    (scan.scheduleTests env amount).Pipelined env hosts past inHand := by
  induction amount generalizing scan with
  | zero => exact h
  | succ amount ih =>
    rw [Scan.scheduleTests]
    split
    · exact h
    · have hpopped : Move env scan scan.popTestUrl := .finder scan _ (.refl _)
      exact ih ((h.moves (.single hpopped)).testObject _)

theorem serveObjectsFinder (h : scan.Pipelined env hosts past inHand)
    (hserve : scan.serveObjectsFinder env = some next) : next.Pipelined env hosts past inHand := by
  unfold Scan.serveObjectsFinder at hserve
  split at hserve
  · cases hserve
    have hrefilled : Move env scan { scan with objectsFinder := scan.objectsFinder.refill } :=
      .finder scan _ (by rw [refill_requests])
    exact (h.moves (.single hrefilled)).scheduleTests _
  · cases hserve

theorem serveAuditQueue (h : scan.Pipelined env hosts past inHand) :
    (scan.serveAuditQueue env).Pipelined env hosts past inHand := by
  unfold Scan.serveAuditQueue
  split
  · split
    · exact h
    · have hpopped := h.moves (.single (getRequestFromAuditQueue_move env scan))
      exact hpopped.schedulings id id (scheduleFirst_schedulings env _ _)
  · exact h

theorem iterate {number : ProbeNumber} (h : scan.Pipelined env hosts past [])
    (hiterate : scan.iterate env number = some next) : next.Pipelined env hosts past [] := by
  obtain ⟨probed, crawled, tested, hprobe, hcrawl, htest, rfl⟩ := (iterate_eq_some env).mp hiterate
  have hserved := (h.serveProbeQueue hprobe).serveCrawlQueue hcrawl
  exact (hserved.serveObjectsFinder htest).serveAuditQueue

/-- A seed may add its host to the hosts that are allowed. -/
theorem addUrl (env : ScanEnv) (h : scan.Pipelined env hosts past inHand) (url : Bytes) :
    ∃ hosts', (∀ host, host ∈ hosts' ↔ host ∈ hosts ∨ (ScanOp.addUrl url).Seeds env host) ∧
      (scan.addUrl env url).2.Pipelined env hosts' past inHand := by
  have hmakes : env.Makes (Request.ofUrl env.request url none) := Or.inl ⟨url, none, rfl⟩
  simp only [Scan.addUrl, ScanOp.Seeds]
  generalize Request.ofUrl env.request url none = request at hmakes
  by_cases hvalid : request.urlIsValid = true
  · rw [hvalid, if_neg (by simp)]
    obtain ⟨order, hline⟩ := h
    have hadded (host : Bytes) : host ∈ (scan.store.addHost request.host).allowedHosts ↔
        host ∈ hosts ∨ host = request.host := by
      simp only [DataStore.addHost, hline.allowedHosts, List.contains_iff_mem]
      split
      · simp_all
      · simp
    refine ⟨(scan.store.addHost request.host).allowedHosts, fun host => ?_, ?_⟩
    · rw [hadded, and_iff_right rfl]
    · have hhost : ({ scan with store := scan.store.addHost request.host } : Scan).Pipelined
          env (scan.store.addHost request.host).allowedHosts past inHand := by
        have hallowed (host : Bytes) (hmem : host ∈ scan.store.allowedHosts) :
            host ∈ (scan.store.addHost request.host).allowedHosts :=
          (hadded host).mpr (Or.inl (hline.allowedHosts ▸ hmem))
        refine ⟨order, rfl, hline.since.keep ?_ rfl rfl fun _ => unseen_of_mem, ?_, hline.served,
          hline.tests, hline.distinct⟩
        · exact .keep scan.mem rfl hallowed rfl rfl
        · exact hline.records.keep rfl rfl rfl
            (fun _ _ hadmits => hadmits.of_filters hallowed rfl rfl) (.of_eq rfl rfl rfl)
      exact hhost.moves (addNewRequest_moves hmakes _)
  · rw [Bool.not_eq_true] at hvalid
    rw [hvalid, if_pos (by simp)]
    exact ⟨hosts, by simp, h⟩

end Pipelined

/-- An iteration accepts no request. -/
theorem iterate_index {number : ProbeNumber} (hiterate : scan.iterate env number = some next) :
    next.store.requestsById = scan.store.requestsById ∧
      next.store.requestId = scan.store.requestId := by
  obtain ⟨probed, crawled, tested, hprobe, hcrawl, htest, rfl⟩ := (iterate_eq_some env).mp hiterate
  have hprobed : probed.store.requestsById = scan.store.requestsById ∧
      probed.store.requestId = scan.store.requestId := by
    unfold Scan.serveProbeQueue at hprobe
    split at hprobe
    · cases hprobe
      exact ⟨rfl, rfl⟩
    · dsimp only at hprobe
      obtain ⟨stored, _, rfl⟩ := Option.map_eq_some_iff.mp hprobe
      simp only [DataStore.addRequestToCrawlQueue,
        Schedulings.store (offerUrl_schedulings env _ _ _),
        Schedulings.store (addProbeUrl_schedulings env _ _ _)]
      exact ⟨rfl, rfl⟩
  obtain ⟨hcrawled, _⟩ := serveCrawlQueue_spec hcrawl
  simp only [(serveAuditQueue_spec env tested).store, (serveObjectsFinder_spec env htest).store,
    hcrawled]
  exact hprobed

/-- An iteration hands over the request that has waited longest. -/
theorem Pipelined.iterate_crawled {number : ProbeNumber} (h : scan.Pipelined env hosts past [])
    (hiterate : scan.iterate env number = some next) :
    next.crawled = scan.crawled ++ (scan.store.crawlQueue ++ scan.store.probeQueue).take 1 ∧
      next.store.crawlQueue ++ next.store.probeQueue =
        (scan.store.crawlQueue ++ scan.store.probeQueue).drop 1 := by
  have hnext := h.iterate hiterate
  obtain ⟨hindex, hid⟩ := iterate_index hiterate
  have hqueues := iterate_queues hiterate
  obtain ⟨made, hhands, _⟩ := (iterate_effects hiterate).hands
  obtain ⟨order, hline⟩ := h
  obtain ⟨order', hline'⟩ := hnext
  have horder : order' = order := by
    refine List.ext_getElem? fun i => ?_
    rw [← hline'.records.numbers.byId, ← hline.records.numbers.byId, DataStore.getRequestById,
      hindex]
    rfl
  have hserved : order = _ := hline.served
  have hserved' : order' = _ := hline'.served
  have hcalls := crawled_of_calls hhands.calls
  rw [horder, hserved, hcalls] at hserved'
  simp only [List.append_nil, List.append_assoc] at hserved'
  have hwaiting := List.append_cancel_left hserved'
  have hcount : (next.store.crawlQueue ++ next.store.probeQueue).length =
      (scan.store.crawlQueue ++ scan.store.probeQueue).length - 1 := by
    rw [List.length_append, List.length_append, hqueues.crawlQueue, hqueues.probeQueue,
      List.length_tail]
    omega
  rw [hcalls]
  generalize scan.store.crawlQueue ++ scan.store.probeQueue = waiting at *
  generalize next.store.crawlQueue ++ next.store.probeQueue = waiting' at *
  generalize (made.filter fun call => call.caller = .crawler).map (·.req) = handed at *
  subst hwaiting
  cases handed with
  | nil =>
    have hnone : waiting' = [] := by
      rw [List.nil_append] at hcount
      exact List.eq_nil_of_length_eq_zero (by omega)
    simp [hnone]
  | cons first rest =>
    have hrest : rest = [] := by
      rw [List.length_append, List.length_cons] at hcount
      exact List.eq_nil_of_length_eq_zero (by omega)
    simp [hrest]

/-- The datastore has the expressions that can be compiled, and nothing else. -/
theorem configured_store_eq (env : ScanEnv) (config : ScanConfig) :
    (configured env config).store =
      { urlWhitelistRegexes := config.includeRegexes.filter env.store.regexOk
        urlBlacklistRegexes := config.excludeRegexes.filter env.store.regexOk } := by
  have hinclude (regexes : List Bytes) (store : DataStore) :
      regexes.foldl (fun store regex => (store.addWhitelistRegex env.store regex).2) store =
        { store with urlWhitelistRegexes :=
            store.urlWhitelistRegexes ++ regexes.filter env.store.regexOk } := by
    induction regexes generalizing store with
    | nil => simp
    | cons regex regexes ih =>
      rw [List.foldl_cons, ih, DataStore.addWhitelistRegex]
      by_cases hok : env.store.regexOk regex = true <;> simp [hok]
  have hexclude (regexes : List Bytes) (store : DataStore) :
      regexes.foldl (fun store regex => (store.addBlacklistRegex env.store regex).2) store =
        { store with urlBlacklistRegexes :=
            store.urlBlacklistRegexes ++ regexes.filter env.store.regexOk } := by
    induction regexes generalizing store with
    | nil => simp
    | cons regex regexes ih =>
      rw [List.foldl_cons, ih, DataStore.addBlacklistRegex]
      by_cases hok : env.store.regexOk regex = true <;> simp [hok]
  rw [configured, hinclude, hexclude]
  rfl

theorem configured_pipelined (env : ScanEnv) (config : ScanConfig) :
    (configured env config).Pipelined env [] (configured env config) [] := by
  have hstore := configured_store_eq env config
  have hrecords : (configured env config).store.Recorded env.store env.Makes {} [] := by
    rw [hstore]
    exact (DataStore.Recorded.start env.store env.Makes).keep rfl rfl rfl (List.forall_mem_nil _)
      (.of_eq rfl rfl rfl)
  have hwaiting : (configured env config).crawled ++ (configured env config).waiting = [] := by
    rw [waiting, hstore]
    rfl
  refine ⟨[], by rw [hstore], ⟨hwaiting ▸ List.prefix_refl _, .refl _, rfl, rfl,
    List.forall_mem_nil _, List.forall_mem_nil _⟩, hrecords, ?_, List.forall_mem_nil _,
    List.nodup_nil⟩
  rw [hstore]
  rfl

end

end Scan

namespace MainLoop

variable {env : ScanEnv} {config : ScanConfig} {ops : List ScanOp} {loop next last : MainLoop}
  {hosts : List Bytes} {past : Scan}

theorem step_pipelined {op : ScanOp} (h : loop.scan.Pipelined env hosts past [])
    (hstep : loop.step env op = some next) :
    ∃ hosts', (∀ host, host ∈ hosts' ↔ host ∈ hosts ∨ op.Seeds env host) ∧
      next.scan.Pipelined env hosts' past [] := by
  have hsame {scan : Scan} {op : ScanOp} (hop : ∀ host, ¬ op.Seeds env host)
      (hscan : scan.Pipelined env hosts past []) : ∃ hosts', (∀ host, host ∈ hosts' ↔
        host ∈ hosts ∨ op.Seeds env host) ∧ scan.Pipelined env hosts' past [] :=
    ⟨hosts, fun host => (or_iff_left (hop host)).symm, hscan⟩
  unfold step at hstep
  split at hstep
  · cases hstep
  · cases op with
    | addUrl url =>
      cases hstep
      exact h.addUrl env url
    | addRequest proto =>
      cases hstep
      exact hsame (fun _ => id)
        (h.moves (Scan.addNewRequest_moves (Or.inr (Or.inl ⟨proto, rfl⟩)) _))
    | requestCallback req transfer =>
      obtain ⟨scan, hcallback, rfl⟩ := Option.map_eq_some_iff.mp hstep
      exact hsame (fun _ => id) (h.requestCallback hcallback)
    | giveUp req =>
      obtain ⟨scan, hgiveUp, rfl⟩ := Option.map_eq_some_iff.mp hstep
      exact hsame (fun _ => id) (h.moves (.single (Scan.giveUp_move env hgiveUp)))
    | iterate number keepRunning =>
      obtain ⟨scan, hiterate, rfl⟩ := Option.map_eq_some_iff.mp hstep
      exact hsame (fun _ => id) (h.iterate hiterate)

/-- The hosts that are allowed after a run are those of its seeds. -/
theorem run_pipelined (h : loop.scan.Pipelined env hosts past [])
    (hrun : run (step env) loop ops = some last) :
    ∃ hosts', (∀ host, host ∈ hosts' ↔ host ∈ hosts ∨ ∃ op ∈ ops, op.Seeds env host) ∧
      last.scan.Pipelined env hosts' past [] := by
  induction ops generalizing loop hosts with
  | nil =>
    cases hrun
    exact ⟨hosts, by simp, h⟩
  | cons op ops ih =>
    obtain ⟨next, hstep, hrest⟩ := run_cons_eq_some.mp hrun
    obtain ⟨hosts', hmem, hnext⟩ := step_pipelined h hstep
    obtain ⟨hosts'', hmem', hlast⟩ := ih hnext hrest
    refine ⟨hosts'', fun host => ?_, hlast⟩
    simp only [hmem', hmem, List.exists_mem_cons_iff, or_assoc]

/-- In every run the requests that the crawler has handed to the HTTP client, followed by those
    that wait for it, are the requests with the ids from one to the last id that was given, in this
    order and without repetition. -/
theorem crawledInOrder_of_run (hrun : run (step env) (start env config) ops = some last) :
    (last.scan.crawled ++ last.scan.waiting).map some =
        (List.range last.scan.store.requestId).map (fun i =>
          last.scan.store.getRequestById ((i + 1 : ℕ) : Int)) ∧
      (last.scan.crawled ++ last.scan.waiting).Nodup := by
  obtain ⟨_, _, order, hline⟩ := run_pipelined (Scan.configured_pipelined env config) hrun
  rw [← hline.order_eq]
  exact ⟨hline.records.numbers.map_some, hline.records.numbers.nodup⟩

/-- Three redirections are followed, and another page is given. -/
theorem crawledInOrder_of_run_redirections : ∃ last,
    run (step loopEnv) (start loopEnv {}) (redirections ++ [.addUrl (ascii "http://site/x")]) =
      some last ∧ last.scan.crawled = [0, 10, 11] ∧ last.scan.waiting = [12] ∧
      (last.scan.crawled ++ last.scan.waiting).map some =
        (List.range last.scan.store.requestId).map (fun i =>
          last.scan.store.getRequestById ((i + 1 : ℕ) : Int)) := by
  have hends : (run (step loopEnv) (start loopEnv {})
      (redirections ++ [.addUrl (ascii "http://site/x")])).map (fun last =>
        (last.scan.crawled, last.scan.waiting)) = some ([0, 10, 11], [12]) := by
    decide +kernel
  obtain ⟨last, hrun, hlast⟩ := Option.map_eq_some_iff.mp hends
  obtain ⟨hcrawled, hwaiting⟩ := Prod.ext_iff.mp hlast
  exact ⟨last, hrun, hcrawled, hwaiting, (crawledInOrder_of_run hrun).1⟩

theorem step_crawled {op : ScanOp} (hstep : loop.step env op = some next) :
    loop.scan.crawled.length ≤ next.scan.crawled.length := by
  have hcalls {scan scan' : Scan} {made : List ScheduleCall}
      (hmade : scan'.calls = scan.calls ++ made) : scan.crawled.length ≤ scan'.crawled.length := by
    rw [Scan.crawled_of_calls hmade, List.length_append]
    exact Nat.le_add_right _ _
  unfold step at hstep
  split at hstep
  · cases hstep
  · cases op with
    | addUrl url =>
      cases hstep
      unfold Scan.addUrl
      dsimp only
      split
      · exact Nat.le_refl _
      · exact Nat.le_refl _
    | addRequest proto =>
      cases hstep
      exact Nat.le_refl _
    | requestCallback req transfer =>
      obtain ⟨scan, hcallback, rfl⟩ := Option.map_eq_some_iff.mp hstep
      obtain ⟨_, targets, ⟨made, hmade, _⟩, _⟩ := Scan.requestCallback_effects hcallback
      exact hcalls hmade
    | giveUp req =>
      obtain ⟨scan, hgiveUp, rfl⟩ := Option.map_eq_some_iff.mp hstep
      unfold Scan.giveUp at hgiveUp
      split at hgiveUp
      · cases hgiveUp
      · cases hgiveUp
        exact Nat.le_refl _
    | iterate number keepRunning =>
      obtain ⟨scan, hiterate, rfl⟩ := Option.map_eq_some_iff.mp hstep
      obtain ⟨made, hhands, _⟩ := (Scan.iterate_effects hiterate).hands
      exact hcalls hhands.calls

/-- No request loses its place in line, and an iteration hands one over. -/
theorem step_served {op : ScanOp} (h : loop.scan.Pipelined env hosts past [])
    (hstep : loop.step env op = some next) :
    (loop.scan.crawled ++ loop.scan.waiting) <+: (next.scan.crawled ++ next.scan.waiting) ∧
      min (loop.scan.crawled.length + op.iterations)
        (loop.scan.crawled ++ loop.scan.waiting).length ≤ next.scan.crawled.length := by
  obtain ⟨order, hline⟩ := h
  have hkept := Scan.Pipelined.remember ⟨order, hline⟩
  obtain ⟨_, _, order', hnext⟩ := step_pipelined hkept hstep
  have hgrown := hnext.since.grown
  rw [hnext.order_eq] at hgrown
  refine ⟨hgrown, ?_⟩
  rcases step_scan hstep with ⟨hquiet, _⟩ | ⟨_, _, rfl, _⟩ | ⟨number, _, rfl, hiterate⟩
  · have hcrawled := step_crawled hstep
    cases op with
    | iterate | requestCallback => exact hquiet.elim
    | _ => exact Nat.le_trans (Nat.min_le_left _ _) hcrawled
  · exact Nat.le_trans (Nat.min_le_left _ _) (step_crawled hstep)
  · obtain ⟨hcrawled, _⟩ := hkept.iterate_crawled hiterate
    rw [hcrawled, List.length_append, List.length_append, List.length_take, ← Scan.waiting,
      ScanOp.iterations]
    omega

theorem run_served (h : loop.scan.Pipelined env hosts past [])
    (hrun : run (step env) loop ops = some last) :
    (loop.scan.crawled ++ loop.scan.waiting) <+: (last.scan.crawled ++ last.scan.waiting) ∧
      min (loop.scan.crawled.length + (ops.map ScanOp.iterations).sum)
        (loop.scan.crawled ++ loop.scan.waiting).length ≤ last.scan.crawled.length := by
  induction ops generalizing loop hosts with
  | nil =>
    cases hrun
    exact ⟨List.prefix_refl _, Nat.min_le_left _ _⟩
  | cons op ops ih =>
    obtain ⟨next, hstep, hrest⟩ := run_cons_eq_some.mp hrun
    obtain ⟨hgrown, hcount⟩ := step_served h hstep
    obtain ⟨_, _, hnext⟩ := step_pipelined h hstep
    obtain ⟨hlater, hlast⟩ := ih hnext hrest
    refine ⟨hgrown.trans hlater, ?_⟩
    have hlength := hgrown.length_le
    rw [List.map_cons, List.sum_cons]
    omega

/-- In any state that a run reaches, and whatever happens from there on, as many iterations as
    there are requests before it in line are enough for a request: the requests that wait are
    handed over in their order, and each iteration hands over one. -/
theorem crawled_of_iterations {ops' : List ScanOp}
    (hreach : run (step env) (start env config) ops = some loop)
    (hrun : run (step env) loop ops' = some last) :
    (loop.scan.crawled ++ loop.scan.waiting.take (ops'.map ScanOp.iterations).sum) <+:
      last.scan.crawled := by
  obtain ⟨_, _, hpipelined⟩ := run_pipelined (Scan.configured_pipelined env config) hreach
  obtain ⟨hline, hcount⟩ := run_served hpipelined hrun
  have hfirst : (loop.scan.crawled ++ loop.scan.waiting.take (ops'.map ScanOp.iterations).sum) <+:
      (loop.scan.crawled ++ loop.scan.waiting) :=
    (List.prefix_append_right_inj _).mpr (List.take_prefix _ _)
  refine List.prefix_of_prefix_length_le (hfirst.trans hline) (List.prefix_append _ _) ?_
  rw [List.length_append] at hcount ⊢
  rw [List.length_take]
  omega

/-- Three pages are given, and two iterations are made before the first page is fetched. -/
theorem crawled_of_iterations_threePages : ∃ loop last,
    run (step siteEnv) (start siteEnv (timed 0)) [.addUrl (ascii "http://site/a"),
      .addUrl (ascii "http://site/b"), .addUrl (ascii "http://site/c")] = some loop ∧
    run (step siteEnv) loop [.iterate fixedNumber true, .iterate fixedNumber true,
      .requestCallback 0 {}] = some last ∧
    loop.scan.waiting = [0, 1, 2] ∧
      (loop.scan.crawled ++ loop.scan.waiting.take 2) <+: last.scan.crawled := by
  have hends : ((run (step siteEnv) (start siteEnv (timed 0)) [.addUrl (ascii "http://site/a"),
      .addUrl (ascii "http://site/b"), .addUrl (ascii "http://site/c")]).bind fun loop =>
        (run (step siteEnv) loop [.iterate fixedNumber true, .iterate fixedNumber true,
          .requestCallback 0 {}]).map fun _ => loop.scan.waiting) = some [0, 1, 2] := by
    decide +kernel
  obtain ⟨loop, hreach, hrest⟩ := Option.bind_eq_some_iff.mp hends
  obtain ⟨last, hrun, hwaiting⟩ := Option.map_eq_some_iff.mp hrest
  exact ⟨loop, last, hreach, hrun, hwaiting, crawled_of_iterations hreach hrun⟩

end MainLoop

end plusfish

import Plusfish.Crawler.Effects
import Plusfish.DataStore.Accounting
import Plusfish.DataStore.Coverage

open memory ordered_map Relation

namespace plusfish

/-- The two name one host. -/
def Request.SameHost (request request' : Request) : Prop :=
  request'.proto.hostField = request.proto.hostField

theorem Request.SameHost.refl (request : Request) : SameHost request request := rfl

theorem Request.SameHost.trans (a b c : Request) (hab : SameHost a b) (hbc : SameHost b c) :
    SameHost a c := Eq.trans hbc hab

theorem Request.SameAsked.host {request request' : Request} (h : SameAsked request request') :
    SameHost request request' := congrArg Asked.hostField h

/-- The two have one id, and ask for the same. -/
structure Request.SameEntry (request request' : Request) : Prop where
  id : request'.id = request.id
  asked : Request.SameAsked request request'

theorem Request.SameEntry.refl (request : Request) : SameEntry request request :=
  ⟨rfl, .refl request⟩

theorem Request.SameEntry.trans (a b c : Request) (hab : SameEntry a b) (hbc : SameEntry b c) :
    SameEntry a c :=
  ⟨hbc.id.trans hab.id, Request.SameAsked.trans a b c hab.asked hbc.asked⟩

theorem Request.SameEntry.host {request request' : Request} (h : SameEntry request request') :
    SameHost request request' := h.asked.host

theorem Request.SameAttached.trans (a b c : Request) (hab : SameAttached a b)
    (hbc : SameAttached b c) : SameAttached a c := Eq.trans hbc hab

/-- The accepted requests in the order in which they were accepted: the ids count them. -/
structure DataStore.Numbers (mem : Heap Request) (store : DataStore) (order : List Nat) :
    Prop where
  nodup : order.Nodup
  requestId : store.requestId = order.length
  byId : ∀ i : ℕ, store.getRequestById ((i + 1 : ℕ) : Int) = order[i]?
  allocated : ∀ req ∈ order, req < mem.next
  id : ∀ req ∈ order, store.getRequestById (deref mem req).id = some req

/-- The datastore has stored the requests that it has accepted, which have passed the filters, with
    the issues that were reported for them, provided that new requests come without issues. -/
structure DataStore.Recorded (env : StoreEnv) (newRequest : Request → Prop) (mem : Heap Request)
    (store : DataStore) (order : List Nat) : Prop where
  numbers : store.Numbers mem order
  known : ∀ requestId req, store.getRequestById requestId = some req →
    req ∈ order ∧ (deref mem req).id = requestId
  admits : ∀ req ∈ order, store.Admits env (deref mem req)
  stored : store.stored.Perm order
  valid : store.Valid env
  accounted : (∀ request, newRequest request → request.issues = []) →
    Site.Accounted env { mem, store }

/-- The datastore may have accepted these requests, which then wait to be probed. -/
structure DataStore.Accepts (env : StoreEnv) (newRequest : Request → Prop)
    (before after : Heap Request × DataStore) (order added : List Nat) : Prop where
  recorded : after.2.Recorded env newRequest after.1 (order ++ added)
  probeQueue : after.2.probeQueue = before.2.probeQueue ++ added
  unissued : ∀ req < before.1.next, req ∉ order →
    Request.SameAttached (deref before.1 req) (deref after.1 req)

/-- One thing that happens to what the datastore knows about requests and issues. Those of the
    requests that it is given that are new have this property. -/
inductive DataStore.Record (env : StoreEnv) (newRequest : Request → Prop) :
    Heap Request × DataStore → Heap Request × DataStore → Prop
  | objects {mem mem' : Heap Request} (store : DataStore)
      (hentry : Heap.Frame Request.SameEntry mem mem')
      (hattached : Heap.Frame Request.SameAttached mem mem') :
      Record env newRequest (mem, store) (mem', store)
  | add (mem : Heap Request) (store : DataStore) (request : Request) (hnew : newRequest request) :
      Record env newRequest (mem, store) (store.addRequest env (mem.alloc request).2 mem.next).2
  | issue (mem : Heap Request) (store : DataStore) (requestId : Int) (issue : IssueDetails) :
      Record env newRequest (mem, store) (store.addIssueDetails env mem requestId issue).2
  | keep (mem : Heap Request) {store store' : DataStore} (hrequests : store.SameRequests store')
      (hissues : store.SameIssues store') (hcrawl : store'.crawlQueue = store.crawlQueue)
      (hfilters : store.SameFilters store') :
      Record env newRequest (mem, store) (mem, store')

abbrev DataStore.Records (env : StoreEnv) (newRequest : Request → Prop) :=
  ReflTransGen (DataStore.Record env newRequest)

/-- All that may happen to the datastore is that it accepts new requests, or issues. -/
structure DataStore.Grows (env : StoreEnv) (newRequest : Request → Prop)
    (before after : Heap Request × DataStore) : Prop where
  remembers : DataStore.Remembers env before after
  crawlQueue : after.2.crawlQueue = before.2.crawlQueue
  filters : before.2.SameFilters after.2
  accepts : ∀ order, before.2.Recorded env newRequest before.1 order → ∃ added,
    (∀ req ∈ added, before.1.next ≤ req) ∧ DataStore.Accepts env newRequest before after order added

namespace DataStore

variable {env : StoreEnv} {mem mem' : Heap Request} {store store' : DataStore} {order : List Nat}

theorem Numbers.of_frame (h : store.Numbers mem order)
    (hframe : Heap.Frame Request.SameEntry mem mem')
    (hindex : store'.requestsById = store.requestsById) (hid : store'.requestId = store.requestId) :
    store'.Numbers mem' order := by
  have hsame (req : Nat) (hmem : req ∈ order) :
      Request.SameEntry (deref mem req) (deref mem' req) :=
    Frame.deref hframe (h.allocated req hmem)
  have hfind (id : Int) : store'.getRequestById id = store.getRequestById id := by
    rw [getRequestById, hindex, ← getRequestById]
  refine ⟨h.nodup, hid.trans h.requestId, fun i => (hfind _).trans (h.byId i),
    fun req hmem => ?_, fun req hmem => ?_⟩
  · exact Nat.lt_of_lt_of_le (h.allocated req hmem) hframe.next_le
  · rw [hfind, (hsame req hmem).id]
    exact h.id req hmem

/-- The accepted requests are those that the ids from one to the last one name. -/
theorem Numbers.map_some (h : store.Numbers mem order) : order.map some =
    (List.range store.requestId).map fun i => store.getRequestById ((i + 1 : ℕ) : Int) := by
  refine List.ext_getElem? fun i => ?_
  rw [List.getElem?_map, List.getElem?_map, h.requestId]
  by_cases hlt : i < order.length
  · rw [List.getElem?_range hlt, Option.map_some, h.byId, List.getElem?_eq_getElem hlt]
    rfl
  · rw [List.getElem?_eq_none (Nat.not_lt.mp hlt),
      List.getElem?_eq_none (by rw [List.length_range]; exact Nat.not_lt.mp hlt)]
    rfl

/-- A request that is accepted gets the next id. -/
theorem Numbers.accept (h : store.Numbers mem order) {req : Nat} (hreq : req < mem.next)
    (hnew : req ∉ order)
    (hindex : store'.requestsById =
      assign store.requestsById ((store.requestId + 1 : ℕ) : Int) req)
    (hid : store'.requestId = store.requestId + 1) :
    store'.Numbers (mem.modify req ({ · with id := (store.requestId + 1 : ℕ) }))
      (order ++ [req]) := by
  have hfind (id : Int) : store'.getRequestById id =
      if ((store.requestId + 1 : ℕ) : Int) = id then some req else store.getRequestById id := by
    rw [getRequestById, hindex, find_assign, ← getRequestById]
  have hother {q : Nat} (hq : q ∈ order) :
      deref (mem.modify req ({ · with id := (store.requestId + 1 : ℕ) })) q = deref mem q := by
    have hne : req ≠ q := fun heq => hnew (heq ▸ hq)
    simp [deref, Heap.get?_modify, hne]
  obtain ⟨request, hget⟩ := Heap.get?_of_lt_next hreq
  have hown : deref (mem.modify req ({ · with id := (store.requestId + 1 : ℕ) })) req =
      { request with id := (store.requestId + 1 : ℕ) } := by
    simp [deref, Heap.get?_modify, hget]
  have hold {q : Nat} (hq : q ∈ order) : (deref mem q).id ≠ ((store.requestId + 1 : ℕ) : Int) := by
    intro heq
    have hlast := h.byId store.requestId
    rw [← heq, h.id q hq, h.requestId, List.getElem?_eq_none (Nat.le_refl _)] at hlast
    cases hlast
  refine ⟨?_, by rw [hid, h.requestId, List.length_append, List.length_singleton], fun i => ?_,
    List.forall_mem_append.mpr ⟨fun q hq => ?_, ?_⟩,
    List.forall_mem_append.mpr ⟨fun q hq => ?_, ?_⟩⟩
  · rw [← List.concat_eq_append]
    exact h.nodup.concat hnew
  · rw [hfind, h.byId, h.requestId]
    rcases Nat.lt_trichotomy i order.length with hlt | rfl | hgt
    · rw [if_neg (by omega), List.getElem?_append_left hlt]
    · rw [if_pos rfl, List.getElem?_concat_length]
    · rw [if_neg (by omega), List.getElem?_eq_none (by omega),
        List.getElem?_eq_none (by rw [List.length_append, List.length_singleton]; omega)]
  · simpa using h.allocated q hq
  · simpa using hreq
  · rw [hother hq, hfind, if_neg (Ne.symm (hold hq))]
    exact h.id q hq
  · rw [List.forall_mem_singleton, hown, hfind, if_pos rfl]

namespace Recorded

variable {newRequest : Request → Prop}

/-- A datastore that knows nothing. -/
theorem start (env : StoreEnv) (newRequest : Request → Prop) :
    DataStore.Recorded env newRequest {} {} [] where
  numbers := ⟨List.nodup_nil, rfl, fun _ => rfl, List.forall_mem_nil _, List.forall_mem_nil _⟩
  known _ _ h := by cases h
  admits := List.forall_mem_nil _
  stored := List.Perm.refl _
  valid := ⟨List.nodup_nil, List.forall_mem_nil _⟩
  accounted _ := Site.Accounted.start

theorem allocated_siteMap (h : store.Recorded env newRequest mem order)
    (place : Bytes × List Bytes) :
    ∀ sample ∈ store.siteMap place, sample < mem.next := fun sample hmem =>
  h.numbers.allocated sample (h.stored.mem_iff.mp (mem_stored_of_mem_siteMap hmem))

/-- Changes of requests that concern neither their ids nor their issues. -/
theorem objects (h : store.Recorded env newRequest mem order)
    (hentry : Heap.Frame Request.SameEntry mem mem')
    (hattached : Heap.Frame Request.SameAttached mem mem') :
    store.Recorded env newRequest mem' order := by
  refine ⟨h.numbers.of_frame hentry rfl rfl, fun requestId req hknown => ?_, fun req hmem => ?_,
    h.stored, h.valid, fun hblank => ?_⟩
  · obtain ⟨hmem, hid⟩ := h.known requestId req hknown
    have hsame := Frame.deref hentry (h.numbers.allocated req hmem)
    exact ⟨hmem, hsame.id.trans hid⟩
  · have hsame := Frame.deref hentry (h.numbers.allocated req hmem)
    exact (h.admits req hmem).of_sameAsked hsame.asked
  · refine (h.accounted hblank).of_sameIssues (.refl store) (fun _ hnone => hnone)
      fun requestId req hknown issueType => ?_
    have hsame := Frame.deref hattached (h.numbers.allocated req (h.known requestId req hknown).1)
    rw [← (h.accounted hblank).attached requestId req hknown, Request.issuesOf, hsame,
      Request.issuesOf]

/-- Changes of the datastore that leave the requests where they are, and their issues. -/
theorem of_store (h : store.Recorded env newRequest mem order)
    (hstored : store'.stored.Perm store.stored) (hvalid : store'.Valid env)
    (hindex : store'.requestsById = store.requestsById) (hid : store'.requestId = store.requestId)
    (hadmits : ∀ req ∈ order, store.Admits env (deref mem req) → store'.Admits env (deref mem req))
    (hissues : store.SameIssues store') : store'.Recorded env newRequest mem order := by
  have hfind (id : Int) : store'.getRequestById id = store.getRequestById id := by
    rw [getRequestById, hindex, ← getRequestById]
  refine ⟨h.numbers.of_frame (.refl Request.SameEntry.refl mem) hindex hid,
    fun requestId req hknown => h.known requestId req (hfind requestId ▸ hknown),
    fun req hmem => hadmits req hmem (h.admits req hmem), hstored.trans h.stored, hvalid,
    fun hblank => ?_⟩
  refine (h.accounted hblank).of_sameIssues hissues
    (fun requestId hnone => (hfind requestId).symm.trans hnone) fun requestId req hknown => ?_
  exact (h.accounted hblank).attached requestId req ((hfind requestId).symm.trans hknown)

theorem keep (h : store.Recorded env newRequest mem order)
    (hpivots : store'.sitePivots = store.sitePivots)
    (hindex : store'.requestsById = store.requestsById) (hid : store'.requestId = store.requestId)
    (hadmits : ∀ req ∈ order, store.Admits env (deref mem req) → store'.Admits env (deref mem req))
    (hissues : store.SameIssues store') : store'.Recorded env newRequest mem order := by
  refine h.of_store (List.Perm.of_eq ?_) ?_ hindex hid hadmits hissues
  · simp only [DataStore.stored, hpivots]
  · exact ⟨by simpa only [hpivots] using h.valid.keys_nodup,
      by simpa only [hpivots] using h.valid.pivots⟩

/-- The request that an issue is reported for gets it, and no other does. -/
theorem issue (h : store.Recorded env newRequest mem order) (requestId : Int)
    (issue : IssueDetails) :
    (store.addIssueDetails env mem requestId issue).2.2.Recorded env newRequest
      (store.addIssueDetails env mem requestId issue).2.1 order ∧
    ∀ req, req ∉ order → Request.SameAttached (deref mem req)
      (deref (store.addIssueDetails env mem requestId issue).2.1 req) := by
  obtain ⟨_, _, _, hstore⟩ := addIssueDetails_sameButIssues env mem store requestId issue
  have hfilters : store.SameFilters (store.addIssueDetails env mem requestId issue).2.2 := by
    rw [hstore]
    exact ⟨rfl, rfl, rfl⟩
  have houtcome := addIssueDetails_outcome env mem store requestId issue
  generalize store.addIssueDetails env mem requestId issue = result at houtcome hfilters
  cases houtcome with
  | refused store' _ hissues hrequests =>
    refine ⟨h.keep hrequests.sitePivots hrequests.requestsById hrequests.requestId
      (fun _ _ => hfilters.admits) hissues, fun req _ => .refl _⟩
  | stored req store' hreq hadmitted hissues hrequests =>
    obtain ⟨hmem, hid⟩ := h.known requestId req hreq
    have hentry : Heap.Frame Request.SameEntry mem (mem.modify req (·.addIssue issue)) :=
      .modify Request.SameEntry.refl mem req fun _ => ⟨rfl, rfl⟩
    have hfind (id : Int) : store'.getRequestById id = store.getRequestById id := by
      rw [getRequestById, hrequests.requestsById, ← getRequestById]
    refine ⟨⟨?_, fun requestId' req' hknown => ?_, fun req' hmem' => ?_, ?_, ?_, fun hblank => ?_⟩,
      fun q hnot => ?_⟩
    · exact h.numbers.of_frame hentry hrequests.requestsById hrequests.requestId
    · obtain ⟨hmem', hid'⟩ := h.known requestId' req' ((hfind requestId').symm.trans hknown)
      exact ⟨hmem', (Frame.deref hentry (h.numbers.allocated req' hmem')).id.trans hid'⟩
    · have hsame := Frame.deref hentry (h.numbers.allocated req' hmem')
      exact hfilters.admits ((h.admits req' hmem').of_sameAsked hsame.asked)
    · simp only [DataStore.stored, hrequests.sitePivots]
      exact h.stored
    · exact ⟨by simpa only [hrequests.sitePivots] using h.valid.keys_nodup,
        by simpa only [hrequests.sitePivots] using h.valid.pivots⟩
    · refine (h.accounted hblank).recorded hrequests.requestsById hreq hadmitted hissues
        fun requestId' req' hreq' => ?_
      obtain ⟨hmem', hid'⟩ := h.known requestId' req' hreq'
      refine (h.accounted hblank).attached_recorded hreq rfl hissues hreq'
        (h.numbers.allocated req' hmem') ?_
      rintro hne rfl
      exact hne (hid'.symm.trans hid)
    · have hne : req ≠ q := fun heq => hnot (heq ▸ hmem)
      simp [deref, Heap.get?_modify, hne, Request.SameAttached]

/-- The datastore is given a request that it does not have. -/
theorem addRequest {req : Nat} (h : store.Recorded env newRequest mem order)
    (hreq : req < mem.next) (hnew : req ∉ order)
    (hblank : (∀ request, newRequest request → request.issues = []) →
      (deref mem req).issues = []) :
    ∃ added, (∀ q ∈ added, q = req) ∧
      Accepts env newRequest (mem, store) (store.addRequest env mem req).2 order added := by
  rcases addRequest_cases env store mem req with ⟨_, heq⟩ | ⟨_, htakes, heq⟩ | ⟨hscope, htakes, heq⟩
  · rw [heq]
    refine ⟨[], List.forall_mem_nil _, ?_, (List.append_nil _).symm, fun q _ _ => .refl _⟩
    rwa [List.append_nil]
  · rw [heq]
    refine ⟨[], List.forall_mem_nil _, ?_, (List.append_nil _).symm, fun q _ _ => .refl _⟩
    rw [List.append_nil]
    have hstored := placed_stored env store mem req
    rw [htakes, if_neg (by simp)] at hstored
    exact h.of_store hstored (placed_valid h.valid) rfl rfl
      (fun _ _ hin => ⟨hin.valid, hin.host, hin.included, hin.notExcluded⟩)
      (.of_eq rfl rfl rfl)
  · rw [heq]
    have hnone : store.getRequestById ((store.requestId + 1 : ℕ) : Int) = none := by
      rw [h.numbers.byId, h.numbers.requestId, List.getElem?_eq_none (Nat.le_refl _)]
    have hfind (id : Int) :
        ((store.placed env mem req).addRequestToIdMap mem req).2.2.getRequestById
        id = if ((store.requestId + 1 : ℕ) : Int) = id then some req
          else store.getRequestById id := find_assign _ _ _ _
    have hfilters : store.SameFilters
        ((store.placed env mem req).addRequestToIdMap mem req).2.2 := ⟨rfl, rfl, rfl⟩
    have hattached : Heap.Frame Request.SameAttached mem
        ((store.placed env mem req).addRequestToIdMap mem req).2.1 :=
      .modify Request.SameAttached.refl mem req fun _ => rfl
    have hother {q : Nat} (hq : q ∈ order) :
        deref ((store.placed env mem req).addRequestToIdMap mem req).2.1 q = deref mem q := by
      have hne : req ≠ q := fun heq => hnew (heq ▸ hq)
      simp [addRequestToIdMap, deref, Heap.get?_modify, hne]
    have hstored := placed_stored env store mem req
    rw [htakes, if_pos rfl] at hstored
    refine ⟨[req], fun _ => List.mem_singleton.mp, ⟨?_, fun requestId q hknown => ?_,
      List.forall_mem_append.mpr ⟨fun q hq => ?_, ?_⟩, ?_, ?_, fun hall => ?_⟩, rfl,
      fun q hq _ => Frame.deref hattached hq⟩
    · exact h.numbers.accept hreq hnew rfl rfl
    · rw [hfind] at hknown
      split at hknown
      · rename_i hid
        cases hknown
        obtain ⟨request, hget⟩ := Heap.get?_of_lt_next hreq
        refine ⟨List.mem_append_right _ (List.mem_singleton_self req), ?_⟩
        rw [← hid]
        simp [addRequestToIdMap, placed, deref, Heap.get?_modify, hget]
      · obtain ⟨hmem, hid⟩ := h.known requestId q hknown
        exact ⟨List.mem_append_left _ hmem, by rw [hother hmem, hid]⟩
    · rw [hother hq]
      exact hfilters.admits (h.admits q hq)
    · have hasked : Heap.Frame Request.SameAsked mem
          ((store.placed env mem req).addRequestToIdMap mem req).2.1 :=
        .modify Request.SameAsked.refl mem req fun _ => rfl
      rw [List.forall_mem_singleton]
      exact hfilters.admits ((Admits.of_inScope hscope).of_sameAsked (Frame.deref hasked hreq))
    · exact hstored.trans ((h.stored.cons req).trans (List.perm_append_singleton req order).symm)
    · exact ⟨(placed_valid h.valid).keys_nodup, (placed_valid h.valid).pivots⟩
    · have haccounted := h.accounted hall
      refine haccounted.of_sameIssues (.of_eq rfl rfl rfl) (fun requestId hunknown => ?_)
        fun requestId q hknown issueType => ?_
      · rw [hfind] at hunknown
        split at hunknown
        · cases hunknown
        · exact hunknown
      · rw [hfind] at hknown
        split at hknown
        · rename_i hid
          cases hknown
          subst hid
          have hsame :
            (deref ((store.placed env mem req).addRequestToIdMap mem req).2.1 req).issues =
              (deref mem req).issues := Frame.deref hattached hreq
          rw [haccounted.unknown _ hnone, Request.issuesOf, hsame, hblank hall]
          rfl
        · rw [← haccounted.attached requestId q hknown, hother (h.known requestId q hknown).1]

end Recorded

theorem addRequest_keeps (env : StoreEnv) (mem : Heap Request) (store : DataStore) (req : Nat) :
    (store.addRequest env mem req).2.2.crawlQueue = store.crawlQueue ∧
      store.SameFilters (store.addRequest env mem req).2.2 ∧
      (store.addRequest env mem req).2.2.auditQueue = store.auditQueue := by
  rcases addRequest_cases env store mem req with ⟨_, heq⟩ | ⟨_, _, heq⟩ | ⟨_, _, heq⟩
  · rw [heq]
    exact ⟨rfl, .refl store, rfl⟩
  · rw [heq]
    exact ⟨rfl, ⟨rfl, rfl, rfl⟩, rfl⟩
  · rw [heq]
    exact ⟨rfl, ⟨rfl, rfl, rfl⟩, rfl⟩

namespace Grows

variable {newRequest : Request → Prop}

theorem hosts {before after : Heap Request × DataStore} (h : Grows env newRequest before after) :
    Heap.Frame Request.SameHost before.1 after.1 :=
  h.remembers.asked.mono fun _ _ hsame => hsame.host

theorem refl (state : Heap Request × DataStore) : Grows env newRequest state state := by
  refine ⟨.refl state, rfl, .refl _, fun order h => ⟨[], List.forall_mem_nil _, ?_,
    (List.append_nil _).symm, fun req _ _ => .refl _⟩⟩
  rwa [List.append_nil]

theorem trans {a b c : Heap Request × DataStore} (hab : Grows env newRequest a b)
    (hbc : Grows env newRequest b c) : Grows env newRequest a c := by
  refine ⟨hab.remembers.trans hbc.remembers, hbc.crawlQueue.trans hab.crawlQueue,
    hab.filters.trans hbc.filters, fun order h => ?_⟩
  obtain ⟨added, hadded, hmiddle⟩ := hab.accepts order h
  obtain ⟨later, hlater, hlast⟩ := hbc.accepts (order ++ added) hmiddle.recorded
  refine ⟨added ++ later, List.forall_mem_append.mpr ⟨hadded, fun req hmem => ?_⟩, ?_, ?_,
    fun req hreq hnot => ?_⟩
  · exact Nat.le_trans hab.hosts.next_le (hlater req hmem)
  · rw [← List.append_assoc]
    exact hlast.recorded
  · rw [hlast.probeQueue, hmiddle.probeQueue, List.append_assoc]
  · have hstill : req ∉ order ++ added := by
      rw [List.mem_append, not_or]
      exact ⟨hnot, fun hmem => absurd (hadded req hmem) (Nat.not_le.mpr hreq)⟩
    exact Request.SameAttached.trans _ _ _ (hmiddle.unissued req hreq hnot)
      (hlast.unissued req (Nat.lt_of_lt_of_le hreq hab.hosts.next_le) hstill)

/-- A new request is given to the datastore. -/
theorem add (mem : Heap Request) (store : DataStore) {request : Request}
    (hnew : newRequest request) : Grows env newRequest (mem, store)
      (store.addRequest env (mem.alloc request).2 mem.next).2 := by
  obtain ⟨hcrawl, hfilters, _⟩ := addRequest_keeps env (mem.alloc request).2 store mem.next
  have hattached : Heap.Frame Request.SameAttached mem (mem.alloc request).2 :=
    .alloc Request.SameAttached.refl mem request
  refine ⟨?_, hcrawl, hfilters, fun order h => ?_⟩
  · have hmade : Heap.Frame Request.SameAsked mem (mem.alloc request).2 :=
      .alloc Request.SameAsked.refl mem request
    exact (Remembers.objects hmade store).trans (addRequest_remembers env _ store mem.next)
  · have hmade : store.Recorded env newRequest (mem.alloc request).2 order :=
      h.objects (.alloc Request.SameEntry.refl mem request) hattached
    have hfresh : mem.next ∉ order := fun hmem => Nat.lt_irrefl _ (h.numbers.allocated _ hmem)
    have hblank (hall : ∀ request, newRequest request → request.issues = []) :
        (deref (mem.alloc request).2 mem.next).issues = [] := by
      rw [deref, Heap.get?_alloc_next, Option.getD_some]
      exact hall request hnew
    obtain ⟨added, hadded, haccepts⟩ := hmade.addRequest (by simp) hfresh hblank
    refine ⟨added, fun req hmem => (hadded req hmem).ge, haccepts.recorded, haccepts.probeQueue,
      fun req hreq hnot => ?_⟩
    exact Request.SameAttached.trans _ _ _ (Frame.deref hattached hreq)
      (haccepts.unissued req (Nat.lt_of_lt_of_le hreq hattached.next_le) hnot)

theorem record {before after : Heap Request × DataStore} (h : Record env newRequest before after) :
    Grows env newRequest before after := by
  cases h with
  | objects store hentry hattached =>
    refine ⟨.objects (hentry.mono fun _ _ hsame => hsame.asked) store, rfl, .refl _, fun order h =>
      ⟨[], List.forall_mem_nil _, ?_, (List.append_nil _).symm, fun req hreq _ => ?_⟩⟩
    · rw [List.append_nil]
      exact h.objects hentry hattached
    · exact Frame.deref hattached hreq
  | add mem store request hnew => exact add mem store hnew
  | issue mem store requestId issue =>
    obtain ⟨_, _, _, hstore⟩ := addIssueDetails_sameButIssues env mem store requestId issue
    have hframe : Heap.Frame Request.SameAsked mem
        (store.addIssueDetails env mem requestId issue).2.1 := by
      have houtcome := addIssueDetails_outcome env mem store requestId issue
      generalize store.addIssueDetails env mem requestId issue = result at houtcome
      cases houtcome with
      | refused => exact .refl Request.SameAsked.refl mem
      | stored => exact .modify Request.SameAsked.refl mem _ fun _ => rfl
    have hremembers : Remembers env (mem, store)
        (store.addIssueDetails env mem requestId issue).2 := by
      refine (Remembers.objects hframe store).trans (.keep _ ?_ ?_ ?_ ?_)
      all_goals rw [hstore]
      exact fun _ => id
    have hfilters : store.SameFilters (store.addIssueDetails env mem requestId issue).2.2 := by
      rw [hstore]
      exact ⟨rfl, rfl, rfl⟩
    refine ⟨hremembers, by rw [hstore], hfilters, fun order h => ⟨[], List.forall_mem_nil _, ?_,
      by rw [hstore, List.append_nil], fun req _ hnot => (h.issue requestId issue).2 req hnot⟩⟩
    rw [List.append_nil]
    exact (h.issue requestId issue).1
  | @keep mem store store' hrequests hissues hcrawl hfilters =>
    have hremembers : Remembers env (mem, store) (mem, store') :=
      .keep mem hrequests.sitePivots (fun _ hmem => hfilters.allowedHosts.symm ▸ hmem)
        hfilters.urlWhitelistRegexes hfilters.urlBlacklistRegexes
    refine ⟨hremembers, hcrawl, hfilters, fun order h => ⟨[], List.forall_mem_nil _, ?_, ?_,
      fun req _ _ => .refl _⟩⟩
    · rw [List.append_nil]
      exact h.keep hrequests.sitePivots hrequests.requestsById hrequests.requestId
        (fun _ _ => hfilters.admits) hissues
    · rw [hrequests.probeQueue, List.append_nil]

theorem records {before after : Heap Request × DataStore}
    (h : Records env newRequest before after) : Grows env newRequest before after := by
  induction h with
  | refl => exact refl _
  | tail _ hstep ih => exact ih.trans (record hstep)

end Grows

end DataStore

end plusfish

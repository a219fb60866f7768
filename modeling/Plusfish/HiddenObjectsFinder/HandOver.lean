import Plusfish.DataStore.Issues
import Plusfish.HiddenObjectsFinder.Bookkeeping

open memory ordered_map transition

namespace plusfish

/-- The filters let a request through, and its place has room for it and no request that equals
    it. -/
structure DataStore.Welcomes (env : StoreEnv) (store : DataStore) (mem : Heap Request)
    (req : Nat) : Prop where
  inScope : store.inScope env (deref mem req) = true
  room : (store.rootPivot env (deref mem req).host).hasRoom env (deref mem req).place.2 = true
  isNew : ∀ sample ∈ store.siteMap (deref mem req).place,
    (deref mem sample).equals (deref mem req) = false

instance (env : StoreEnv) (store : DataStore) (mem : Heap Request) (req : Nat) :
    Decidable (store.Welcomes env mem req) :=
  decidable_of_iff (store.inScope env (deref mem req) = true ∧
    (store.rootPivot env (deref mem req).host).hasRoom env (deref mem req).place.2 = true ∧
    ∀ sample ∈ store.siteMap (deref mem req).place,
      (deref mem sample).equals (deref mem req) = false)
    ⟨fun h => ⟨h.1, h.2.1, h.2.2⟩, fun h => ⟨h.inScope, h.room, h.isNew⟩⟩

theorem DataStore.welcomes_iff {env : StoreEnv} {store : DataStore} {mem : Heap Request}
    {req : Nat} : store.Welcomes env mem req ↔
      store.inScope env (deref mem req) = true ∧ store.takes env mem req = true := by
  rw [takes_iff]
  constructor
  · rintro ⟨hscope, hroom, hnew⟩
    exact ⟨hscope, hroom, fun sample hsample => by simp [hnew sample hsample]⟩
  · rintro ⟨hscope, hroom, hnew⟩
    exact ⟨hscope, hroom, fun sample hsample => by simpa using hnew sample hsample⟩

namespace Scan

/-- The callback for a completed test request, as it should be: where an object is found,
    `add_request_cb_` is given that request, and the request still exists, in the datastore, when
    its URL is read again. The entry of the request alone is removed. -/
structure HandsOver (env : ScanEnv) (scan : Scan) (req : Nat) (transfer : Option Transfer)
    (next : Scan) : Prop where
  step : scan.finderStep env (.requestCallback req transfer) = some next
  handed : ∀ handed, (scan.finish req transfer).handedOver env req = some handed →
    handed = some req ∧ ∃ id, next.store.getRequestById id = some req
  requests : ∀ url, find next.objectsFinder.requests url =
    if (deref scan.mem req).url = url then none else find scan.objectsFinder.requests url

/-- The completion of a test request is handled as it should be. -/
def Accounts (env : ScanEnv) (scan : Scan) : FinderOp → Prop
  | .requestCallback req transfer => req ∈ scan.testRequests → ∃ next,
    scan.HandsOver env req transfer next
  | _ => True

/-- The test requests that are scheduled are spelled apart, and an object that is found is
    accepted by the datastore. -/
def KeepsBooks (env : ScanEnv) (scan : Scan) : FinderOp → Prop
  | .requestCallback req transfer => req ∈ scan.testRequests →
    (scan.finish req transfer).findsObject env req = true →
      (scan.finish req transfer).store.Welcomes env.store (scan.finish req transfer).mem req
  | op => scan.SchedulesApart env op

instance (env : ScanEnv) (scan : Scan) : (op : FinderOp) → Decidable (scan.KeepsBooks env op)
  | .addUrl _ => .isTrue trivial
  | .scheduleRequests _ => inferInstanceAs (Decidable (SpelledApart ..))
  | .requestCallback .. => inferInstanceAs (Decidable (_ → _ → _))

/-- The datastore refers to requests that exist, and to no test request under way. -/
def StoredApart (scan : Scan) : Prop :=
  ∀ id req, scan.store.getRequestById id = some req →
    req < scan.mem.next ∧ req ∉ scan.testRequests

section
variable {env : ScanEnv} {scan next : Scan}

theorem scheduleTests_storedApart (env : ScanEnv) (amount : Nat) (htidy : scan.TidyTests)
    (hstored : scan.StoredApart) : (scan.scheduleTests env amount).StoredApart := by
  induction amount generalizing scan with
  | zero => exact hstored
  | succ amount ih =>
    rw [scheduleTests]
    split
    · exact hstored
    · rename_i testUrl rest hqueue
      have hpopped : scan.popTestUrl.TidyTests :=
        ⟨htidy.nodup, htidy.allocated, htidy.kept, htidy.keys⟩
      have hoffers := testObject_offersTest env scan.popTestUrl testUrl
      refine ih (hoffers.tidy hpopped) fun id req hfind => ?_
      rw [hoffers.store] at hfind
      obtain ⟨hlt, hnot⟩ := hstored id req hfind
      refine ⟨Nat.lt_trans hlt hoffers.allocated, fun hmem => ?_⟩
      rw [(hoffers.testRequests hpopped.allocated).1] at hmem
      rcases List.mem_append.mp hmem with hold | hnew
      · exact hnot hold
      · split at hnew
        · exact Nat.ne_of_lt hlt (List.mem_singleton.mp hnew)
        · cases hnew

/-- What the datastore has after `AddRequest` it had before, or it is the request that was added,
    which is welcome. -/
theorem addRequest_getRequestById_cases {env : StoreEnv} {mem : Heap Request} {store : DataStore}
    {added req : Nat} {id : Int}
    (h : (store.addRequest env mem added).2.2.getRequestById id = some req) :
    store.getRequestById id = some req ∨ req = added ∧ store.Welcomes env mem added := by
  rcases DataStore.addRequest_cases env store mem added with
    ⟨_, heq⟩ | ⟨_, _, heq⟩ | ⟨hscope, htakes, heq⟩
  · rw [heq] at h
    exact Or.inl h
  · rw [heq] at h
    exact Or.inl h
  · rw [heq] at h
    have hassign : find (assign store.requestsById ((store.requestId + 1 : Nat) : Int) added) id =
      some req := h
    rw [find_assign] at hassign
    split at hassign
    · exact Or.inr ⟨(Option.some.inj hassign).symm, DataStore.welcomes_iff.mpr ⟨hscope, htakes⟩⟩
    · exact Or.inl hassign

theorem finish_store (scan : Scan) (req : Nat) (transfer : Option Transfer) :
    (scan.finish req transfer).store = scan.store := by
  cases transfer <;> rfl

/-- A callback leaves the index of the datastore as it is, or as `AddRequest` leaves it for the
    request of the object that was found. -/
theorem hiddenObjectCallback_index {req : Nat} (h : scan.hiddenObjectCallback env req = some next) :
    (scan.findsObject env req = false ∧ next.store = scan.store) ∨
    (scan.findsObject env req = true ∧ ∃ added,
      find scan.objectsFinder.requests (deref scan.mem req).url = some added ∧
      ∀ id, next.store.getRequestById id =
        (scan.store.addRequest env.store scan.mem added).2.2.getRequestById id) := by
  rcases hiddenObjectCallback_cases env scan req with ⟨hfinds, completed, heq⟩ | ⟨hfinds, heq⟩
  · rw [heq] at h
    cases h
    exact Or.inl ⟨hfinds, rfl⟩
  · rw [heq] at h
    obtain ⟨added, mem, store, mem', store', completed, found, hadded, hadd, hissue, rfl⟩ :=
      addFoundObject_cases h
    refine Or.inr ⟨hfinds, added, hadded, fun id => ?_⟩
    have hindex : store'.requestsById = store.requestsById := by
      rcases hissue with heq | ⟨requestId, issue, heq⟩
      · rw [(Prod.mk.inj heq).2]
      · have houtcome := DataStore.addIssueDetails_outcome env.store mem store requestId issue
        generalize store.addIssueDetails env.store mem requestId issue = result at houtcome heq
        cases houtcome with
        | refused _ _ _ hrequests =>
          cases heq
          exact hrequests.requestsById
        | stored _ _ _ _ _ hrequests =>
          cases heq
          exact hrequests.requestsById
    have hafter : (scan.store.addRequest env.store scan.mem added).2.2 = store :=
      congrArg Prod.snd hadd
    rw [hafter]
    exact congrArg (find · id) hindex

/-- A call of the finder gives the datastore no request that is still under way. -/
theorem finderStep_storedApart {op : FinderOp} (htidy : scan.TidyTests) (hbooks : scan.Bookkept)
    (hstored : scan.StoredApart) (hstep : scan.finderStep env op = some next) :
    next.StoredApart := by
  cases op with
  | addUrl url =>
    cases hstep
    exact hstored
  | scheduleRequests amount =>
    cases hstep
    have hrequests := refill_requests scan.objectsFinder
    exact scheduleTests_storedApart env amount
      ⟨htidy.nodup, htidy.allocated, hrequests ▸ htidy.kept, hrequests ▸ htidy.keys⟩ hstored
  | requestCallback req transfer =>
    simp only [finderStep] at hstep
    split at hstep
    · cases hstep
    · rename_i hreq
      have hreq := not_not.mp hreq
      have hdone := hiddenObjectCallback_testDone htidy hstep hreq
      have hsource {id : Int} {found : Nat} (hfind : next.store.getRequestById id = some found) :
          scan.store.getRequestById id = some found ∨ found = req := by
        rcases hiddenObjectCallback_index hstep with ⟨_, hstore⟩ | ⟨_, added, hadded, hindex⟩
        · rw [hstore, finish_store] at hfind
          exact Or.inl hfind
        · rw [hbooks.find_finish htidy hreq] at hadded
          cases hadded
          rw [hindex] at hfind
          exact (addRequest_getRequestById_cases hfind).imp
            (fun hold => finish_store scan req transfer ▸ hold) And.left
      intro id found hfind
      rw [hdone.testRequests]
      rcases hsource hfind with hold | rfl
      · obtain ⟨hlt, hnot⟩ := hstored id found hold
        exact ⟨Nat.lt_of_lt_of_le hlt hdone.allocated,
          fun hmem => hnot (List.mem_of_mem_erase hmem)⟩
      · have hlt := htidy.allocated found (List.mem_filter.mp hreq).1
        exact ⟨Nat.lt_of_lt_of_le hlt hdone.allocated, fun hmem =>
          (htidy.nodup.mem_erase_iff.mp hmem).1 rfl⟩

/-- The callback is handled as it should be exactly if the object is welcome where one is found. -/
theorem handsOver_iff {req : Nat} {transfer : Option Transfer} (htidy : scan.TidyTests)
    (hbooks : scan.Bookkept) (hstored : scan.StoredApart) (hreq : req ∈ scan.testRequests) :
    (∃ next, scan.HandsOver env req transfer next) ↔
      ((scan.finish req transfer).findsObject env req = true →
        (scan.finish req transfer).store.Welcomes env.store
          (scan.finish req transfer).mem req) := by
  have hentry := hbooks.find_finish htidy hreq transfer
  obtain ⟨next, hstep, hhanded, hrequests⟩ := hbooks.completes env htidy hreq transfer
  have hcallback : (scan.finish req transfer).hiddenObjectCallback env req = some next := by
    simpa [finderStep, hreq] using hstep
  constructor
  · rintro ⟨next', hstep', hhanded', _⟩ hfinds
    cases hstep.symm.trans hstep'
    obtain ⟨_, id, hfind⟩ := hhanded' (some req) (by rw [handedOver, if_pos hfinds, hentry])
    rcases hiddenObjectCallback_index hcallback with ⟨hnot, _⟩ | ⟨_, added, hadded, hindex⟩
    · rw [hfinds] at hnot
      cases hnot
    · rw [hentry] at hadded
      cases hadded
      rw [hindex] at hfind
      rcases addRequest_getRequestById_cases hfind with hold | ⟨_, hwelcomes⟩
      · rw [finish_store] at hold
        exact absurd hreq (hstored id req hold).2
      · exact hwelcomes
  · intro hwelcome
    refine ⟨next, hstep, fun handed hgiven => ⟨hhanded handed hgiven, ?_⟩, hrequests⟩
    rcases hiddenObjectCallback_index hcallback with ⟨hnot, _⟩ | ⟨hfinds, added, hadded, hindex⟩
    · rw [handedOver, hnot] at hgiven
      cases hgiven
    · rw [hentry] at hadded
      cases hadded
      have haccepted := DataStore.addRequest_fst_ne_kInvalidId.mpr
        (DataStore.welcomes_iff.mp (hwelcome hfinds))
      exact ⟨_, (hindex _).trans (addRequest_getRequestById env.store _ _ req haccepted)⟩

/-- A run keeps the books, and handles every completion of a test request as it should, exactly if
    every call of `ScheduleRequests` in it schedules test requests that are spelled as their test
    URLs are, and apart, and the datastore accepts every object that is found. -/
theorem probesAccounted_iff_of_run (env : ScanEnv) {start : Scan} (hstart : start.FreshFinder)
    (hstored : ∀ id req, start.store.getRequestById id = some req → req < start.mem.next)
    (ops : List FinderOp) :
    (∀ before after state, ops = before ++ after →
      transition.run (finderStep env) start before = some state →
        state.Bookkept ∧ ∀ op ∈ after.head?, state.Accounts env op) ↔
    Along (finderStep env) (KeepsBooks env) start ops := by
  have hbooks : start.Bookkept := by
    intro req hreq
    rw [hstart.testRequests] at hreq
    cases hreq
  have hapart : start.StoredApart := fun id req hfind =>
    ⟨hstored id req hfind, hstart.testRequests ▸ List.not_mem_nil⟩
  refine forall_split_iff_along (I := fun scan : Scan => scan.TidyTests ∧ scan.StoredApart)
    (fun state op next h hbooks hstep => ⟨finderStep_tidy h.1 hstep,
      finderStep_storedApart h.1 hbooks h.2 hstep⟩) (fun state op next h hbooks hstep => ?_)
    (fun state op h hbooks hstep => ?_) ⟨hstart.tidy, hapart⟩ hbooks ops
  · rw [finderStep_bookkept h.1 hbooks hstep]
    cases op with
    | addUrl url => exact and_iff_right trivial
    | scheduleRequests amount => exact and_iff_right trivial
    | requestCallback req transfer =>
      exact (and_iff_left trivial).trans
        (forall_congr' fun hreq => handsOver_iff h.1 hbooks h.2 hreq)
  · cases op with
    | addUrl url => cases hstep
    | scheduleRequests amount => cases hstep
    | requestCallback req transfer =>
      exact forall_congr' fun hreq => handsOver_iff h.1 hbooks h.2 hreq

end

/-- A scan of the site that searches for some words. -/
def searchFor (words : List String) : Scan where
  store := { allowedHosts := [ascii "site"] }
  objectsFinder := { wordlist := words.map fun word => (ascii word, false) }

theorem searchFor_fresh (words : List String) : (searchFor words).FreshFinder :=
  ⟨rfl, fun _ h => (List.not_mem_nil h).elim, rfl, rfl, rfl, rfl,
    fun _ h => (List.not_mem_nil h).elim⟩

/-- The directory of a page is searched for two words. There is a page for the first of them. -/
def twoSearches : List FinderOp :=
  [.addUrl (ascii "http://site:80/a"), .scheduleRequests 2, .requestCallback 0 (some {}),
    .requestCallback 1 (some { response := { proto := { codeField := some .notFound } } })]

theorem probesAccounted_iff_of_run_twoSearches :
    (∃ last, transition.run (finderStep pagesEnv) (searchFor ["admin", "old"]) twoSearches =
        some last ∧ last.objectsFinder.numObjectsFound = 1 ∧ last.objectsFinder.requests = []) ∧
    ∀ before after state, twoSearches = before ++ after →
      transition.run (finderStep pagesEnv) (searchFor ["admin", "old"]) before = some state →
        state.Bookkept ∧ ∀ op ∈ after.head?, state.Accounts pagesEnv op :=
  ⟨⟨_, rfl, by decide +kernel, by decide +kernel⟩,
    (probesAccounted_iff_of_run pagesEnv (searchFor_fresh _) (fun _ _ h => by cases h) _).mpr
      (by decide +kernel)⟩

/-- A search on a site of which one page is stored. -/
def searchStored (page : Bytes) (words : List String) : Scan :=
  let added := (searchFor words).store.addRequest pagesEnv.store
    ⟨[Request.ofUrl pagesEnv.request page none]⟩ 0
  { searchFor words with mem := added.2.1, store := added.2.2 }

/-- The request for a word with an empty path segment is kept under a URL that it does not have,
    and its callback gives a null pointer away. A page that is found, but that the datastore has
    already, is destroyed by `AddRequest` before its URL is read to remove its entry. -/
theorem emptySegment_not_accounted :
    (∃ state, transition.run (finderStep pagesEnv) (searchFor ["a//b"])
        [.addUrl (ascii "http://site:80/a"), .scheduleRequests 1] = some state ∧
      state.testRequests = [0] ∧ (deref state.mem 0).url = ascii "http://site:80/a/b" ∧
      keys state.objectsFinder.requests = [ascii "http://site:80/a//b"] ∧
      (state.finish 0 (some {})).handedOver pagesEnv 0 = some none ∧
      ¬ state.Bookkept ∧ ¬ state.Accounts pagesEnv (.requestCallback 0 (some {}))) ∧
    ∃ state, transition.run (finderStep pagesEnv)
        (searchStored (ascii "http://site:80/a") ["a"])
        [.addUrl (ascii "http://site:80/b"), .scheduleRequests 1] = some state ∧
      state.testRequests = [1] ∧ (deref state.mem 1).url = ascii "http://site:80/a" ∧
      (state.finish 1 (some {})).handedOver pagesEnv 1 = some (some 1) ∧
      (state.store.addRequest pagesEnv.store (state.finish 1 (some {})).mem 1).1 = kInvalidId ∧
      ¬ state.Accounts pagesEnv (.requestCallback 1 (some {})) := by
  constructor
  · have hstuck : ((transition.run (finderStep pagesEnv) (searchFor ["a//b"])
        [.addUrl (ascii "http://site:80/a"), .scheduleRequests 1]).bind fun state =>
          state.finderStep pagesEnv (.requestCallback 0 (some {}))).isNone = true := by
      decide +kernel
    have hnone := Option.isNone_iff_eq_none.mp hstuck
    refine ⟨_, rfl, by decide +kernel, by decide +kernel, by decide +kernel, by decide +kernel,
      fun hbooks => ?_, fun haccounts => ?_⟩
    · exact absurd (hbooks 0 (by decide +kernel)) (by decide +kernel)
    · obtain ⟨next, hstep, _⟩ := haccounts (by decide +kernel)
      cases hnone.symm.trans hstep
  · have hindex : ((transition.run (finderStep pagesEnv)
        (searchStored (ascii "http://site:80/a") ["a"])
        [.addUrl (ascii "http://site:80/b"), .scheduleRequests 1]).bind fun state =>
          state.finderStep pagesEnv (.requestCallback 1 (some {}))).map (·.store.requestsById) =
            some [(1, 0)] := by decide +kernel
    refine ⟨_, rfl, by decide +kernel, by decide +kernel, by decide +kernel, by decide +kernel,
      fun haccounts => ?_⟩
    obtain ⟨next, hstep, hhanded, _⟩ := haccounts (by decide +kernel)
    obtain ⟨_, id, hfind⟩ := hhanded (some 1) (by decide +kernel)
    obtain ⟨last, hlast, hstored⟩ := Option.map_eq_some_iff.mp hindex
    cases hstep.symm.trans hlast
    rw [DataStore.getRequestById, hstored] at hfind
    cases List.mem_singleton.mp (mem_of_find hfind)

end Scan

end plusfish

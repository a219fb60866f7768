import Plusfish.DataStore.Issues
import Plusfish.DataStore.Insert

open memory ordered_map

namespace plusfish

def Request.SameUrl (request request' : Request) : Prop := request'.url = request.url

theorem Request.SameUrl.refl (request : Request) : SameUrl request request := rfl

namespace DataStore

/-- A blacklist regex matches the URL. -/
def excludes (env : StoreEnv) (self : DataStore) (url : Bytes) : Bool :=
  self.urlBlacklistRegexes.any fun regex => env.partialMatch url regex

theorem excludes_of_inScope {env : StoreEnv} {self : DataStore} {request : Request}
    (h : self.inScope env request = true) : self.excludes env request.url = false := by
  simp only [inScope, Bool.and_eq_true, Bool.not_eq_true'] at h
  exact h.1.2

/-- An address at which there is no object is not in scope. -/
theorem get?_of_inScope {env : StoreEnv} {self : DataStore} {mem : Heap Request} {req : Nat}
    (h : self.inScope env (deref mem req) = true) : mem.get? req = some (deref mem req) := by
  cases hget : mem.get? req with
  | some request => simp [deref, hget]
  | none =>
    simp only [deref, hget, Option.getD_none, inScope, Bool.and_eq_true] at h
    exact absurd h.2 (by decide)

/-- Every request of the id index exists, and no blacklist regex matches its URL. -/
def Filtered (env : StoreEnv) (mem : Heap Request) (store : DataStore) : Prop :=
  ∀ id req, store.getRequestById id = some req →
    ∃ request, mem.get? req = some request ∧ store.excludes env request.url = false

variable {env : StoreEnv} {mem mem' : Heap Request} {store store' : DataStore}

theorem Filtered.of_frame (h : Filtered env mem store)
    (hframe : Heap.Frame Request.SameUrl mem mem')
    (hindex : store'.requestsById = store.requestsById)
    (hexclude : store'.urlBlacklistRegexes = store.urlBlacklistRegexes) :
    Filtered env mem' store' := by
  intro id req hreq
  obtain ⟨request, hget, hclean⟩ := h id req (by simpa only [getRequestById, hindex] using hreq)
  obtain ⟨request', hget', hurl⟩ := hframe req request hget
  refine ⟨request', hget', ?_⟩
  simp only [excludes, hexclude, show request'.url = request.url from hurl]
  exact hclean

/-- The filter of `AddRequest` guards the id index. -/
theorem Filtered.addRequest (h : Filtered env mem store) (req : Nat) :
    Filtered env (store.addRequest env mem req).2.1 (store.addRequest env mem req).2.2 := by
  rcases addRequest_cases env store mem req with ⟨_, heq⟩ | ⟨_, _, heq⟩ | ⟨hscope, _, heq⟩
  · rw [heq]
    exact h
  · rw [heq]
    exact h
  · rw [heq]
    intro id req' hreq
    have hget : ∃ request, mem.get? req' = some request ∧
        store.excludes env request.url = false := by
      simp only [addRequestToIdMap, addRequestToProbeQueue, getRequestById, find_assign] at hreq
      split at hreq
      · obtain rfl : req = req' := Option.some.inj hreq
        exact ⟨_, get?_of_inScope hscope, excludes_of_inScope hscope⟩
      · exact h id req' hreq
    obtain ⟨request, hget, hclean⟩ := hget
    obtain ⟨request', hget', hurl⟩ := Heap.Frame.modify Request.SameUrl.refl mem req
      (f := ({ · with id := (store.requestId + 1 : Nat) })) (fun _ => rfl) req' request hget
    refine ⟨request', hget', ?_⟩
    rw [hurl]
    exact hclean

theorem addRequest_urlBlacklistRegexes (env : StoreEnv) (mem : Heap Request) (store : DataStore)
    (req : Nat) :
    (store.addRequest env mem req).2.2.urlBlacklistRegexes = store.urlBlacklistRegexes := by
  rcases addRequest_cases env store mem req with ⟨_, heq⟩ | ⟨_, _, heq⟩ | ⟨_, _, heq⟩
  · rw [heq]
  · rw [heq]
    rfl
  · rw [heq]
    rfl

theorem registerIssue_urlBlacklistRegexes (env : StoreEnv) (mem : Heap Request)
    (store : DataStore) (requestId : Int) (req : Nat) (issue : IssueDetails) :
    (store.registerIssue env mem requestId req issue).2.2.urlBlacklistRegexes =
      store.urlBlacklistRegexes := by
  rcases registerIssue_cases env mem store requestId req issue with ⟨_, heq⟩ | ⟨_, heq⟩
  · rw [heq]
  · rw [heq]
    rfl

theorem addIssueDetails_urlBlacklistRegexes (env : StoreEnv) (mem : Heap Request)
    (store : DataStore) (requestId : Int) (issue : IssueDetails) :
    (store.addIssueDetails env mem requestId issue).2.2.urlBlacklistRegexes =
      store.urlBlacklistRegexes := by
  unfold addIssueDetails
  split
  · rfl
  · split
    · rfl
    · split
      · exact registerIssue_urlBlacklistRegexes env mem store requestId _ issue
      · dsimp only
        split_ifs
        · rfl
        · rfl
        · exact registerIssue_urlBlacklistRegexes env mem _ requestId _ issue

/-- The operations on issues change no URL and nothing that the filter uses. -/
theorem Filtered.addIssueDetails (h : Filtered env mem store) (requestId : Int)
    (issue : IssueDetails) :
    Filtered env (store.addIssueDetails env mem requestId issue).2.1
      (store.addIssueDetails env mem requestId issue).2.2 := by
  have hexclude := addIssueDetails_urlBlacklistRegexes env mem store requestId issue
  have houtcome := addIssueDetails_outcome env mem store requestId issue
  generalize store.addIssueDetails env mem requestId issue = result at hexclude houtcome
  cases houtcome with
  | refused store' _ _ hrequests =>
    exact h.of_frame (.refl Request.SameUrl.refl mem) hrequests.requestsById hexclude
  | stored req store' _ _ _ hrequests =>
    exact h.of_frame (.modify Request.SameUrl.refl mem req fun _ => rfl) hrequests.requestsById
      hexclude

end DataStore

end plusfish

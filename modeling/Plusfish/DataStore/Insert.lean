import Mathlib.Logic.Function.Basic
import Plusfish.DataStore
import Plusfish.Pivot.Insert

open memory ordered_map

namespace plusfish

/-- Where a request belongs in the site map: its host and the values of its path. -/
def Request.place (self : Request) : Bytes × List Bytes :=
  (self.host, self.proto.path.map (·.value))

/-- What the pivots are for: the requests kept for each host and path, oldest first. -/
abbrev SiteMap := Bytes × List Bytes → List Nat

/-- A request added at its place. -/
def SiteMap.store (siteMap : SiteMap) (place : Bytes × List Bytes) (req : Nat) : SiteMap :=
  Function.update siteMap place (siteMap place ++ [req])

namespace DataStore

section
variable (env : StoreEnv) (self : DataStore)

/-- The pivot of a host, or the one that a request for the host adds. -/
def rootPivot (name : Bytes) : Pivot := (find self.sitePivots name).getD (Pivot.new env name)

def siteMap : SiteMap := fun place =>
  match find self.sitePivots place.1 with
  | some root => root.samplesAt place.2
  | none => []

/-- The requests stored in the pivots. -/
def stored : List Nat := self.sitePivots.flatMap fun entry => entry.2.stored

/-- The pivots are well formed and stored once and under their own names. -/
structure Valid (env : StoreEnv) (store : DataStore) : Prop where
  keys_nodup : (keys store.sitePivots).Nodup
  pivots : ∀ entry ∈ store.sitePivots, entry.2.Valid env ∧ entry.2.pivotName = entry.1

/-- Whether the filters of `AddRequest` let a request through. -/
def inScope (request : Request) : Bool :=
  self.allowedHosts.contains request.host &&
    !(self.urlWhitelistRegexes.any fun regex => !env.partialMatch request.url regex) &&
    !(self.urlBlacklistRegexes.any fun regex => env.partialMatch request.url regex) &&
    request.urlIsValid

variable (mem : Heap Request) (req : Nat)

/-- Whether the pivots take a request. -/
def takes : Bool :=
  ((self.rootPivot env (deref mem req).host).insert env mem req (deref mem req).place.2).1

/-- The datastore after the pivots were asked to take a request. -/
def placed : DataStore :=
  { self with
    sitePivots := assign self.sitePivots (deref mem req).host
      ((self.rootPivot env (deref mem req).host).insert env mem req (deref mem req).place.2).2 }

end

variable {env : StoreEnv} {self : DataStore} {mem : Heap Request} {req : Nat}

theorem addRequest_eq : self.addRequest env mem req =
    if self.inScope env (deref mem req) then self.addRequestToPivot env mem req
    else (kInvalidId, mem, self) := by
  simp only [addRequest, inScope]
  split_ifs with hhost hwhite hblack hvalid hscope hscope <;> simp_all only [Bool.not_eq_true',
    Bool.false_and, Bool.and_false, Bool.not_true, Bool.not_false, Bool.and_true,
    Bool.false_eq_true, not_true_eq_false, not_false_eq_true, if_true, if_false, Bool.not_eq_false]

theorem addRequestToPivot_eq : self.addRequestToPivot env mem req =
    if self.takes env mem req then (self.placed env mem req).addRequestToIdMap mem req
    else (kInvalidId, mem, self.placed env mem req) := by
  simp only [addRequestToPivot, takes, placed, rootPivot, Request.place]
  rcases Option.eq_none_or_eq_some (find self.sitePivots (deref mem req).host) with
    hroot | ⟨root, hroot⟩
  · simp [assign, hroot, find_emplace hroot, adjust_emplace hroot]
  · simp [assign, hroot]

/-- What `AddRequest` can do: refuse a request at the filters, refuse it in the
    pivots, or store it under the next id. -/
theorem addRequest_cases (env : StoreEnv) (self : DataStore) (mem : Heap Request) (req : Nat) :
    (self.inScope env (deref mem req) = false ∧
      self.addRequest env mem req = (kInvalidId, mem, self)) ∨
    (self.inScope env (deref mem req) = true ∧ self.takes env mem req = false ∧
      self.addRequest env mem req = (kInvalidId, mem, self.placed env mem req)) ∨
    (self.inScope env (deref mem req) = true ∧ self.takes env mem req = true ∧
      self.addRequest env mem req = (self.placed env mem req).addRequestToIdMap mem req) := by
  rw [addRequest_eq, addRequestToPivot_eq]
  cases self.inScope env (deref mem req) <;> cases self.takes env mem req <;> simp

theorem addRequestToIdMap_fst : (self.addRequestToIdMap mem req).1 = self.requestId + 1 := by
  simp [addRequestToIdMap]

theorem addRequest_fst_ne_kInvalidId : (self.addRequest env mem req).1 ≠ kInvalidId ↔
    self.inScope env (deref mem req) = true ∧ self.takes env mem req = true := by
  rcases addRequest_cases env self mem req with
    ⟨hscope, heq⟩ | ⟨hscope, htakes, heq⟩ | ⟨hscope, htakes, heq⟩
  · simp [heq, hscope]
  · simp [heq, htakes]
  · simp only [heq, addRequestToIdMap_fst, hscope, htakes, and_self, iff_true, kInvalidId]
    omega

theorem siteMap_eq (env : StoreEnv) (self : DataStore) (place : Bytes × List Bytes) :
    self.siteMap place = (self.rootPivot env place.1).samplesAt place.2 := by
  unfold siteMap rootPivot
  cases find self.sitePivots place.1 <;> simp

theorem mem_stored_of_mem_siteMap {place : Bytes × List Bytes} (h : req ∈ self.siteMap place) :
    req ∈ self.stored := by
  unfold siteMap at h
  split at h
  · rename_i root hroot
    exact List.mem_flatMap.mpr ⟨_, mem_of_find hroot, Pivot.mem_stored_of_mem_samplesAt h⟩
  · cases h

theorem takes_iff (env : StoreEnv) (self : DataStore) (mem : Heap Request) (req : Nat) :
    self.takes env mem req = true ↔
    (self.rootPivot env (deref mem req).host).hasRoom env (deref mem req).place.2 = true ∧
      ∀ sample ∈ self.siteMap (deref mem req).place,
        ¬ (deref mem sample).equals (deref mem req) := by
  rw [siteMap_eq env]
  exact Pivot.insert_stores_iff _ _

theorem placed_siteMap_apply (name : Bytes) (path : List Bytes) :
    (self.placed env mem req).siteMap (name, path) =
      if self.takes env mem req = true ∧ (name, path) = (deref mem req).place then
        self.siteMap (deref mem req).place ++ [req]
      else self.siteMap (name, path) := by
  have hplace : (deref mem req).place = ((deref mem req).host, (deref mem req).place.2) := rfl
  by_cases hname : name = (deref mem req).host
  · subst hname
    have hafter : (self.placed env mem req).siteMap ((deref mem req).host, path) =
        ((self.rootPivot env (deref mem req).host).insert env mem req
          (deref mem req).place.2).2.samplesAt path := by
      simp [siteMap, placed, find_assign]
    rw [hafter, Pivot.insert_samplesAt, siteMap_eq env, siteMap_eq env, hplace]
    simp only [takes, Prod.mk.injEq, true_and]
  · have hother : (name, path) ≠ (deref mem req).place := by
      intro heq
      exact hname (congrArg Prod.fst heq)
    have hsame : (self.placed env mem req).siteMap (name, path) = self.siteMap (name, path) := by
      simp [siteMap, placed, find_assign, Ne.symm hname]
    rw [hsame, if_neg fun h => hother h.2]

/-- In terms of the site map, the pivots store the request at its place or nothing
    happens. -/
theorem placed_siteMap (env : StoreEnv) (self : DataStore) (mem : Heap Request) (req : Nat) :
    (self.placed env mem req).siteMap =
    if self.takes env mem req then self.siteMap.store (deref mem req).place req
    else self.siteMap := by
  funext place
  obtain ⟨name, path⟩ := place
  rw [placed_siteMap_apply]
  cases self.takes env mem req with
  | true => simp [SiteMap.store, Function.update_apply]
  | false => simp

/-- A place that has requests refuses a request without a trace. -/
theorem placed_of_samples {sample : Nat} (hsample : sample ∈ self.siteMap (deref mem req).place)
    (hrefused : self.takes env mem req = false) : self.placed env mem req = self := by
  have hsame := hsample
  rw [siteMap_eq env] at hsame
  have hinsert := Pivot.insert_of_samples hsame hrefused
  have hroot : find self.sitePivots (deref mem req).host =
      some (self.rootPivot env (deref mem req).host) := by
    cases hfind : find self.sitePivots (deref mem req).host with
    | none =>
      have hnone : find self.sitePivots (deref mem req).place.1 = none := hfind
      rw [siteMap, hnone] at hsample
      cases hsample
    | some root => simp [rootPivot, hfind]
  unfold placed
  have hplace : (deref mem req).place.1 = (deref mem req).host := rfl
  rw [hplace] at hinsert
  rw [hinsert, assign, hroot, Option.isSome_some, if_pos rfl, adjust_self hroot]

theorem rootPivot_valid (hself : self.Valid env) (name : Bytes) :
    (self.rootPivot env name).Valid env ∧ (self.rootPivot env name).pivotName = name := by
  unfold rootPivot
  cases hroot : find self.sitePivots name with
  | none => exact ⟨Pivot.new_valid env name, rfl⟩
  | some root => exact hself.pivots _ (mem_of_find hroot)

theorem placed_valid (hself : self.Valid env) : (self.placed env mem req).Valid env where
  keys_nodup := nodup_keys_assign _ _ hself.keys_nodup
  pivots := by
    intro entry hentry
    obtain ⟨hroot, hname⟩ := rootPivot_valid hself (deref mem req).host
    rcases List.mem_cons.mp ((perm_assign _ _ _).mem_iff.mp hentry) with rfl | hrest
    · exact ⟨Pivot.insert_valid hroot _, (Pivot.insert_pivotName _ _).trans hname⟩
    · exact hself.pivots entry (mem_of_mem_erase hrest)

theorem placed_stored (env : StoreEnv) (self : DataStore) (mem : Heap Request) (req : Nat) :
    (self.placed env mem req).stored.Perm
    (if self.takes env mem req then req :: self.stored else self.stored) := by
  have hafter := perm_flatMap_assign self.sitePivots (deref mem req).host
    ((self.rootPivot env (deref mem req).host).insert env mem req (deref mem req).place.2).2
    fun entry => entry.2.stored
  have hinsert := Pivot.insert_stored env mem req
    (self.rootPivot env (deref mem req).host) (deref mem req).place.2
  have hroot : (self.rootPivot env (deref mem req).host).stored =
      ((find self.sitePivots (deref mem req).host).map (·.stored)).getD [] := by
    unfold rootPivot
    cases find self.sitePivots (deref mem req).host <;> simp
  have hbefore := perm_flatMap_find self.sitePivots (deref mem req).host fun entry => entry.2.stored
  rw [← hroot] at hbefore
  refine hafter.trans ((hinsert.append_right _).trans ?_)
  unfold takes
  split
  · exact hbefore.symm.cons req
  · exact hbefore.symm

end DataStore

end plusfish

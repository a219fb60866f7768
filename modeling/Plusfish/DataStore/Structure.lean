import Mathlib.Data.List.Count
import Plusfish.DataStore.Acceptance
import Plusfish.DataStore.Operations

open memory ordered_map transition

namespace plusfish

namespace Site

/-- The pivots, the id index and the probe queue, each given by the history of the
    accepted requests alone. -/
structure Coherent (env : StoreEnv) (site : Site) : Prop where
  requestId : site.store.requestId = site.accepted.length
  ids : site.accepted.map Prod.fst =
    (List.range site.accepted.length).map fun n : Nat => (n : Int) + 1
  allocated : ∀ entry ∈ site.accepted, entry.2 < site.mem.next
  distinct : (site.accepted.map Prod.snd).Nodup
  idOf : ∀ entry ∈ site.accepted, (deref site.mem entry.2).id = entry.1
  requestsById : ∀ id, find site.store.requestsById id = find site.accepted id
  siteMap : ∀ place, site.store.siteMap place =
    (site.accepted.map Prod.snd).filter fun req => (deref site.mem req).place = place
  stored : site.store.stored.Perm (site.accepted.map Prod.snd)
  valid : site.store.Valid env
  probes : site.probed ++ site.store.probeQueue = site.accepted.map Prod.snd

/-- What the datastore promises about the requests it has accepted. -/
structure WellStructured (env : StoreEnv) (site : Site) : Prop where
  /-- The ids handed out are 1, 2, and so on. -/
  ids : site.accepted.map Prod.fst =
    (List.range site.accepted.length).map fun n : Nat => (n : Int) + 1
  byId : ∀ id req, site.store.getRequestById id = some req ↔
    req ∈ site.store.stored ∧ (deref site.mem req).id = id
  storedOnce : ∀ entry ∈ site.accepted, site.store.stored.count entry.2 = 1
  /-- An accepted request is in the pivot that its path leads to from the pivot of
      its host. -/
  located : ∀ entry ∈ site.accepted, ∃ root,
    find site.store.sitePivots (deref site.mem entry.2).host = some root ∧
      entry.2 ∈ root.samplesAt ((deref site.mem entry.2).proto.path.map (·.value))
  named : ∀ entry ∈ site.store.sitePivots, entry.2.pivotName = entry.1 ∧
    ∀ node ∈ entry.2.nodes, ∀ child ∈ node.children, child.2.pivotName = child.1
  limited : ∀ entry ∈ site.store.sitePivots, ∀ node ∈ entry.2.nodes,
    (node.children.length : Int) ≤ env.pivotChildLimit.toInt ∧
      (node.reqSamples.length : Int) ≤ env.pivotRequestLimit.toInt
  probes : site.probed ++ site.store.probeQueue = site.accepted.map Prod.snd

section
variable {env : StoreEnv} {site site' : Site}

theorem Coherent.start : Coherent env {} where
  requestId := rfl
  ids := rfl
  allocated := fun _ h => by cases h
  distinct := List.nodup_nil
  idOf := fun _ h => by cases h
  requestsById := fun _ => rfl
  siteMap := fun _ => rfl
  stored := List.Perm.refl _
  valid := ⟨List.nodup_nil, fun _ h => by cases h⟩
  probes := rfl

theorem Coherent.id_le (hsite : Coherent env site) {entry : Int × Nat}
    (hentry : entry ∈ site.accepted) : entry.1 ≤ site.store.requestId := by
  have hmem : entry.1 ∈ site.accepted.map Prod.fst := List.mem_map_of_mem hentry
  rw [hsite.ids] at hmem
  obtain ⟨n, hn, heq⟩ := List.mem_map.mp hmem
  have hlt := List.mem_range.mp hn
  rw [← heq, hsite.requestId]
  omega

theorem Coherent.find_next (hsite : Coherent env site) :
    find site.accepted ((site.store.requestId + 1 : Nat) : Int) = none := by
  apply find_eq_none_iff.mpr
  intro hmem
  obtain ⟨entry, hentry, heq⟩ := List.mem_map.mp hmem
  have hle := hsite.id_le hentry
  omega

theorem Coherent.keeps (hsite : Coherent env site) (hkeeps : Keeps env site site') :
    Coherent env site' := by
  have hrecord (entry : Int × Nat) (hentry : entry ∈ site.accepted) :
      (deref site.mem entry.2).SameRecord (deref site'.mem entry.2) :=
    Frame.deref hkeeps.mem (hsite.allocated entry hentry)
  refine ⟨?_, ?_, ?_, ?_, ?_, ?_, ?_, ?_, hkeeps.valid hsite.valid, ?_⟩
  · rw [hkeeps.requestId, hkeeps.accepted, hsite.requestId]
  · rw [hkeeps.accepted, hsite.ids]
  · rw [hkeeps.accepted]
    intro entry hentry
    obtain ⟨request, hget⟩ := Heap.get?_of_lt_next (hsite.allocated entry hentry)
    obtain ⟨request', hget', _⟩ := hkeeps.mem entry.2 request hget
    exact Heap.lt_next_of_get? hget'
  · rw [hkeeps.accepted]
    exact hsite.distinct
  · rw [hkeeps.accepted]
    intro entry hentry
    rw [(hrecord entry hentry).id, hsite.idOf entry hentry]
  · intro id
    rw [hkeeps.requestsById, hkeeps.accepted, hsite.requestsById]
  · intro place
    rw [hkeeps.siteMap, hsite.siteMap, hkeeps.accepted]
    apply List.filter_congr
    intro req hreq
    obtain ⟨entry, hentry, rfl⟩ := List.mem_map.mp hreq
    rw [(hrecord entry hentry).place]
  · rw [hkeeps.accepted]
    exact hkeeps.stored.trans hsite.stored
  · rw [hkeeps.probes, hkeeps.accepted, hsite.probes]

theorem Coherent.accepts (hsite : Coherent env site) {fresh : FreshRequest}
    (haccepts : Accepts env site fresh site') : Coherent env site' := by
  have hrecord (entry : Int × Nat) (hentry : entry ∈ site.accepted) :
      (deref site.mem entry.2).SameRecord (deref site'.mem entry.2) :=
    Frame.deref haccepts.mem (hsite.allocated entry hentry)
  have hnew := deref_of_get? haccepts.new
  have hnotOld : site.mem.next ∉ site.accepted.map Prod.snd := by
    intro hmem
    obtain ⟨entry, hentry, heq⟩ := List.mem_map.mp hmem
    have hlt := hsite.allocated entry hentry
    omega
  refine ⟨?_, ?_, ?_, ?_, ?_, ?_, ?_, ?_, haccepts.valid hsite.valid, ?_⟩
  · rw [haccepts.requestId, haccepts.accepted, hsite.requestId, List.length_append]
    rfl
  · rw [haccepts.accepted, List.map_append, hsite.ids, List.length_append, List.length_singleton,
      List.range_succ, List.map_append, hsite.requestId]
    rfl
  · rw [haccepts.accepted]
    intro entry hentry
    rcases List.mem_append.mp hentry with hold | hlast
    · obtain ⟨request, hget⟩ := Heap.get?_of_lt_next (hsite.allocated entry hold)
      obtain ⟨request', hget', _⟩ := haccepts.mem entry.2 request hget
      exact Heap.lt_next_of_get? hget'
    · cases List.mem_singleton.mp hlast
      exact Heap.lt_next_of_get? haccepts.new
  · rw [haccepts.accepted, List.map_append]
    exact hsite.distinct.append (List.nodup_singleton _)
      (List.disjoint_singleton.mpr hnotOld)
  · rw [haccepts.accepted]
    intro entry hentry
    rcases List.mem_append.mp hentry with hold | hlast
    · rw [(hrecord entry hold).id, hsite.idOf entry hold]
    · cases List.mem_singleton.mp hlast
      rw [hnew]
  · intro id
    rw [haccepts.requestsById, haccepts.accepted, find_assign, hsite.requestsById,
      find_append_singleton hsite.find_next]
  · intro place
    rw [haccepts.siteMap, haccepts.accepted, List.map_append, List.filter_append]
    have hold : (site.accepted.map Prod.snd).filter
        (fun req => (deref site'.mem req).place = place) = site.store.siteMap place := by
      rw [hsite.siteMap]
      apply List.filter_congr
      intro req hreq
      obtain ⟨entry, hentry, rfl⟩ := List.mem_map.mp hreq
      rw [(hrecord entry hentry).place]
    rw [hold]
    have hplace : (deref site'.mem site.mem.next).place = fresh.request.place := by
      rw [hnew]
      rfl
    by_cases heq : place = fresh.request.place
    · subst heq
      simp [SiteMap.store, hplace]
    · simp [SiteMap.store, heq, hplace, Ne.symm heq]
  · rw [haccepts.accepted, List.map_append]
    exact haccepts.stored.trans
      ((hsite.stored.cons _).trans (List.perm_append_singleton _ _).symm)
  · rw [haccepts.probes, hsite.probes, haccepts.accepted, List.map_append]
    rfl

theorem Coherent.step {op : StoreOp} (hsite : Coherent env site)
    (hstep : site.step env op = some site') : Coherent env site' := by
  cases step_outcome hstep with
  | kept hkeeps _ _ _ => exact hsite.keeps hkeeps
  | accepted fresh haccepts _ _ => exact hsite.accepts haccepts
  | issued _ _ _ _ hkeeps _ _ _ _ => exact hsite.keeps hkeeps

theorem Coherent.of_reachable (hreach : Reachable (Site.step env) {} site) : Coherent env site :=
  hreach.invariant Coherent.start fun _ _ _ hsite hstep => hsite.step hstep

theorem Coherent.getRequestById_iff (hsite : Coherent env site) {id : Int} {req : Nat} :
    site.store.getRequestById id = some req ↔ (id, req) ∈ site.accepted := by
  have hkeys : (keys site.accepted).Nodup := by
    rw [keys, hsite.ids]
    refine List.Nodup.map (fun a b hab => ?_) List.nodup_range
    omega
  rw [DataStore.getRequestById, hsite.requestsById]
  exact ⟨mem_of_find, find_of_mem hkeys⟩

theorem Coherent.mem_stored_iff (hsite : Coherent env site) {req : Nat} :
    req ∈ site.store.stored ↔ ∃ id, (id, req) ∈ site.accepted := by
  rw [hsite.stored.mem_iff, List.mem_map]
  constructor
  · rintro ⟨⟨id, _⟩, hentry, rfl⟩
    exact ⟨id, hentry⟩
  · rintro ⟨id, hentry⟩
    exact ⟨(id, req), hentry, rfl⟩

theorem Coherent.mem_siteMap (hsite : Coherent env site) {entry : Int × Nat}
    (hentry : entry ∈ site.accepted) :
    entry.2 ∈ site.store.siteMap (deref site.mem entry.2).place := by
  rw [hsite.siteMap]
  exact List.mem_filter.mpr ⟨List.mem_map_of_mem hentry, by simp⟩

end

/-- After any calls, the host map, the pivots, the id index and the probe queue are
    those of the requests accepted so far. -/
theorem wellStructured_of_reachable {env : StoreEnv}
    (hchild : 0 ≤ env.pivotChildLimit.toInt) (hrequest : 0 ≤ env.pivotRequestLimit.toInt)
    {site : Site} (hreach : Reachable (step env) {} site) : WellStructured env site := by
  have hsite := Coherent.of_reachable hreach
  refine ⟨hsite.ids, fun id req => ?_, fun entry hentry => ?_, fun entry hentry => ?_,
    fun entry hentry => ?_, fun entry hentry node hnode => ?_, hsite.probes⟩
  · rw [hsite.getRequestById_iff, hsite.mem_stored_iff]
    constructor
    · exact fun hentry => ⟨⟨id, hentry⟩, hsite.idOf _ hentry⟩
    · rintro ⟨⟨id', hentry⟩, rfl⟩
      rw [hsite.idOf _ hentry]
      exact hentry
  · rw [hsite.stored.count_eq]
    exact List.count_eq_one_of_mem hsite.distinct (List.mem_map_of_mem hentry)
  · have hmem := hsite.mem_siteMap hentry
    unfold DataStore.siteMap at hmem
    split at hmem
    · rename_i root hroot
      exact ⟨root, hroot, hmem⟩
    · cases hmem
  · obtain ⟨hvalid, hname⟩ := hsite.valid.pivots entry hentry
    exact ⟨hname, fun node hnode => (hvalid node hnode).named⟩
  · have hwell := (hsite.valid.pivots entry hentry).1 node hnode
    have hchildren := hwell.children_le
    have hsamples := hwell.samples_le
    rw [hwell.childLimit] at hchildren
    rw [hwell.templateLimit] at hsamples
    have hchild' := sizeT_of_nonneg hchild
    have hrequest' := sizeT_of_nonneg hrequest
    exact ⟨by omega, by omega⟩

/-- A request is offered twice, and the second time refused. -/
def shopCalls : List StoreOp :=
  [.addHost (ascii "site"), .addRequest ⟨shopRequest, rfl⟩, .addRequest ⟨shopRequest, rfl⟩,
    .getRequestFromProbeQueue]

theorem wellStructured_of_reachable_shop :
    ∃ site, run (step StoreEnv.literal) {} shopCalls = some site ∧ site.accepted = [(1, 0)] ∧
      WellStructured StoreEnv.literal site :=
  ⟨_, rfl, by decide, wellStructured_of_reachable (by decide) (by decide) ⟨shopCalls, rfl⟩⟩

end Site

end plusfish

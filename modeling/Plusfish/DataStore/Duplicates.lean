import Mathlib.Data.List.Pairwise
import Mathlib.Data.List.Perm.Lattice
import Plusfish.DataStore.Structure

open memory ordered_map transition

namespace plusfish

/-- The names of a list of fields. -/
def fieldNames (fields : List HttpRequest.RequestField) : List Bytes := fields.map (·.name)

theorem dedup_append_self (names : List Bytes) : (names ++ names).dedup.Perm names.dedup := by
  apply (List.perm_ext_iff_of_nodup (List.nodup_dedup _) (List.nodup_dedup _)).mpr
  intro name
  simp

/-- Fields that have the same names in the same order pass as equal exactly if no name
    is repeated. -/
theorem fieldNamesEqual_iff_nodup {one two : List HttpRequest.RequestField}
    (h : fieldNames one = fieldNames two) :
    fieldNamesEqual one two = true ↔ (fieldNames one).Nodup := by
  have hlength : one.length = two.length := by simpa [fieldNames] using congrArg List.length h
  have hdedup : (one.map (·.name) ++ two.map (·.name)).dedup.length =
      (fieldNames one).dedup.length := by
    have hnames : two.map (·.name) = one.map (·.name) := h.symm
    rw [hnames]
    exact (dedup_append_self _).length_eq
  have hsize : one.length = (fieldNames one).length := by simp [fieldNames]
  simp only [fieldNamesEqual, hlength, ne_eq, not_true_eq_false, if_false, beq_iff_eq]
  rw [hdedup, ← hlength, hsize]
  constructor
  · intro heq
    exact List.dedup_eq_self.mp ((List.dedup_sublist _).eq_of_length heq)
  · intro hnodup
    rw [List.dedup_eq_self.mpr hnodup]

theorem fieldNamesEqual_comm (one two : List HttpRequest.RequestField) :
    fieldNamesEqual one two = fieldNamesEqual two one := by
  by_cases hlength : one.length = two.length
  · have hperm : (one.map (·.name) ++ two.map (·.name)).dedup.Perm
        (two.map (·.name) ++ one.map (·.name)).dedup := List.perm_append_comm.dedup
    simp only [fieldNamesEqual, hlength, hperm.length_eq, ne_eq, not_true_eq_false, if_false]
  · simp [fieldNamesEqual, hlength, Ne.symm hlength]

theorem length_of_fieldNamesEqual {one two : List HttpRequest.RequestField}
    (h : fieldNamesEqual one two = true) : one.length = two.length := by
  by_contra hne
  simp [fieldNamesEqual, hne] at h

namespace Request

theorem equals_iff {self ref : Request} : self.equals ref = true ↔
    self.proto.ssl = ref.proto.ssl ∧ self.proto.method = ref.proto.method ∧
      self.proto.host = ref.proto.host ∧ self.proto.port = ref.proto.port ∧
      fieldNamesEqual self.proto.param ref.proto.param = true ∧
      fieldNamesEqual self.proto.bodyParam ref.proto.bodyParam = true ∧
      self.proto.path.map (·.value) = ref.proto.path.map (·.value) := by
  unfold equals
  constructor
  · intro h
    split at h
    · rename_i hfields
      obtain ⟨hssl, hmethod, hhost, hport, _⟩ := hfields
      split at h
      · cases h
      · rename_i hnames
        simp only [Bool.or_eq_true, Bool.not_eq_true', not_or, Bool.not_eq_false] at hnames
        exact ⟨hssl, hmethod, hhost, hport, hnames.1, hnames.2, eq_of_beq h⟩
    · cases h
  · rintro ⟨hssl, hmethod, hhost, hport, hparam, hbody, hpath⟩
    have hlength : self.proto.path.length = ref.proto.path.length := by
      simpa using congrArg List.length hpath
    simp [hssl, hmethod, hhost, hport, hparam, hbody, hpath, hlength,
      length_of_fieldNamesEqual hparam, length_of_fieldNamesEqual hbody]

theorem equals_comm (a b : Request) : a.equals b = b.equals a := by
  rw [Bool.eq_iff_iff, equals_iff, equals_iff, fieldNamesEqual_comm a.proto.param,
    fieldNamesEqual_comm a.proto.bodyParam]
  constructor
  · rintro ⟨hssl, hmethod, hhost, hport, hparam, hbody, hpath⟩
    exact ⟨hssl.symm, hmethod.symm, hhost.symm, hport.symm, hparam, hbody, hpath.symm⟩
  · rintro ⟨hssl, hmethod, hhost, hport, hparam, hbody, hpath⟩
    exact ⟨hssl.symm, hmethod.symm, hhost.symm, hport.symm, hparam, hbody, hpath.symm⟩

/-- No parameter name is repeated, neither in the query nor in the body. -/
def DistinctNames (self : Request) : Prop :=
  (fieldNames self.proto.param).Nodup ∧ (fieldNames self.proto.bodyParam).Nodup

/-- The requests have the same method, URL and body parameters. -/
def SameSpelling (a b : Request) : Prop :=
  a.proto.method = b.proto.method ∧ a.url = b.url ∧ a.proto.bodyParam = b.proto.bodyParam

/-- The requests have the same scheme, host, port and names of query parameters. -/
def SameFields (a b : Request) : Prop :=
  a.proto.ssl = b.proto.ssl ∧ a.proto.host = b.proto.host ∧ a.proto.port = b.proto.port ∧
    fieldNames a.proto.param = fieldNames b.proto.param

theorem equals_of_sameFields {a b : Request} (hplace : a.place = b.place)
    (hspelling : a.SameSpelling b) (hfields : a.SameFields b) :
    a.equals b = true ↔ a.DistinctNames := by
  obtain ⟨hmethod, _, hbody⟩ := hspelling
  obtain ⟨hssl, hhost, hport, hparam⟩ := hfields
  have hpath : a.proto.path.map (·.value) = b.proto.path.map (·.value) := congrArg Prod.snd hplace
  have hnames : fieldNames a.proto.bodyParam = fieldNames b.proto.bodyParam := by rw [hbody]
  rw [equals_iff, fieldNamesEqual_iff_nodup hparam, fieldNamesEqual_iff_nodup hnames]
  simp [hmethod, hssl, hhost, hport, hpath, DistinctNames]

/-- A copy of a request: what the constructor makes of the request's message. -/
def copy (renv : RequestEnv) (self : Request) : Request := ofProto renv self.proto

theorem copy_proto (renv : RequestEnv) (self : Request) :
    ∃ header url, (self.copy renv).proto = { self.proto with header, urlField := some url } := by
  refine ⟨(self.copy renv).proto.header, (self.copy renv).url, ?_⟩
  simp only [copy, ofProto, buildUrl, prepareHeaders, setHeader]

theorem copy_place (renv : RequestEnv) (self : Request) : (self.copy renv).place = self.place := by
  obtain ⟨header, url, hproto⟩ := copy_proto renv self
  simp only [place, host, hproto]
  rfl

theorem equals_copy (renv : RequestEnv) (self other : Request) :
    other.equals (self.copy renv) = other.equals self := by
  obtain ⟨header, url, hproto⟩ := copy_proto renv self
  unfold equals
  rw [hproto]
  rfl

/-- A request equals itself exactly if it repeats no parameter name. -/
theorem equals_self_iff (self : Request) : self.equals self = true ↔ self.DistinctNames :=
  equals_of_sameFields rfl ⟨rfl, rfl, rfl⟩ ⟨rfl, rfl, rfl, rfl⟩

end Request

namespace Site

/-- No request equals one stored before it in the same pivot. -/
def SamplesDiffer (site : Site) : Prop := ∀ place, (site.store.siteMap place).Pairwise fun a b =>
  ¬ (deref site.mem a).equals (deref site.mem b)

/-- No two requests of one place have the same method, URL and body parameters. -/
def SpellingsDiffer (site : Site) : Prop := ∀ place, (site.store.siteMap place).Pairwise fun a b =>
  ¬ (deref site.mem a).SameSpelling (deref site.mem b)

section
variable {env : StoreEnv} {site site' : Site}

theorem Coherent.of_mem_siteMap (hsite : Coherent env site) {place : Bytes × List Bytes}
    {req : Nat} (h : req ∈ site.store.siteMap place) :
    req < site.mem.next ∧ (deref site.mem req).place = place ∧ ∃ id, (id, req) ∈ site.accepted := by
  rw [hsite.siteMap] at h
  obtain ⟨hmem, hplace⟩ := List.mem_filter.mp h
  obtain ⟨entry, hentry, rfl⟩ := List.mem_map.mp hmem
  exact ⟨hsite.allocated entry hentry, by simpa using hplace, entry.1, hentry⟩

theorem deref_alloc {mem : Heap Request} {p : Nat} (hp : p < mem.next) (request : Request) :
    deref (mem.alloc request).2 p = deref mem p := by
  have hne : p ≠ mem.next := Nat.ne_of_lt hp
  simp [deref, Heap.get?_alloc, hne]

/-- A relation between the spellings of requests holds between any two requests of one
    place if it holds between each new one and those there before it. -/
theorem Coherent.pairwise_step (hsite : Coherent env site) {op : StoreOp}
    (hstep : site.step env op = some site') {R : Request → Request → Prop}
    (hR : ∀ a a' b b', a'.url = a.url → a'.proto = a.proto → b'.url = b.url →
      b'.proto = b.proto → R a b → R a' b')
    (hnew : ∀ fresh, op = .addRequest fresh → site.store.inScope env fresh.request = true →
      ∀ sample ∈ site.store.siteMap fresh.request.place,
        ¬ (deref site.mem sample).equals fresh.request → R (deref site.mem sample) fresh.request)
    (hpair : ∀ place, (site.store.siteMap place).Pairwise fun a b =>
      R (deref site.mem a) (deref site.mem b)) (place : Bytes × List Bytes) :
    (site'.store.siteMap place).Pairwise fun a b => R (deref site'.mem a) (deref site'.mem b) := by
  have hold (hframe : Heap.Frame Request.SameRecord site.mem site'.mem) :
      (site.store.siteMap place).Pairwise fun a b =>
        R (deref site'.mem a) (deref site'.mem b) := by
    refine (hpair place).imp_of_mem fun {a b} ha hb hab => ?_
    have hrecord := Frame.deref hframe (hsite.of_mem_siteMap ha).1
    have hrecord' := Frame.deref hframe (hsite.of_mem_siteMap hb).1
    exact hR _ _ _ _ hrecord.url hrecord.proto hrecord'.url hrecord'.proto hab
  cases step_outcome hstep with
  | kept hkeeps _ _ _ =>
    rw [hkeeps.siteMap]
    exact hold hkeeps.mem
  | issued _ _ _ _ hkeeps _ _ _ _ =>
    rw [hkeeps.siteMap]
    exact hold hkeeps.mem
  | accepted fresh haccepts _ _ =>
    rw [haccepts.siteMap]
    by_cases heq : place = fresh.request.place
    · subst heq
      rw [SiteMap.store, Function.update_self]
      refine List.pairwise_append.mpr ⟨hold haccepts.mem, List.pairwise_singleton _ _, ?_⟩
      intro sample hsample last hlast
      cases List.mem_singleton.mp hlast
      have hlt := (hsite.of_mem_siteMap hsample).1
      have hdiffers := haccepts.differs sample hsample
      rw [deref_alloc hlt] at hdiffers
      have hrecord := Frame.deref haccepts.mem hlt
      rw [deref_of_get? haccepts.new]
      exact hR _ _ fresh.request _ hrecord.url hrecord.proto rfl rfl
        (hnew fresh rfl haccepts.inScope sample hsample hdiffers)
    · rw [SiteMap.store, Function.update_of_ne heq]
      exact hold haccepts.mem

theorem Coherent.samplesDiffer_step (hsite : Coherent env site) (hdiffer : site.SamplesDiffer)
    {op : StoreOp} (hstep : site.step env op = some site') : site'.SamplesDiffer := by
  refine hsite.pairwise_step hstep (R := fun a b => ¬ a.equals b) ?_ (fun _ _ _ _ _ h => h) hdiffer
  intro a a' b b' _ hproto _ hproto' hab
  unfold Request.equals at hab ⊢
  rwa [hproto, hproto']

/-- The pivots take a copy of a stored request exactly if the request repeats a parameter
    name, and there is room. -/
theorem Coherent.takes_copy_iff (hsite : Coherent env site) (hdiffer : site.SamplesDiffer)
    (renv : RequestEnv) {entry : Int × Nat} (hentry : entry ∈ site.accepted) :
    site.store.takes env (site.mem.alloc ((deref site.mem entry.2).copy renv)).2
        site.mem.next = true ↔
      (site.store.rootPivot env (deref site.mem entry.2).host).hasRoom env
        (deref site.mem entry.2).place.2 = true ∧ ¬ (deref site.mem entry.2).DistinctNames := by
  have hcopy : deref (site.mem.alloc ((deref site.mem entry.2).copy renv)).2 site.mem.next =
      (deref site.mem entry.2).copy renv := by simp [deref]
  have hplace := Request.copy_place renv (deref site.mem entry.2)
  have hhost : ((deref site.mem entry.2).copy renv).host = (deref site.mem entry.2).host :=
    congrArg Prod.fst hplace
  have hmem := hsite.mem_siteMap hentry
  have hsamples (sample : Nat) (h : sample ∈ site.store.siteMap (deref site.mem entry.2).place) :
      (deref (site.mem.alloc ((deref site.mem entry.2).copy renv)).2 sample).equals
        ((deref site.mem entry.2).copy renv) =
          (deref site.mem sample).equals (deref site.mem entry.2) := by
    rw [deref_alloc (hsite.of_mem_siteMap h).1, Request.equals_copy]
  rw [DataStore.takes_iff, hcopy, hplace, hhost]
  apply and_congr_right
  intro _
  constructor
  · intro hnew hnames
    apply hnew entry.2 hmem
    rw [hsamples entry.2 hmem]
    exact (Request.equals_self_iff _).mpr hnames
  · intro hnames sample h hequals
    rw [hsamples sample h] at hequals
    -- Among the samples of the place, only the request itself can equal the copy.
    by_cases hsame : sample = entry.2
    · subst hsame
      exact hnames ((Request.equals_self_iff _).mp hequals)
    · have hsymm : Std.Symm fun a b => ¬ (deref site.mem a).equals (deref site.mem b) :=
        ⟨fun a b hab => by rwa [Request.equals_comm]⟩
      exact absurd hequals ((hdiffer _).forall h hmem hsame)

/-- A copy of a stored request is refused without a trace exactly if the request
    repeats no parameter name, or the copy is refused for a reason of its own. -/
theorem Coherent.copy_refused_iff (hsite : Coherent env site) (hdiffer : site.SamplesDiffer)
    (renv : RequestEnv) {entry : Int × Nat} (hentry : entry ∈ site.accepted) :
    site.store.addRequest env (site.mem.alloc ((deref site.mem entry.2).copy renv)).2
        site.mem.next =
      (kInvalidId, (site.mem.alloc ((deref site.mem entry.2).copy renv)).2, site.store) ↔
    (deref site.mem entry.2).DistinctNames ∨
      site.store.inScope env ((deref site.mem entry.2).copy renv) = false ∨
      (site.store.rootPivot env (deref site.mem entry.2).host).hasRoom env
        (deref site.mem entry.2).place.2 = false := by
  have hcopy : deref (site.mem.alloc ((deref site.mem entry.2).copy renv)).2 site.mem.next =
      (deref site.mem entry.2).copy renv := by simp [deref]
  have htakes := hsite.takes_copy_iff hdiffer renv hentry
  rw [DataStore.addRequest_eq, DataStore.addRequestToPivot_eq, hcopy]
  cases hscope : site.store.inScope env ((deref site.mem entry.2).copy renv) with
  | false => simp
  | true =>
    cases hstores : site.store.takes env
      (site.mem.alloc ((deref site.mem entry.2).copy renv)).2 site.mem.next with
    | true =>
      obtain ⟨hroom, hnames⟩ := htakes.mp hstores
      have hid : ((site.store.placed env
          (site.mem.alloc ((deref site.mem entry.2).copy renv)).2 site.mem.next).addRequestToIdMap
            (site.mem.alloc ((deref site.mem entry.2).copy renv)).2 site.mem.next).1 ≠
              kInvalidId := by
        rw [DataStore.addRequestToIdMap_fst, kInvalidId]
        omega
      simp only [if_true, hnames, hroom, Bool.true_eq_false, or_self, iff_false]
      exact fun heq => hid (congrArg Prod.fst heq)
    | false =>
      have hmem : entry.2 ∈ site.store.siteMap
          (deref (site.mem.alloc ((deref site.mem entry.2).copy renv)).2 site.mem.next).place := by
        rw [hcopy, Request.copy_place]
        exact hsite.mem_siteMap hentry
      rw [DataStore.placed_of_samples hmem hstores]
      simp only [if_true, Bool.false_eq_true, if_false, true_iff, Bool.true_eq_false, false_or]
      by_contra hnot
      obtain ⟨hnames, hroom⟩ := not_or.mp hnot
      have hstored := htakes.mpr ⟨by simpa using hroom, hnames⟩
      rw [hstores] at hstored
      cases hstored

theorem Coherent.sample_of_node (hsite : Coherent env site) {root : Bytes × Pivot}
    (hroot : root ∈ site.store.sitePivots) {node : Pivot} (hnode : node ∈ root.2.nodes) :
    ∃ place, site.store.siteMap place = node.reqSamples := by
  obtain ⟨path, hpath⟩ :=
    Pivot.exists_samplesAt_of_mem_nodes (hsite.valid.pivots root hroot).1 hnode
  have hfind : find site.store.sitePivots root.1 = some root.2 :=
    find_of_mem hsite.valid.keys_nodup hroot
  exact ⟨(root.1, path), by simp only [DataStore.siteMap, hfind, hpath]⟩

end

/-- A call that does not hand over, within the scope, a request with a repeated
    parameter name, nor one whose method, URL and body parameters are those of a stored
    request of its place that has them from another scheme, host or port, or from other
    query parameters. -/
def DistinguishableStep (env : StoreEnv) (site : Site) (op : StoreOp) : Prop :=
  ∀ fresh, op = .addRequest fresh → site.store.inScope env fresh.request = true →
    fresh.request.DistinctNames ∧ ∀ sample ∈ site.store.siteMap fresh.request.place,
      (deref site.mem sample).SameSpelling fresh.request →
        (deref site.mem sample).SameFields fresh.request

/-- Every copy of an accepted request is refused and leaves the state as it is, and no
    two requests of one pivot have the same method, URL and body parameters. -/
structure FreeOfDuplicates (env : StoreEnv) (renv : RequestEnv) (site : Site) : Prop where
  copyRefused : ∀ entry ∈ site.accepted,
    site.store.addRequest env (site.mem.alloc ((deref site.mem entry.2).copy renv)).2
        site.mem.next =
      (kInvalidId, (site.mem.alloc ((deref site.mem entry.2).copy renv)).2, site.store)
  spellingsDiffer : ∀ root ∈ site.store.sitePivots, ∀ node ∈ root.2.nodes,
    node.reqSamples.Pairwise fun a b => ¬ (deref site.mem a).SameSpelling (deref site.mem b)

/-- What distinguishable steps keep, apart from what all steps do. -/
structure Distinguished (env : StoreEnv) (site : Site) : Prop where
  coherent : Coherent env site
  samples : site.SamplesDiffer
  names : ∀ entry ∈ site.accepted, (deref site.mem entry.2).DistinctNames
  spellings : site.SpellingsDiffer

theorem Distinguished.step {env : StoreEnv} {site site' : Site} (hsite : Distinguished env site)
    {op : StoreOp} (hop : site.DistinguishableStep env op) (hstep : site.step env op = some site') :
    Distinguished env site' := by
  refine ⟨hsite.coherent.step hstep, hsite.coherent.samplesDiffer_step hsite.samples hstep, ?_,
    hsite.coherent.pairwise_step hstep (R := fun a b => ¬ a.SameSpelling b) ?_ ?_ hsite.spellings⟩
  · have hold (hframe : Heap.Frame Request.SameRecord site.mem site'.mem) :
        ∀ entry ∈ site.accepted, (deref site'.mem entry.2).DistinctNames := by
      intro entry hentry
      have hrecord := Frame.deref hframe (hsite.coherent.allocated entry hentry)
      unfold Request.DistinctNames
      rw [hrecord.proto]
      exact hsite.names entry hentry
    cases step_outcome hstep with
    | kept hkeeps _ _ _ =>
      rw [hkeeps.accepted]
      exact hold hkeeps.mem
    | issued _ _ _ _ hkeeps _ _ _ _ =>
      rw [hkeeps.accepted]
      exact hold hkeeps.mem
    | accepted fresh haccepts _ _ =>
      rw [haccepts.accepted]
      intro entry hentry
      rcases List.mem_append.mp hentry with hmem | hlast
      · exact hold haccepts.mem entry hmem
      · cases List.mem_singleton.mp hlast
        rw [deref_of_get? haccepts.new]
        exact (hop fresh rfl haccepts.inScope).1
  · intro a a' b b' hurl hproto hurl' hproto' hab
    unfold Request.SameSpelling at hab ⊢
    rwa [hurl, hproto, hurl', hproto']
  · intro fresh hfresh hscope sample hsample hdiffers hspelling
    obtain ⟨hnames, hfields⟩ := hop fresh hfresh hscope
    obtain ⟨_, hplace, id, hentry⟩ := hsite.coherent.of_mem_siteMap hsample
    have hequals := Request.equals_of_sameFields hplace hspelling (hfields sample hsample hspelling)
    exact hdiffers (hequals.mpr (hsite.names (id, sample) hentry))

/-- Along a run of distinguishable steps, the datastore stays free of duplicates. -/
theorem freeOfDuplicates_of_run {env : StoreEnv} {ops : List StoreOp} {site : Site}
    (halong : Along (step env) (DistinguishableStep env) {} ops)
    (hrun : run (step env) {} ops = some site) (renv : RequestEnv) :
    FreeOfDuplicates env renv site := by
  have hstart : Distinguished env {} :=
    ⟨Coherent.start, fun _ => List.Pairwise.nil, (fun _ h => by cases h),
      fun _ => List.Pairwise.nil⟩
  have hsite : Distinguished env site :=
    run_preserves_along (fun _ _ _ hsite hop hstep => hsite.step hop hstep) hstart halong hrun
  refine ⟨fun entry hentry => ?_, fun root hroot node hnode => ?_⟩
  · exact (hsite.coherent.copy_refused_iff hsite.samples renv hentry).mpr
      (Or.inl (hsite.names entry hentry))
  · obtain ⟨place, hplace⟩ := hsite.coherent.sample_of_node hroot hnode
    rw [← hplace]
    exact hsite.spellings place

/-- A request with these parameters. -/
def listingRequest (fields : List (String × String)) : Request :=
  Request.ofProto (RequestEnv.single (ascii "site"))
    { hostField := some (ascii "site")
      portField := some 80
      param := fields.map fun (name, value) =>
        { nameField := some (ascii name), valueField := some (ascii value) } }

/-- Two requests of one place, with two parameters and with one. -/
def listings : List StoreOp :=
  [.addHost (ascii "site"), .addRequest ⟨listingRequest [("id", "1"), ("sort", "id")], rfl⟩,
    .addRequest ⟨listingRequest [("page", "1")], rfl⟩]

theorem freeOfDuplicates_of_run_shop : ∃ site, run (step StoreEnv.literal) {} listings = some site ∧
    site.store.siteMap (listingRequest []).place = [0, 1] ∧
    FreeOfDuplicates StoreEnv.literal (RequestEnv.single (ascii "site")) site := by
  have halong : Along (step StoreEnv.literal) (DistinguishableStep StoreEnv.literal) {}
      listings := by
    refine ⟨(fun fresh h => by cases h), fun _ h => ?_⟩
    cases h
    refine ⟨fun fresh h _ => ?_, fun _ h => ?_⟩
    · cases h
      exact ⟨⟨by decide, by decide⟩, fun sample hsample => by cases hsample⟩
    · cases h
      refine ⟨fun fresh h _ => ?_, fun _ _ => trivial⟩
      cases h
      refine ⟨⟨by decide, by decide⟩, fun sample hsample hspelling => ?_⟩
      cases List.mem_singleton.mp hsample
      exact absurd hspelling.2.1 (by decide)
  exact ⟨_, rfl, by decide, freeOfDuplicates_of_run halong rfl _⟩

/-- A request with one parameter twice. -/
def repeatedRequest : Request :=
  Request.ofProto (RequestEnv.single (ascii "site"))
    { hostField := some (ascii "site")
      portField := some 80
      param :=
        [{ nameField := some (ascii "id"), valueField := some (ascii "1") },
          { nameField := some (ascii "id"), valueField := some (ascii "2") }] }

/-- The request with the repeated parameter is stored again when its copy is added, and
    its pivot then holds the same method, URL and body parameters twice. -/
theorem repeatedRequest_stored_twice : ∃ site site',
    run (step StoreEnv.literal) {} [.addHost (ascii "site"), .addRequest ⟨repeatedRequest, rfl⟩] =
      some site ∧ site.accepted = [(1, 0)] ∧
    ¬ FreeOfDuplicates StoreEnv.literal (RequestEnv.single (ascii "site")) site ∧
    site.step StoreEnv.literal (.addRequest
      ⟨(deref site.mem 0).copy (RequestEnv.single (ascii "site")), rfl⟩) = some site' ∧
    site'.accepted = [(1, 0), (2, 1)] ∧
    site'.store.siteMap repeatedRequest.place = [0, 1] ∧
    (deref site'.mem 0).SameSpelling (deref site'.mem 1) := by
  refine ⟨_, _, rfl, by decide, fun hfree => ?_, rfl, by decide, by decide,
    by decide, by decide, by decide⟩
  have hrefused := hfree.copyRefused (1, 0) (by decide)
  exact absurd (congrArg Prod.fst hrefused) (by decide)

end Site

end plusfish

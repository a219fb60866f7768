import Plusfish.DataStore.Structure

open memory ordered_map keyed_tree transition

namespace plusfish

/-- A `ReporterInterface`, whose reporters have states of type `ρ`. The config is only passed on. -/
structure ReporterInterface (SecurityCheckConfig ρ : Type) where
  reportSecurityConfig : SecurityCheckConfig → ρ → ρ
  reportPivot : Pivot → Nat → ρ → ρ

variable {SecurityCheckConfig ρ : Type}
  (reporterInterface : ReporterInterface SecurityCheckConfig ρ)

namespace Pivot

mutual

/-- `Pivot::Report`, called on a reporter that was just given the pivot at the depth. -/
def report : Pivot → Nat → ρ → ρ
  | ⟨_, _, _, children, _⟩, depth, reporter => reportChildren children (depth + 1) reporter

def reportChildren : List (Bytes × Pivot) → Nat → ρ → ρ
  | [], _, reporter => reporter
  | child :: children, depth, reporter =>
    reportChildren children depth (reportChild child depth reporter)

def reportChild : Bytes × Pivot → Nat → ρ → ρ
  | (_, pivot), depth, reporter =>
    report pivot depth (reporterInterface.reportPivot pivot depth reporter)

end

end Pivot

namespace DataStore

def report (self : DataStore) (reporters : List ρ) : List ρ :=
  self.sitePivots.foldl (fun reporters entry => reporters.map fun reporter =>
    entry.2.report reporterInterface 1 (reporterInterface.reportPivot entry.2 1 reporter)) reporters

/-- The pivot at a place: the one that the path leads to from the root pivot of the host. -/
def pivotAt (self : DataStore) (place : Bytes × List Bytes) : Option Pivot :=
  (find self.sitePivots place.1).bind fun root => Pivot.tree.follow root place.2

/-- The pivots of the site map, each with its place, in the order of the reports. -/
def visits (self : DataStore) : List ((Bytes × List Bytes) × Pivot) :=
  self.sitePivots.flatMap fun entry =>
    (Pivot.tree.visits entry.2).map fun visit => ((entry.1, visit.1), visit.2)

end DataStore

/-- `Plusfish::Report`. -/
def Plusfish.report (datastore : DataStore) (reporters : List ρ) (config : SecurityCheckConfig) :
    Bool × List ρ :=
  if reporters = [] then (false, reporters)
  else
    (true, datastore.report reporterInterface
      (reporters.map (reporterInterface.reportSecurityConfig config)))

variable {reporterInterface}

namespace Pivot

theorem reportChildren_eq (children : List (Bytes × Pivot)) (depth : Nat) (reporter : ρ) :
    reportChildren reporterInterface children depth reporter =
      children.foldl (fun reporter child => child.2.report reporterInterface depth
        (reporterInterface.reportPivot child.2 depth reporter)) reporter := by
  induction children generalizing reporter with
  | nil => rfl
  | cons child children ih =>
    obtain ⟨name, pivot⟩ := child
    rw [reportChildren, ih, reportChild, List.foldl_cons]

/-- `Pivot::Report` gives the reporter the pivots below this one, in the order of the visits. -/
theorem report_eq (self : Pivot) (depth : Nat) (reporter : ρ) :
    self.report reporterInterface depth reporter =
      (tree.visitsOf self.children).foldl (fun reporter visit =>
        reporterInterface.reportPivot visit.2 (depth + visit.1.length) reporter) reporter := by
  induction self using tree.induction generalizing depth reporter with
  | h self ih =>
    have hreport : self.report reporterInterface depth reporter =
        reportChildren reporterInterface self.children (depth + 1) reporter := by
      cases self
      rw [report]
    rw [hreport, reportChildren_eq, KeyedTree.visitsOf, List.foldl_flatMap]
    refine List.foldl_ext _ _ _ fun reporter child hchild => ?_
    rw [ih child hchild, List.foldl_map, KeyedTree.visits_eq, List.foldl_cons]
    have hdepth (length : Nat) : depth + 1 + length = depth + (length + 1) := by omega
    simp only [List.length_cons, List.length_nil, hdepth]
    rfl

theorem nodes_eq_visits (self : Pivot) : self.nodes = (tree.visits self).map Prod.snd := by
  induction self using tree.induction with
  | h self ih =>
    rw [nodes_eq, KeyedTree.visits_eq, List.map_cons, KeyedTree.visitsOf, List.map_flatMap]
    congr 1
    refine List.flatMap_congr fun child hchild => ?_
    rw [ih child hchild, List.map_map]
    rfl

theorem Valid.distinct {env : StoreEnv} {self : Pivot} (hvalid : self.Valid env) :
    tree.Distinct self := by
  intro visit hvisit
  have hnode : visit.2 ∈ self.nodes := by
    rw [nodes_eq_visits]
    exact List.mem_map_of_mem hvisit
  exact (hvalid visit.2 hnode).keys_nodup

end Pivot

namespace DataStore

/-- The reports of all pivots, made one after the other to each of the reporters. -/
theorem report_eq (self : DataStore) (reporters : List ρ) :
    self.report reporterInterface reporters = reporters.map fun reporter =>
      self.visits.foldl (fun reporter visit =>
        reporterInterface.reportPivot visit.2 (1 + visit.1.2.length) reporter) reporter := by
  unfold report visits
  induction self.sitePivots generalizing reporters with
  | nil => simp
  | cons entry entries ih =>
    rw [List.foldl_cons, ih, List.map_map]
    refine List.map_congr_left fun reporter _ => ?_
    rw [List.flatMap_cons, List.foldl_append, Function.comp_apply, Pivot.report_eq,
      List.foldl_map, KeyedTree.visits_eq, List.foldl_cons]
    rfl

variable {self : DataStore} {env : StoreEnv}

theorem visits_map_cons (self : DataStore) :
    self.visits.map (fun visit => (visit.1.1 :: visit.1.2, visit.2)) =
      Pivot.tree.visitsOf self.sitePivots := by
  rw [visits, KeyedTree.visitsOf, List.map_flatMap]
  refine List.flatMap_congr fun entry _ => ?_
  rw [List.map_map]
  rfl

/-- The visits are the places that have a pivot, each with its pivot. -/
theorem mem_visits_iff (hvalid : self.Valid env) {place : Bytes × List Bytes} {pivot : Pivot} :
    (place, pivot) ∈ self.visits ↔ self.pivotAt place = some pivot := by
  have hdistinct (entry : Bytes × Pivot) (hentry : entry ∈ self.sitePivots) :
      Pivot.tree.Distinct entry.2 := (hvalid.pivots entry hentry).1.distinct
  rw [visits, pivotAt, List.mem_flatMap, Option.bind_eq_some_iff]
  constructor
  · rintro ⟨entry, hentry, hmem⟩
    obtain ⟨visit, hvisit, heq⟩ := List.mem_map.mp hmem
    cases heq
    exact ⟨entry.2, find_of_mem hvalid.keys_nodup hentry,
      (KeyedTree.mem_visits_iff (hdistinct entry hentry)).mp hvisit⟩
  · rintro ⟨root, hfind, hfollow⟩
    have hentry := mem_of_find hfind
    refine ⟨_, hentry, List.mem_map.mpr ⟨(place.2, pivot), ?_, rfl⟩⟩
    exact (KeyedTree.mem_visits_iff (hdistinct _ hentry)).mpr hfollow

/-- A later visit is never to the place of an earlier one, or to a place above it. -/
theorem visits_pairwise (hvalid : self.Valid env) :
    self.visits.Pairwise fun v w => ¬ (w.1.1 :: w.1.2) <+: (v.1.1 :: v.1.2) := by
  have hpairwise := KeyedTree.visitsOf_pairwise hvalid.keys_nodup fun entry hentry =>
    KeyedTree.visits_pairwise (hvalid.pivots entry hentry).1.distinct
  rw [← visits_map_cons, List.pairwise_map] at hpairwise
  exact hpairwise

theorem visits_nodup (hvalid : self.Valid env) : (self.visits.map Prod.fst).Nodup := by
  refine List.pairwise_map.mpr ((visits_pairwise hvalid).imp fun {v w} hnot heq => hnot ?_)
  exact ⟨[], by rw [heq, List.append_nil]⟩

/-- The parent of a pivot is visited before it. -/
theorem parent_mem_visits (hvalid : self.Valid env) {host name : Bytes} {path : List Bytes}
    {pivot : Pivot} {before after : List ((Bytes × List Bytes) × Pivot)}
    (hsplit : self.visits = before ++ ((host, path ++ [name]), pivot) :: after) :
    ∃ parent, ((host, path), parent) ∈ before := by
  have hvisit : ((host, path ++ [name]), pivot) ∈ self.visits := by
    rw [hsplit]
    exact List.mem_append_right _ List.mem_cons_self
  obtain ⟨root, hroot, hfollow⟩ := Option.bind_eq_some_iff.mp ((mem_visits_iff hvalid).mp hvisit)
  rw [KeyedTree.follow_append] at hfollow
  obtain ⟨parent, hparent, _⟩ := Option.bind_eq_some_iff.mp hfollow
  have hmem : ((host, path), parent) ∈ self.visits :=
    (mem_visits_iff hvalid).mpr (Option.bind_eq_some_iff.mpr ⟨root, hroot, hparent⟩)
  have hpairwise := visits_pairwise hvalid
  rw [hsplit] at hmem hpairwise
  rcases List.mem_append.mp hmem with hbefore | hrest
  · exact ⟨parent, hbefore⟩
  · -- The parent is neither the pivot itself nor visited after it.
    rcases List.mem_cons.mp hrest with heq | hafter
    · have hlength := congrArg (fun visit => visit.1.2.length) heq
      simp at hlength
    · have hlater := (List.pairwise_append.mp hpairwise).2.1
      refine absurd ?_ ((List.pairwise_cons.mp hlater).1 _ hafter)
      exact ⟨[name], rfl⟩

theorem visits_reqSamples (self : DataStore) :
    self.visits.flatMap (fun visit => visit.2.reqSamples) = self.stored := by
  rw [visits, stored, List.flatMap_assoc]
  refine List.flatMap_congr fun entry _ => ?_
  rw [Pivot.stored, Pivot.nodes_eq_visits, List.flatMap_map, List.flatMap_map]

end DataStore

namespace Site

/-- Each reporter is given every pivot exactly once, with its depth and after its parent, and so
    every stored request. -/
structure ReportsEachOnce (site : Site) (visits : List ((Bytes × List Bytes) × Pivot)) : Prop where
  /-- Whatever the reporters are, each is given the pivots of the visits, one after the other. -/
  given : ∀ {SecurityCheckConfig ρ : Type}
    (reporterInterface : ReporterInterface SecurityCheckConfig ρ) (reporters : List ρ),
    site.store.report reporterInterface reporters = reporters.map fun reporter =>
      visits.foldl (fun reporter visit =>
        reporterInterface.reportPivot visit.2 (1 + visit.1.2.length) reporter) reporter
  complete : ∀ place pivot, (place, pivot) ∈ visits ↔ site.store.pivotAt place = some pivot
  once : (visits.map Prod.fst).Nodup
  parents : ∀ before host path name pivot after,
    visits = before ++ ((host, path ++ [name]), pivot) :: after →
      ∃ parent, ((host, path), parent) ∈ before
  requests : ∀ entry ∈ site.accepted,
    (visits.flatMap fun visit => visit.2.reqSamples).count entry.2 = 1
  accepted : ∀ req ∈ visits.flatMap fun visit => visit.2.reqSamples,
    ∃ id, (id, req) ∈ site.accepted

/-- After any calls, a report gives each reporter every pivot, and every request, once. -/
theorem reportsEachOnce_of_reachable {env : StoreEnv} {site : Site}
    (hreach : Reachable (step env) {} site) : ReportsEachOnce site site.store.visits := by
  have hsite := Coherent.of_reachable hreach
  refine ⟨fun _ reporters => site.store.report_eq reporters,
    fun _ _ => DataStore.mem_visits_iff hsite.valid, DataStore.visits_nodup hsite.valid,
    fun _ _ _ _ _ _ hsplit => DataStore.parent_mem_visits hsite.valid hsplit,
    fun entry hentry => ?_, fun req hreq => ?_⟩
  · rw [DataStore.visits_reqSamples, hsite.stored.count_eq]
    exact List.count_eq_one_of_mem hsite.distinct (List.mem_map_of_mem hentry)
  · rw [DataStore.visits_reqSamples] at hreq
    exact hsite.mem_stored_iff.mp hreq

theorem reportsEachOnce_of_reachable_shop :
    ∃ site, run (step StoreEnv.literal) {} shopCalls = some site ∧ site.accepted = [(1, 0)] ∧
      ReportsEachOnce site site.store.visits :=
  ⟨_, rfl, by decide, reportsEachOnce_of_reachable ⟨shopCalls, rfl⟩⟩

end Site

end plusfish

import Mathlib.Algebra.BigOperators.Group.List.Basic
import Plusfish.DataStore.Insert
import Plusfish.DataStore.Issues

open memory ordered_map

namespace plusfish

theorem Request.equals_congr {self self' ref ref' : Request} (hself : self'.proto = self.proto)
    (href : ref'.proto = ref.proto) : self'.equals ref' = self.equals ref := by
  unfold Request.equals
  rw [hself, href]

namespace Pivot

/-- The number of pivots and of request samples in a tree. -/
def size (self : Pivot) : Nat := self.nodes.length + self.stored.length

/-- Whether the walk along a path ends without adding anything: at a pivot that does not take
    the request, or at one that does not take a child pivot for it. -/
def turnsAway (env : StoreEnv) (mem : Heap Request) (req : Nat) : Pivot → List Bytes → Bool
  | self, [] => (self.addRequest mem req).isNone
  | self, name :: names =>
    match self.getChildPivot name with
    | some next => next.turnsAway env mem req names
    | none => (self.addChildPivot (new env name)).isNone

section
variable {env : StoreEnv} {mem : Heap Request} {req : Nat}

theorem size_eq (self : Pivot) : self.size =
    1 + self.reqSamples.length + (self.children.map fun child => child.2.size).sum := by
  have hsum : (self.children.map fun child => child.2.size).sum =
      (self.children.map fun child => child.2.nodes.length).sum +
        (self.children.map fun child => child.2.stored.length).sum := by
    rw [← List.sum_map_add]
    rfl
  rw [size, nodes_eq, stored_eq, hsum, List.length_cons, List.length_append, List.length_flatMap,
    List.length_flatMap]
  omega

theorem size_pos (self : Pivot) : 0 < self.size := by
  rw [size_eq]
  omega

theorem withChild_size {self next : Pivot} {name : Bytes} (h : self.getChildPivot name = some next)
    (next' : Pivot) : (self.withChild name next').size + next.size = self.size + next'.size := by
  obtain ⟨hbefore, hafter⟩ := perm_adjust h (fun _ => next')
  have hself := (hbefore.map fun child => child.2.size).sum_nat
  have hchanged := (hafter.map fun child => child.2.size).sum_nat
  rw [size_eq self, size_eq (self.withChild name next')]
  simp only [withChild, List.map_cons, List.sum_cons] at hself hchanged ⊢
  omega

theorem addChildPivot_size {self added : Pivot} {name : Bytes}
    (h : self.addChildPivot (new env name) = some added) : added.size = self.size + 1 := by
  obtain ⟨_, hmissing, rfl⟩ := addChildPivot_eq_some.mp h
  have hperm := ((perm_emplace hmissing (new env name)).map fun child => child.2.size).sum_nat
  have hnew : (new env name).size = 1 := by rw [size_eq]; rfl
  have hname : (new env name).pivotName = name := rfl
  rw [size_eq, size_eq self]
  simp only [hname, List.map_cons, List.sum_cons, hnew] at hperm ⊢
  omega

theorem addRequest_size {self added : Pivot} (h : self.addRequest mem req = some added) :
    added.size = self.size + 1 := by
  obtain ⟨_, _, rfl⟩ := addRequest_eq_some.mp h
  rw [size_eq, size_eq self]
  simp only [List.length_append, List.length_singleton]
  omega

/-- An insertion that is turned away changes nothing, and any other adds to the tree. -/
theorem insert_turnsAway (self : Pivot) (path : List Bytes) :
    if self.turnsAway env mem req path then self.insert env mem req path = (false, self)
    else self.size < (self.insert env mem req path).2.size := by
  apply insert_induction (P := fun self path result =>
    if self.turnsAway env mem req path then result = (false, self)
    else self.size < result.2.size)
  · intro self
    cases hadd : self.addRequest mem req with
    | none => simp [turnsAway, hadd]
    | some added => simp [turnsAway, hadd, addRequest_size hadd]
  · intro self name names next result hchild ih
    simp only [turnsAway, hchild]
    split at ih
    · rename_i haway
      rw [if_pos haway, ih, withChild_self hchild]
    · rename_i haway
      have hsize := withChild_size hchild result.2
      rw [if_neg haway]
      omega
  · intro self name names hchild hadd
    simp [turnsAway, hchild, hadd]
  · intro self name names added result hchild hadd ih
    have hsize := addChildPivot_size hadd
    have haway : self.turnsAway env mem req (name :: names) = false := by
      simp [turnsAway, hchild, hadd]
    rw [haway, if_neg Bool.false_ne_true]
    split at ih
    · simp only [ih]
      omega
    · omega

/-- Only the messages of the requests matter. -/
theorem turnsAway_congr {mem' : Heap Request}
    (hproto : ∀ p, (deref mem' p).proto = (deref mem p).proto) (self : Pivot) (path : List Bytes) :
    self.turnsAway env mem' req path = self.turnsAway env mem req path := by
  induction path generalizing self with
  | nil =>
    have hequals (sample : Nat) : (deref mem' sample).equals (deref mem' req) =
        (deref mem sample).equals (deref mem req) := Request.equals_congr (hproto _) (hproto _)
    simp only [turnsAway, addRequest, hequals]
  | cons name names ih =>
    simp only [turnsAway]
    cases self.getChildPivot name with
    | none => rfl
    | some next => exact ih next

end

end Pivot

namespace DataStore


section
variable (env : StoreEnv) (mem : Heap Request) (self : DataStore) (req : Nat)

/-- Whether the pivots that are there turn a request away. -/
def turnsAway : Bool :=
  match find self.sitePivots (deref mem req).host with
  | some root => root.turnsAway env mem req (deref mem req).place.2
  | none => false

/-- Whether `AddRequest` has no effect: a filter holds the request back, or the pivots turn it
    away. -/
def ignores : Bool := !self.inScope env (deref mem req) || self.turnsAway env mem req

/-- The number of pivots and of request samples of all hosts. -/
def size : Nat := (self.sitePivots.map fun entry => entry.2.size).sum

end

variable {env : StoreEnv} {mem : Heap Request} {self : DataStore} {req : Nat}

theorem placed_size : (self.placed env mem req).size +
    ((find self.sitePivots (deref mem req).host).map (·.size)).getD 0 =
    self.size + ((self.rootPivot env (deref mem req).host).insert env mem req
      (deref mem req).place.2).2.size := by
  have hafter := ((perm_assign self.sitePivots (deref mem req).host
    ((self.rootPivot env (deref mem req).host).insert env mem req
      (deref mem req).place.2).2).map fun entry => entry.2.size).sum_nat
  simp only [List.map_cons, List.sum_cons] at hafter
  have hsize : (self.placed env mem req).size = _ := hafter
  rw [hsize, size]
  cases hroot : find self.sitePivots (deref mem req).host with
  | none =>
    rw [erase_of_find_eq_none hroot, Option.map_none, Option.getD_none]
    omega
  | some root =>
    have hbefore := ((perm_adjust hroot id).1.map fun entry => entry.2.size).sum_nat
    simp only [List.map_cons, List.sum_cons] at hbefore
    rw [Option.map_some, Option.getD_some, hbefore]
    omega

/-- A request that the pivots turn away leaves no trace in them, and any other adds to them. -/
theorem placed_turnsAway (env : StoreEnv) (mem : Heap Request) (self : DataStore) (req : Nat) :
    if self.turnsAway env mem req then
      self.takes env mem req = false ∧ self.placed env mem req = self
    else self.size < (self.placed env mem req).size := by
  have hsize : (self.placed env mem req).size +
      ((find self.sitePivots (deref mem req).host).map (·.size)).getD 0 =
      self.size + ((self.rootPivot env (deref mem req).host).insert env mem req
        (deref mem req).place.2).2.size := placed_size
  cases hroot : find self.sitePivots (deref mem req).host with
  | none =>
    have hpos := Pivot.size_pos ((self.rootPivot env (deref mem req).host).insert env mem req
      (deref mem req).place.2).2
    rw [hroot, Option.map_none, Option.getD_none] at hsize
    rw [turnsAway, hroot, if_neg Bool.false_ne_true]
    omega
  | some root =>
    have hrootPivot : self.rootPivot env (deref mem req).host = root := by
      simp [rootPivot, hroot]
    have hinsert : if root.turnsAway env mem req (deref mem req).place.2 then
        root.insert env mem req (deref mem req).place.2 = (false, root)
        else root.size < (root.insert env mem req (deref mem req).place.2).2.size :=
      root.insert_turnsAway _
    rw [hrootPivot, hroot, Option.map_some, Option.getD_some] at hsize
    rw [turnsAway, hroot]
    dsimp only
    split
    · rename_i haway
      rw [if_pos haway] at hinsert
      refine ⟨by rw [takes, hrootPivot, hinsert], ?_⟩
      rw [placed, hrootPivot, hinsert, assign, hroot, Option.isSome_some, if_pos rfl,
        adjust_self hroot]
    · rename_i haway
      rw [if_neg haway] at hinsert
      omega

/-- A request that is ignored leaves no trace, and any other adds to the pivots. -/
theorem addRequest_ignores (env : StoreEnv) (mem : Heap Request) (self : DataStore) (req : Nat) :
    if self.ignores env mem req then self.addRequest env mem req = (kInvalidId, mem, self)
    else self.size < (self.addRequest env mem req).2.2.size := by
  have hplaced := placed_turnsAway env mem self req
  rcases addRequest_cases env self mem req with
    ⟨hscope, heq⟩ | ⟨hscope, htakes, heq⟩ | ⟨hscope, htakes, heq⟩
  · rw [ignores, hscope, Bool.not_false, Bool.true_or, if_pos rfl, heq]
  · rw [ignores, hscope, Bool.not_true, Bool.false_or, heq]
    split at hplaced
    · rename_i haway
      rw [if_pos haway, hplaced.2]
    · rename_i haway
      rw [if_neg haway]
      exact hplaced
  · have haway : self.turnsAway env mem req = false := by
      by_contra haway
      rw [Bool.not_eq_false] at haway
      rw [haway, if_pos rfl, htakes] at hplaced
      exact Bool.false_ne_true hplaced.1.symm
    rw [haway, if_neg Bool.false_ne_true] at hplaced
    rw [ignores, hscope, haway, Bool.not_true, Bool.or_false, if_neg Bool.false_ne_true, heq]
    exact hplaced

theorem size_le_addRequest (env : StoreEnv) (mem : Heap Request) (self : DataStore) (req : Nat) :
    self.size ≤ (self.addRequest env mem req).2.2.size := by
  have hignores := addRequest_ignores env mem self req
  split at hignores
  · exact Nat.le_of_eq (by rw [hignores])
  · exact Nat.le_of_lt hignores

theorem ignores_congr {mem' : Heap Request}
    (hproto : ∀ p, (deref mem' p).proto = (deref mem p).proto)
    (hreq : deref mem' req = deref mem req) :
    self.ignores env mem' req = self.ignores env mem req := by
  simp only [ignores, turnsAway, hreq, Pivot.turnsAway_congr hproto]

end DataStore

end plusfish

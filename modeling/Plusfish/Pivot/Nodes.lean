import Plusfish.Library.KeyedTree
import Plusfish.Pivot

open memory ordered_map keyed_tree

namespace plusfish

namespace Pivot

/-- The tree of the pivots, in which the children have their names as keys. -/
def tree : KeyedTree Bytes Pivot where
  children := fun self => self.children
  wellFounded := by
    have hsize : WellFounded (InvImage (· < ·) fun pivot : Pivot => sizeOf pivot) :=
      InvImage.wf _ Nat.lt_wfRel.wf
    refine Subrelation.wf (fun {child self} hchild => ?_) hsize
    obtain ⟨name, hmem⟩ := hchild
    obtain ⟨_, _, _, children, _⟩ := self
    have hlist := List.sizeOf_lt_of_mem hmem
    simp only [Prod.mk.sizeOf_spec] at hlist
    simp only [InvImage, mk.sizeOf_spec]
    omega

theorem nodesOfChildren_eq (children : List (Bytes × Pivot)) :
    nodesOfChildren children = children.flatMap fun child => child.2.nodes := by
  induction children with
  | nil => rfl
  | cons child children ih =>
    obtain ⟨name, pivot⟩ := child
    simp [nodesOfChildren, nodesOfChild, ih]

theorem nodes_eq (self : Pivot) :
    self.nodes = self :: self.children.flatMap fun child => child.2.nodes := by
  cases self
  simp [nodes, nodesOfChildren_eq]

theorem stored_eq (self : Pivot) :
    self.stored = self.reqSamples ++ self.children.flatMap fun child => child.2.stored := by
  rw [stored, nodes_eq, List.flatMap_cons, List.flatMap_assoc]
  rfl

/-- One pivot keeps to its limits, which are those of the flags, and stores every
    child pivot once and under its own name. -/
structure WellFormed (env : StoreEnv) (pivot : Pivot) : Prop where
  templateLimit : pivot.templateLimit = env.pivotRequestLimit
  childLimit : pivot.childLimit = env.pivotChildLimit
  samples_le : pivot.reqSamples.length ≤ sizeT pivot.templateLimit
  children_le : pivot.children.length ≤ sizeT pivot.childLimit
  keys_nodup : (keys pivot.children).Nodup
  named : ∀ child ∈ pivot.children, child.2.pivotName = child.1

/-- Every pivot of the tree is well formed. -/
def Valid (env : StoreEnv) (self : Pivot) : Prop := ∀ node ∈ self.nodes, node.WellFormed env

theorem valid_iff {env : StoreEnv} {self : Pivot} :
    self.Valid env ↔ self.WellFormed env ∧ ∀ child ∈ self.children, child.2.Valid env := by
  simp only [Valid, nodes_eq self, List.mem_cons, List.mem_flatMap, forall_eq_or_imp]
  constructor
  · rintro ⟨hself, hbelow⟩
    exact ⟨hself, fun child hchild node hnode => hbelow node ⟨child, hchild, hnode⟩⟩
  · rintro ⟨hself, hbelow⟩
    refine ⟨hself, ?_⟩
    rintro node ⟨child, hchild, hnode⟩
    exact hbelow child hchild node hnode

theorem new_wellFormed (env : StoreEnv) (name : Bytes) : (new env name).WellFormed env where
  templateLimit := rfl
  childLimit := rfl
  samples_le := Nat.zero_le _
  children_le := Nat.zero_le _
  keys_nodup := List.nodup_nil
  named := by simp [new]

theorem new_valid (env : StoreEnv) (name : Bytes) : (new env name).Valid env :=
  valid_iff.mpr ⟨new_wellFormed env name, by simp [new]⟩

@[simp] theorem new_stored (env : StoreEnv) (name : Bytes) : (new env name).stored = [] := by
  rw [stored_eq]
  simp [new]

@[simp] theorem new_samplesAt (env : StoreEnv) (name : Bytes) (path : List Bytes) :
    (new env name).samplesAt path = [] := by
  cases path <;> simp [samplesAt, new, getChildPivot, find]

theorem mem_children_of_getChildPivot {self next : Pivot} {name : Bytes}
    (h : self.getChildPivot name = some next) : (name, next) ∈ self.children :=
  mem_of_find h

/-- Every pivot of a tree is where some path leads to. -/
theorem exists_samplesAt_of_mem_nodes {env : StoreEnv} {self node : Pivot}
    (hself : self.Valid env) (hnode : node ∈ self.nodes) :
    ∃ path, self.samplesAt path = node.reqSamples := by
  induction self using tree.induction with
  | h self ih =>
    rw [nodes_eq] at hnode
    rcases List.mem_cons.mp hnode with rfl | hbelow
    · exact ⟨[], rfl⟩
    · obtain ⟨child, hchild, hnode⟩ := List.mem_flatMap.mp hbelow
      obtain ⟨hwell, hvalid⟩ := valid_iff.mp hself
      obtain ⟨path, hpath⟩ := ih child hchild (hvalid child hchild) hnode
      have hfind : self.getChildPivot child.1 = some child.2 :=
        find_of_mem hwell.keys_nodup hchild
      exact ⟨child.1 :: path, by simp only [samplesAt, hfind, hpath]⟩

/-- What a path leads to is stored in the tree. -/
theorem mem_stored_of_mem_samplesAt {self : Pivot} {path : List Bytes} {req : Nat}
    (h : req ∈ self.samplesAt path) : req ∈ self.stored := by
  induction path generalizing self with
  | nil =>
    rw [stored_eq]
    exact List.mem_append_left _ h
  | cons name names ih =>
    rw [samplesAt] at h
    split at h
    · rename_i next hchild
      rw [stored_eq]
      exact List.mem_append_right _
        (List.mem_flatMap.mpr ⟨_, mem_children_of_getChildPivot hchild, ih h⟩)
    · cases h

theorem addRequest_eq_some {mem : Heap Request} {self added : Pivot} {req : Nat} :
    self.addRequest mem req = some added ↔
      self.reqSamples.length < sizeT self.templateLimit ∧
      (∀ sample ∈ self.reqSamples, ¬ (deref mem sample).equals (deref mem req)) ∧
      added = { self with reqSamples := self.reqSamples ++ [req] } := by
  have hdup : (self.reqSamples.any fun sample => (deref mem sample).equals (deref mem req)) = true ↔
      ¬ ∀ sample ∈ self.reqSamples, ¬ (deref mem sample).equals (deref mem req) := by
    simp
  simp only [addRequest, hdup]
  by_cases hfull : self.reqSamples.length ≥ sizeT self.templateLimit
  · simp only [hfull, if_true, reduceCtorEq, false_iff]
    exact fun h => absurd h.1 (by omega)
  · simp only [hfull, if_false, Nat.lt_of_not_le hfull, true_and, ite_not]
    split
    · rename_i hnew
      exact ⟨fun h => ⟨hnew, (Option.some.inj h).symm⟩, fun h => congrArg some h.2.symm⟩
    · rename_i hold
      exact ⟨fun h => by simp at h, fun h => absurd h.1 hold⟩

theorem addChildPivot_eq_some {self pivot added : Pivot} :
    self.addChildPivot pivot = some added ↔
      self.children.length < sizeT self.childLimit ∧
      self.getChildPivot pivot.pivotName = none ∧
      added = { self with children := emplace self.children pivot.pivotName pivot } := by
  unfold addChildPivot
  by_cases hfull : self.children.length ≥ sizeT self.childLimit
  · simp only [hfull, if_true, reduceCtorEq, false_iff]
    exact fun h => absurd h.1 (by omega)
  · simp only [hfull, if_false, Nat.lt_of_not_le hfull, true_and]
    cases hchild : self.getChildPivot pivot.pivotName with
    | none => exact ⟨fun h => ⟨rfl, (Option.some.inj h).symm⟩, fun h => congrArg some h.2.symm⟩
    | some next => simp

end Pivot

end plusfish

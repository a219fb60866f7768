import Mathlib.Data.List.Flatten
import Plusfish.Library.OrderedMap

open ordered_map

namespace keyed_tree

/-- Trees over a type of nodes in which every node keeps its children under keys. -/
structure KeyedTree (κ τ : Type) where
  children : τ → OrderedMap κ τ
  wellFounded : WellFounded fun child node => ∃ key, (key, child) ∈ children node

namespace KeyedTree

variable {κ τ : Type} (tree : KeyedTree κ τ)

/-- The nodes of a tree, each with the way to it, parents before children. -/
def visits (node : τ) : List (List κ × τ) :=
  ([], node) :: (tree.children node).attach.flatMap fun child =>
    (visits child.1.2).map fun visit => (child.1.1 :: visit.1, visit.2)
termination_by tree.wellFounded.wrap node
decreasing_by exact ⟨child.1.1, child.2⟩

/-- The nodes below some entries, each with the way to it. -/
def visitsOf (entries : OrderedMap κ τ) : List (List κ × τ) :=
  entries.flatMap fun child => (tree.visits child.2).map fun visit => (child.1 :: visit.1, visit.2)

variable {tree} {node : τ}

theorem visits_eq (node : τ) :
    tree.visits node = ([], node) :: tree.visitsOf (tree.children node) := by
  rw [visits, visitsOf]
  congr 1
  conv_rhs => rw [← List.attach_map_subtype_val (tree.children node), List.flatMap_map]

/-- Induction over a tree: what holds of a node where it holds of its children. -/
theorem induction {P : τ → Prop}
    (h : ∀ node, (∀ child ∈ tree.children node, P child.2) → P node) (node : τ) : P node :=
  tree.wellFounded.induction node fun node ih => h node fun child hchild => ih child.2 ⟨_, hchild⟩

theorem mem_visitsOf {entries : OrderedMap κ τ} {path : List κ} :
    (path, node) ∈ tree.visitsOf entries ↔
      ∃ key child rest, path = key :: rest ∧ (key, child) ∈ entries ∧
        (rest, node) ∈ tree.visits child := by
  simp only [visitsOf, List.mem_flatMap, List.mem_map, Prod.mk.injEq]
  constructor
  · rintro ⟨⟨key, child⟩, hchild, ⟨rest, _⟩, hvisit, rfl, rfl⟩
    exact ⟨key, child, rest, rfl, hchild, hvisit⟩
  · rintro ⟨key, child, rest, rfl, hchild, hvisit⟩
    exact ⟨(key, child), hchild, (rest, node), hvisit, rfl, rfl⟩

/-- No node of the tree has two children under one key. -/
def Distinct (tree : KeyedTree κ τ) (node : τ) : Prop :=
  ∀ visit ∈ tree.visits node, (keys (tree.children visit.2)).Nodup

theorem distinct_iff : tree.Distinct node ↔
    (keys (tree.children node)).Nodup ∧ ∀ child ∈ tree.children node, tree.Distinct child.2 := by
  simp only [Distinct, visits_eq node, List.mem_cons, forall_eq_or_imp]
  refine and_congr_right fun _ => ⟨fun h child hchild visit hvisit => ?_, fun h visit hvisit => ?_⟩
  · exact h (child.1 :: visit.1, visit.2) (mem_visitsOf.mpr ⟨_, _, _, rfl, hchild, hvisit⟩)
  · obtain ⟨key, child, rest, _, hchild, hbelow⟩ := mem_visitsOf.mp hvisit
    exact h (key, child) hchild (rest, visit.2) hbelow

/-- A later visit is never on the way to an earlier one, and no way is visited twice. -/
theorem visitsOf_pairwise {entries : OrderedMap κ τ} (hkeys : (keys entries).Nodup)
    (hbelow : ∀ child ∈ entries, (tree.visits child.2).Pairwise fun v w => ¬ w.1 <+: v.1) :
    (tree.visitsOf entries).Pairwise fun v w => ¬ w.1 <+: v.1 := by
  refine List.pairwise_flatMap.mpr ⟨fun child hchild => ?_, ?_⟩
  · rw [List.pairwise_map]
    refine (hbelow child hchild).imp fun hnot hpre => hnot ?_
    exact (List.prefix_cons_inj child.1).mp hpre
  · refine (List.pairwise_map.mp hkeys).imp fun {a b} hne v hv w hw hpre => hne ?_
    obtain ⟨_, _, rfl⟩ := List.mem_map.mp hv
    obtain ⟨_, _, rfl⟩ := List.mem_map.mp hw
    exact (List.cons_prefix_cons.mp hpre).1.symm

theorem visits_pairwise (hdistinct : tree.Distinct node) :
    (tree.visits node).Pairwise fun v w => ¬ w.1 <+: v.1 := by
  induction node using tree.induction with
  | h node ih =>
    obtain ⟨hkeys, hbelow⟩ := distinct_iff.mp hdistinct
    rw [visits_eq, List.pairwise_cons]
    refine ⟨fun visit hvisit hpre => ?_,
      visitsOf_pairwise hkeys fun child hchild => ih child hchild (hbelow child hchild)⟩
    obtain ⟨key, _, rest, hpath, _⟩ := mem_visitsOf.mp hvisit
    rw [hpath] at hpre
    exact absurd (List.prefix_nil.mp hpre) (List.cons_ne_nil key rest)

variable [DecidableEq κ]

/-- The node that a way leads to. -/
def follow (tree : KeyedTree κ τ) : τ → List κ → Option τ
  | node, [] => some node
  | node, key :: path => (find (tree.children node) key).bind fun child => tree.follow child path

theorem follow_append {first second : List κ} : tree.follow node (first ++ second) =
    (tree.follow node first).bind fun next => tree.follow next second := by
  induction first generalizing node with
  | nil => rfl
  | cons key first ih =>
    simp only [List.cons_append, follow, Option.bind_assoc]
    congr 1
    funext child
    exact ih

/-- The visits are the ways that lead somewhere, each with where it leads. -/
theorem mem_visits_iff {path : List κ} {target : τ} (hdistinct : tree.Distinct node) :
    (path, target) ∈ tree.visits node ↔ tree.follow node path = some target := by
  induction path generalizing node with
  | nil =>
    rw [visits_eq, List.mem_cons, follow, Option.some.injEq, Prod.mk.injEq]
    constructor
    · rintro (⟨_, rfl⟩ | hbelow)
      · rfl
      · obtain ⟨_, _, _, hpath, _⟩ := mem_visitsOf.mp hbelow
        cases hpath
    · exact fun h => .inl ⟨rfl, h.symm⟩
  | cons key path ih =>
    obtain ⟨hkeys, hbelow⟩ := distinct_iff.mp hdistinct
    have hroot : ((key :: path, target) : List κ × τ) ≠ ([], node) := by simp
    rw [visits_eq, List.mem_cons, or_iff_right hroot, mem_visitsOf, follow]
    constructor
    · rintro ⟨_, child, _, hpath, hchild, hvisit⟩
      cases hpath
      rw [find_of_mem hkeys hchild]
      exact (ih (hbelow _ hchild)).mp hvisit
    · intro h
      obtain ⟨child, hfind, hfollow⟩ := Option.bind_eq_some_iff.mp h
      have hchild := mem_of_find hfind
      exact ⟨key, child, path, rfl, hchild, (ih (hbelow _ hchild)).mpr hfollow⟩

end KeyedTree

end keyed_tree

import Plusfish.Library.Heap
import Plusfish.Request

open memory ordered_map

namespace plusfish

/-- What the datastore depends on: its flags, the regular expression library, and
    the comparison of messages. None of the functions is part of the repository. -/
structure StoreEnv where
  pivotRequestLimit : Int32
  pivotChildLimit : Int32
  maxIssuesPerCheckPerUrl : Int32
  maxIssuesPerUrl : Int32
  maxIssuesPerCheck : Int32
  regexOk : Bytes → Bool
  partialMatch : (text regex : Bytes) → Bool
  messageDifferencerEquals : IssueDetails → IssueDetails → Bool

/-- The request at an address that some owner holds. -/
def deref (mem : Heap Request) (p : Nat) : Request := (mem.get? p).getD {}

theorem deref_of_get? {mem : Heap Request} {p : Nat} {request : Request}
    (h : mem.get? p = some request) : deref mem p = request := by
  simp [deref, h]

/-- What an object is after a step that keeps to a frame condition. -/
theorem Frame.deref {R : Request → Request → Prop} {mem mem' : Heap Request}
    (hframe : Heap.Frame R mem mem') {p : Nat} (hp : p < mem.next) :
    R (plusfish.deref mem p) (plusfish.deref mem' p) := by
  obtain ⟨request, hget⟩ := Heap.get?_of_lt_next hp
  obtain ⟨request', hget', hR⟩ := hframe p request hget
  rwa [deref_of_get? hget, deref_of_get? hget']

/-- What a change of an object keeps of every request, it keeps of the one at an address. -/
theorem deref_modify_keeps {α : Type} (g : Request → α) (mem : Heap Request) (p q : Nat)
    {f : Request → Request} (hf : ∀ request, g (f request) = g request) :
    g (deref (mem.modify p f) q) = g (deref mem q) := by
  simp only [deref, Heap.get?_modify]
  split
  · cases mem.get? q with
    | none => rfl
    | some request => exact hf request
  · rfl

/-- An entry of the site map, with the addresses of its request samples. -/
structure Pivot where
  templateLimit : Int32
  childLimit : Int32
  pivotName : Bytes
  children : List (Bytes × Pivot)
  reqSamples : List Nat

namespace Pivot

def new (env : StoreEnv) (name : Bytes) : Pivot :=
  { templateLimit := env.pivotRequestLimit
    childLimit := env.pivotChildLimit
    pivotName := name
    children := []
    reqSamples := [] }

/-- The pivot with the request added, where the pivot takes it. -/
def addRequest (mem : Heap Request) (self : Pivot) (req : Nat) : Option Pivot :=
  if self.reqSamples.length ≥ sizeT self.templateLimit then none
  else if self.reqSamples.any fun sample => (deref mem sample).equals (deref mem req) then none
  else some { self with reqSamples := self.reqSamples ++ [req] }

def getChildPivot (self : Pivot) (name : Bytes) : Option Pivot := find self.children name

def addChildPivot (self pivot : Pivot) : Option Pivot :=
  if self.children.length ≥ sizeT self.childLimit then none
  else if (self.getChildPivot pivot.pivotName).isSome then none
  else some { self with children := emplace self.children pivot.pivotName pivot }

/-- The loop of `DataStore::AddRequestToPivot` from one pivot on, with the request
    added to the pivot it ends at. The flag says whether that pivot took it. The
    second result is the pivot after the calls that were made on it and below it. -/
def insert (env : StoreEnv) (mem : Heap Request) (req : Nat) : Pivot → List Bytes → Bool × Pivot
  | self, [] =>
    match self.addRequest mem req with
    | none => (false, self)
    | some added => (true, added)
  | self, name :: names =>
    match self.getChildPivot name with
    | some next =>
      let (stored, next) := insert env mem req next names
      (stored, { self with children := adjust self.children name fun _ => next })
    | none =>
      match self.addChildPivot (new env name) with
      | none => (false, self)
      | some self =>
        let (stored, next) := insert env mem req (new env name) names
        (stored, { self with children := adjust self.children name fun _ => next })

/-- The requests stored in the pivot that a path leads to. -/
def samplesAt : Pivot → List Bytes → List Nat
  | self, [] => self.reqSamples
  | self, name :: names =>
    match self.getChildPivot name with
    | some next => next.samplesAt names
    | none => []

mutual

/-- The pivots of a tree, parents before children. -/
def nodes : Pivot → List Pivot
  | ⟨templateLimit, childLimit, pivotName, children, reqSamples⟩ =>
    ⟨templateLimit, childLimit, pivotName, children, reqSamples⟩ :: nodesOfChildren children

def nodesOfChildren : List (Bytes × Pivot) → List Pivot
  | [] => []
  | child :: children => nodesOfChild child ++ nodesOfChildren children

def nodesOfChild : Bytes × Pivot → List Pivot
  | (_, pivot) => nodes pivot

end

/-- The requests stored anywhere in a tree. -/
def stored (self : Pivot) : List Nat := self.nodes.flatMap (·.reqSamples)

end Pivot

end plusfish

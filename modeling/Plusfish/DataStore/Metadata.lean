import Plusfish.DataStore

open ordered_map

namespace plusfish

namespace DataStore

variable (self : DataStore) (requestId : Int) (type : MetaDataType) (value : Int)

theorem getRequestMetadata_eq : self.getRequestMetadata requestId type =
    find ((find self.requestMeta requestId).getD []) type := by
  unfold getRequestMetadata
  cases find self.requestMeta requestId <;> rfl

/-- A value is stored where there is none, and nothing else changes. -/
theorem getRequestMetadata_addRequestMetadata (requestId' : Int) (type' : MetaDataType) :
    (self.addRequestMetadata requestId type value).2.getRequestMetadata requestId' type' =
      if requestId = requestId' ∧ type = type' then
        some ((self.getRequestMetadata requestId type).getD value)
      else self.getRequestMetadata requestId' type' := by
  simp only [getRequestMetadata_eq, addRequestMetadata]
  cases hfound : find ((find self.requestMeta requestId).getD []) type with
  | some found =>
    simp only [Option.isSome_some, if_true, Option.getD_some]
    split
    · rename_i heq
      rw [← heq.1, ← heq.2, hfound]
    · rfl
  | none =>
    simp only [Option.isSome_none, Bool.false_eq_true, if_false, Option.getD_none, find_assign]
    by_cases hid : requestId = requestId'
    · subst hid
      simp only [if_true, Option.getD_some, find_assign, true_and]
    · simp only [hid, if_false, false_and]

/-- A stored value is never changed. -/
theorem addRequestMetadata_keeps {requestId' : Int} {type' : MetaDataType} {stored : Int}
    (h : self.getRequestMetadata requestId' type' = some stored) :
    (self.addRequestMetadata requestId type value).2.getRequestMetadata requestId' type' =
      some stored := by
  rw [getRequestMetadata_addRequestMetadata]
  split
  · rename_i heq
    rw [heq.1, heq.2, h, Option.getD_some]
  · exact h

theorem addRequestMetadata_stores :
    ((self.addRequestMetadata requestId type value).2.getRequestMetadata requestId type).isSome =
      true := by
  rw [getRequestMetadata_addRequestMetadata, if_pos ⟨rfl, rfl⟩, Option.isSome_some]

end DataStore

end plusfish

import Plusfish.Pivot.Nodes

open memory ordered_map

namespace plusfish

namespace Pivot

variable {env : StoreEnv} {mem : Heap Request} {req : Nat}

/-- What a request added below a child pivot makes of the pivot. -/
def withChild (self : Pivot) (name : Bytes) (next : Pivot) : Pivot :=
  { self with children := adjust self.children name fun _ => next }

theorem withChild_self {self next : Pivot} {name : Bytes}
    (h : self.getChildPivot name = some next) : self.withChild name next = self := by
  have hadjust : adjust self.children name (fun _ => next) = self.children := adjust_self h
  cases self
  simp only [withChild, hadjust]

theorem insert_cons_found {self next : Pivot} {name : Bytes} {names : List Bytes}
    (h : self.getChildPivot name = some next) :
    self.insert env mem req (name :: names) =
      ((next.insert env mem req names).1,
        self.withChild name (next.insert env mem req names).2) := by
  simp only [insert, h, withChild]

theorem insert_cons_missing {self : Pivot} {name : Bytes} {names : List Bytes}
    (h : self.getChildPivot name = none) :
    self.insert env mem req (name :: names) =
      match self.addChildPivot (new env name) with
      | none => (false, self)
      | some added => added.insert env mem req (name :: names) := by
  simp only [insert, h]
  cases hadd : self.addChildPivot (new env name) with
  | none => rfl
  | some added =>
    obtain ⟨_, _, hadded⟩ := addChildPivot_eq_some.mp hadd
    have hfound : added.getChildPivot name = some (new env name) := by
      rw [hadded]
      simpa [getChildPivot, new] using find_emplace h (new env name) name
    simp only [hfound]

/-- A property of the insertion holds at every path if it holds at the pivot where
    the path ends, where the path goes on below a child, and where a child is
    missing and is added or refused. -/
theorem insert_induction {P : Pivot → List Bytes → Bool × Pivot → Prop}
    (hend : ∀ self, P self [] (match self.addRequest mem req with
      | none => (false, self)
      | some added => (true, added)))
    (hfound : ∀ self name names next result, self.getChildPivot name = some next →
      P next names result → P self (name :: names) (result.1, self.withChild name result.2))
    (hrefused : ∀ self name names, self.getChildPivot name = none →
      self.addChildPivot (new env name) = none → P self (name :: names) (false, self))
    (hadded : ∀ self name names added result, self.getChildPivot name = none →
      self.addChildPivot (new env name) = some added →
      P added (name :: names) result → P self (name :: names) result)
    (self : Pivot) (path : List Bytes) : P self path (self.insert env mem req path) := by
  induction path generalizing self with
  | nil => exact hend self
  | cons name names ih =>
    have found (self next : Pivot) (h : self.getChildPivot name = some next) :
        P self (name :: names) (self.insert env mem req (name :: names)) := by
      rw [insert_cons_found h]
      exact hfound self name names next _ h (ih next)
    cases hchild : self.getChildPivot name with
    | some next => exact found self next hchild
    | none =>
      rw [insert_cons_missing hchild]
      cases hadd : self.addChildPivot (new env name) with
      | none => exact hrefused self name names hchild hadd
      | some added =>
        obtain ⟨_, _, heq⟩ := addChildPivot_eq_some.mp hadd
        have hnew : added.getChildPivot name = some (new env name) := by
          rw [heq]
          simpa [getChildPivot, new] using find_emplace hchild (new env name) name
        exact hadded self name names added _ hchild hadd (found added _ hnew)

theorem withChild_stored {self next : Pivot} {name : Bytes}
    (h : self.getChildPivot name = some next) (next' : Pivot) :
    ∃ rest, self.stored.Perm (next.stored ++ rest) ∧
      (self.withChild name next').stored.Perm (next'.stored ++ rest) := by
  obtain ⟨hbefore, hafter⟩ := perm_adjust h (fun _ => next')
  refine ⟨self.reqSamples ++ (erase self.children name).flatMap fun child => child.2.stored, ?_, ?_⟩
  · rw [stored_eq]
    apply ((hbefore.flatMap_right _).append_left _).trans
    rw [List.flatMap_cons]
    exact List.perm_append_comm_assoc _ _ _
  · rw [stored_eq]
    apply ((hafter.flatMap_right _).append_left _).trans
    rw [List.flatMap_cons]
    exact List.perm_append_comm_assoc _ _ _

theorem addChildPivot_stored {self added : Pivot} {name : Bytes}
    (h : self.addChildPivot (new env name) = some added) : added.stored.Perm self.stored := by
  obtain ⟨_, hmissing, rfl⟩ := addChildPivot_eq_some.mp h
  rw [stored_eq, stored_eq]
  apply ((perm_emplace hmissing (new env name)).flatMap_right _ |>.append_left _).trans
  simp

/-- The insertion adds the request to the stored requests of the tree if it says so,
    and otherwise stores what was stored before. -/
theorem insert_stored (env : StoreEnv) (mem : Heap Request) (req : Nat) (self : Pivot)
    (path : List Bytes) :
    (self.insert env mem req path).2.stored.Perm
      (if (self.insert env mem req path).1 then req :: self.stored else self.stored) := by
  apply insert_induction (P := fun self _ result =>
    result.2.stored.Perm (if result.1 then req :: self.stored else self.stored))
  · intro self
    cases hadd : self.addRequest mem req with
    | none => simp
    | some added =>
      obtain ⟨_, _, rfl⟩ := addRequest_eq_some.mp hadd
      simp only [if_true]
      rw [stored_eq, stored_eq]
      simp
  · intro self name names next result hchild ih
    obtain ⟨rest, hbefore, hafter⟩ := withChild_stored hchild result.2
    apply hafter.trans
    cases hresult : result.1 with
    | true =>
      simp only [hresult, if_true] at ih ⊢
      exact (ih.append_right rest).trans (hbefore.symm.cons req)
    | false =>
      simp only [hresult, Bool.false_eq_true, if_false] at ih ⊢
      exact (ih.append_right rest).trans hbefore.symm
  · intro self name names _ _
    simp
  · intro self name names added result _ hadd ih
    have hstored := addChildPivot_stored hadd
    apply ih.trans
    split
    · exact hstored.cons req
    · exact hstored

@[simp] theorem insert_pivotName (self : Pivot) (path : List Bytes) :
    (self.insert env mem req path).2.pivotName = self.pivotName := by
  apply insert_induction (P := fun self _ result => result.2.pivotName = self.pivotName)
  · intro self
    cases hadd : self.addRequest mem req with
    | none => rfl
    | some added =>
      obtain ⟨_, _, rfl⟩ := addRequest_eq_some.mp hadd
      rfl
  · intro self name names next result _ _
    rfl
  · intro self name names _ _
    rfl
  · intro self name names added result _ hadd ih
    obtain ⟨_, _, rfl⟩ := addChildPivot_eq_some.mp hadd
    exact ih

theorem withChild_valid {self next next' : Pivot} {name : Bytes} (hself : self.Valid env)
    (hchild : self.getChildPivot name = some next) (hnext : next'.Valid env)
    (hname : next'.pivotName = next.pivotName) : (self.withChild name next').Valid env := by
  obtain ⟨hwell, hbelow⟩ := valid_iff.mp hself
  obtain ⟨hbefore, hafter⟩ := perm_adjust hchild (fun _ => next')
  have hmem (child : Bytes × Pivot) (h : child ∈ (self.withChild name next').children) :
      child = (name, next') ∨ child ∈ self.children := by
    rcases List.mem_cons.mp (hafter.mem_iff.mp h) with heq | hrest
    · exact Or.inl heq
    · exact Or.inr (hbefore.mem_iff.mpr (List.mem_cons_of_mem _ hrest))
  refine valid_iff.mpr ⟨{ hwell with
    children_le := by simpa [withChild] using hwell.children_le
    keys_nodup := by simpa [withChild] using hwell.keys_nodup
    named := ?_ }, ?_⟩
  · intro child h
    rcases hmem child h with rfl | hold
    · exact hname.trans (hwell.named _ (mem_children_of_getChildPivot hchild))
    · exact hwell.named child hold
  · intro child h
    rcases hmem child h with rfl | hold
    · exact hnext
    · exact hbelow child hold

theorem addChildPivot_valid {self added : Pivot} {name : Bytes} (hself : self.Valid env)
    (h : self.addChildPivot (new env name) = some added) : added.Valid env := by
  obtain ⟨hwell, hbelow⟩ := valid_iff.mp hself
  obtain ⟨hroom, hmissing, rfl⟩ := addChildPivot_eq_some.mp h
  have hperm := perm_emplace hmissing (new env name)
  refine valid_iff.mpr ⟨{ hwell with
    children_le := by
      rw [length_emplace hmissing]
      exact hroom
    keys_nodup := nodup_keys_emplace hmissing _ hwell.keys_nodup
    named := ?_ }, ?_⟩
  · intro child hchild
    rcases List.mem_cons.mp (hperm.mem_iff.mp hchild) with rfl | hold
    · rfl
    · exact hwell.named child hold
  · intro child hchild
    rcases List.mem_cons.mp (hperm.mem_iff.mp hchild) with rfl | hold
    · exact new_valid env _
    · exact hbelow child hold

/-- The insertion keeps every pivot of the tree well formed, whether or not the
    request finds a place. -/
theorem insert_valid {self : Pivot} (hself : self.Valid env) (path : List Bytes) :
    (self.insert env mem req path).2.Valid env := by
  suffices h : (self.insert env mem req path).2.pivotName = self.pivotName ∧
      (self.Valid env → (self.insert env mem req path).2.Valid env) from h.2 hself
  clear hself
  apply insert_induction (P := fun self _ result =>
    result.2.pivotName = self.pivotName ∧ (self.Valid env → result.2.Valid env))
  · intro self
    cases hadd : self.addRequest mem req with
    | none => exact ⟨rfl, id⟩
    | some added =>
      obtain ⟨hroom, _, rfl⟩ := addRequest_eq_some.mp hadd
      refine ⟨rfl, fun hself => ?_⟩
      obtain ⟨hwell, hbelow⟩ := valid_iff.mp hself
      have hlength : (self.reqSamples ++ [req]).length ≤ sizeT self.templateLimit := by
        rw [List.length_append]
        exact hroom
      exact valid_iff.mpr ⟨{ hwell with samples_le := hlength }, hbelow⟩
  · intro self name names next result hchild ih
    refine ⟨rfl, fun hself => ?_⟩
    have hnext := (valid_iff.mp hself).2 _ (mem_children_of_getChildPivot hchild)
    exact withChild_valid hself hchild (ih.2 hnext) ih.1
  · intro self name names _ _
    exact ⟨rfl, id⟩
  · intro self name names added result _ hadd ih
    refine ⟨?_, fun hself => ih.2 (addChildPivot_valid hself hadd)⟩
    obtain ⟨_, _, rfl⟩ := addChildPivot_eq_some.mp hadd
    exact ih.1

theorem withChild_samplesAt {self next : Pivot} {name : Bytes}
    (h : self.getChildPivot name = some next) (next' : Pivot) (other : Bytes) (names : List Bytes) :
    (self.withChild name next').samplesAt (other :: names) =
      if other = name then next'.samplesAt names else self.samplesAt (other :: names) := by
  simp only [samplesAt, withChild, getChildPivot, find_adjust] at h ⊢
  by_cases heq : other = name
  · simp [heq, h]
  · simp [heq, Ne.symm heq]

theorem addChildPivot_samplesAt {self added : Pivot} {name : Bytes}
    (h : self.addChildPivot (new env name) = some added) (path : List Bytes) :
    added.samplesAt path = self.samplesAt path := by
  obtain ⟨_, hmissing, rfl⟩ := addChildPivot_eq_some.mp h
  cases path with
  | nil => rfl
  | cons other names =>
    have hmissing' : find self.children name = none := hmissing
    simp only [samplesAt, getChildPivot, new] at hmissing' ⊢
    rw [find_emplace hmissing']
    by_cases heq : name = other
    · subst heq
      rw [if_pos rfl, hmissing']
      exact new_samplesAt env name names
    · rw [if_neg heq]

/-- The insertion adds the request at the end of the pivot its path leads to, and
    changes the samples of no other pivot. -/
theorem insert_samplesAt (self : Pivot) (path other : List Bytes) :
    (self.insert env mem req path).2.samplesAt other =
      if (self.insert env mem req path).1 ∧ other = path then self.samplesAt path ++ [req]
      else self.samplesAt other := by
  revert other
  apply insert_induction (P := fun self path result => ∀ other, result.2.samplesAt other =
    if result.1 ∧ other = path then self.samplesAt path ++ [req] else self.samplesAt other)
  · intro self other
    cases hadd : self.addRequest mem req with
    | none => simp
    | some added =>
      obtain ⟨_, _, rfl⟩ := addRequest_eq_some.mp hadd
      cases other <;> simp [samplesAt, getChildPivot]
  · intro self name names next result hchild ih other
    cases other with
    | nil => simp [samplesAt, withChild]
    | cons first rest =>
      rw [withChild_samplesAt hchild]
      have hself : self.samplesAt (name :: names) = next.samplesAt names := by
        simp [samplesAt, hchild]
      by_cases hfirst : first = name
      · subst hfirst
        have hrest : self.samplesAt (first :: rest) = next.samplesAt rest := by
          simp [samplesAt, hchild]
        simp [ih rest, hself, hrest]
      · simp [hfirst]
  · intro self name names _ _ other
    simp
  · intro self name names added result _ hadd ih other
    simpa only [addChildPivot_samplesAt hadd] using ih other

/-- The limits of the pivots along a path, and of those that would have to be added
    to it, leave room for one more request at its end. -/
def hasRoom (env : StoreEnv) : Pivot → List Bytes → Bool
  | self, [] => self.reqSamples.length < sizeT self.templateLimit
  | self, name :: names =>
    match self.getChildPivot name with
    | some next => next.hasRoom env names
    | none => self.children.length < sizeT self.childLimit && (new env name).hasRoom env names

/-- A request finds a place exactly if there is room for it and the pivot its path
    leads to has no sample that equals it. -/
theorem insert_stores_iff (self : Pivot) (path : List Bytes) :
    (self.insert env mem req path).1 = true ↔
      self.hasRoom env path = true ∧
        ∀ sample ∈ self.samplesAt path, ¬ (deref mem sample).equals (deref mem req) := by
  induction path generalizing self with
  | nil =>
    simp only [insert, hasRoom, samplesAt, decide_eq_true_eq]
    cases hadd : self.addRequest mem req with
    | none =>
      refine ⟨fun h => (Bool.false_ne_true h).elim, ?_⟩
      rintro ⟨hroom, hnew⟩
      rw [addRequest_eq_some.mpr ⟨hroom, hnew, rfl⟩] at hadd
      cases hadd
    | some added =>
      obtain ⟨hroom, hnew, _⟩ := addRequest_eq_some.mp hadd
      exact ⟨fun _ => ⟨hroom, hnew⟩, fun _ => rfl⟩
  | cons name names ih =>
    cases hchild : self.getChildPivot name with
    | some next =>
      rw [insert_cons_found hchild]
      simp only [hasRoom, samplesAt, hchild]
      exact ih next
    | none =>
      rw [insert_cons_missing hchild]
      simp only [hasRoom, samplesAt, hchild, Bool.and_eq_true, decide_eq_true_eq]
      cases hadd : self.addChildPivot (new env name) with
      | none =>
        refine ⟨fun h => (Bool.false_ne_true h).elim, ?_⟩
        rintro ⟨⟨hroom, _⟩, _⟩
        rw [addChildPivot_eq_some.mpr ⟨hroom, hchild, rfl⟩] at hadd
        cases hadd
      | some added =>
        obtain ⟨hroom, _, heq⟩ := addChildPivot_eq_some.mp hadd
        have hnew : added.getChildPivot name = some (new env name) := by
          rw [heq]
          simpa [getChildPivot, new] using find_emplace hchild (new env name) name
        simp only
        rw [insert_cons_found hnew, ih]
        simp [hroom]

/-- An insertion that fails in a pivot that has samples changes nothing. -/
theorem insert_of_samples {self : Pivot} {path : List Bytes} {sample : Nat}
    (hsample : sample ∈ self.samplesAt path)
    (hfailed : (self.insert env mem req path).1 = false) :
    (self.insert env mem req path).2 = self := by
  induction path generalizing self with
  | nil =>
    simp only [insert] at hfailed ⊢
    cases hadd : self.addRequest mem req with
    | none => rfl
    | some added => simp [hadd] at hfailed
  | cons name names ih =>
    cases hchild : self.getChildPivot name with
    | none =>
      simp only [samplesAt, hchild] at hsample
      cases hsample
    | some next =>
      simp only [samplesAt, hchild] at hsample
      rw [insert_cons_found hchild] at hfailed ⊢
      have hsame : (next.insert env mem req names).2 = next := ih hsample hfailed
      rw [hsame]
      exact withChild_self hchild

/-- A new tree takes any request when the limits are positive. -/
theorem insert_new (hchild : 1 ≤ env.pivotChildLimit.toInt)
    (hrequest : 1 ≤ env.pivotRequestLimit.toInt) (name : Bytes) (path : List Bytes) :
    ((new env name).insert env mem req path).1 = true := by
  induction path generalizing name with
  | nil =>
    have hroom := sizeT_pos hrequest
    have hadd : (new env name).addRequest mem req =
        some { new env name with reqSamples := (new env name).reqSamples ++ [req] } :=
      addRequest_eq_some.mpr ⟨by simpa [new] using hroom, by simp [new], rfl⟩
    simp [insert, hadd]
  | cons first rest ih =>
    have hroom := sizeT_pos hchild
    have hmissing : (new env name).getChildPivot first = none := by simp [getChildPivot, new, find]
    have hadd : (new env name).addChildPivot (new env first) = some
        { new env name with children := emplace (new env name).children first (new env first) } :=
      addChildPivot_eq_some.mpr ⟨by simpa [new] using hroom, hmissing, rfl⟩
    simp [insert, hmissing, hadd, ih]

/-- With positive limits, an insertion that fails changes nothing: it can only fail
    where the path still runs along pivots that were there before. -/
theorem insert_of_failed (hchild : 1 ≤ env.pivotChildLimit.toInt)
    (hrequest : 1 ≤ env.pivotRequestLimit.toInt) (self : Pivot) (path : List Bytes)
    (hfailed : (self.insert env mem req path).1 = false) :
    (self.insert env mem req path).2 = self := by
  induction path generalizing self with
  | nil =>
    simp only [insert] at hfailed ⊢
    cases hadd : self.addRequest mem req with
    | none => rfl
    | some added => simp [hadd] at hfailed
  | cons name names ih =>
    cases hnext : self.getChildPivot name with
    | some next =>
      rw [insert_cons_found hnext] at hfailed ⊢
      have hsame : (next.insert env mem req names).2 = next := ih next hfailed
      rw [hsame]
      exact withChild_self hnext
    | none =>
      rw [insert_cons_missing hnext] at hfailed ⊢
      cases hadd : self.addChildPivot (new env name) with
      | none => rfl
      | some added =>
        obtain ⟨_, _, heq⟩ := addChildPivot_eq_some.mp hadd
        have hnew : added.getChildPivot name = some (new env name) := by
          rw [heq]
          simpa [getChildPivot, new] using find_emplace hnext (new env name) name
        simp only [hadd, insert_cons_found hnew, insert_new hchild hrequest] at hfailed
        cases hfailed

/-- A child that is added takes up room, and makes none. -/
theorem addChildPivot_hasRoom {self added : Pivot} {name : Bytes}
    (h : self.addChildPivot (new env name) = some added) {path : List Bytes}
    (hroom : added.hasRoom env path = true) : self.hasRoom env path = true := by
  obtain ⟨hlimit, hmissing, rfl⟩ := addChildPivot_eq_some.mp h
  have hmissing' : find self.children name = none := hmissing
  cases path with
  | nil => exact hroom
  | cons other names =>
    simp only [hasRoom, getChildPivot, new, find_emplace hmissing', length_emplace hmissing'] at *
    by_cases heq : name = other
    · subst heq
      rw [if_pos rfl] at hroom
      simp [hmissing', hlimit, hroom]
    · rw [if_neg heq] at hroom
      cases hother : find self.children other with
      | some next => simpa [hother] using hroom
      | none =>
        simp only [hother, Bool.and_eq_true, decide_eq_true_eq] at hroom ⊢
        exact ⟨by omega, hroom.2⟩

/-- An insertion never makes room. -/
theorem insert_hasRoom {self : Pivot} {path other : List Bytes}
    (hroom : (self.insert env mem req path).2.hasRoom env other = true) :
    self.hasRoom env other = true := by
  revert other
  apply insert_induction (P := fun self _ result =>
    ∀ {other}, result.2.hasRoom env other = true → self.hasRoom env other = true)
  · intro self other hroom
    cases hadd : self.addRequest mem req with
    | none => simpa [hadd] using hroom
    | some added =>
      obtain ⟨hlimit, _, rfl⟩ := addRequest_eq_some.mp hadd
      rw [hadd] at hroom
      cases other with
      | nil => simpa [hasRoom] using hlimit
      | cons first rest => exact hroom
  · intro self name names next result hchild ih other hroom
    have hchild' : find self.children name = some next := hchild
    cases other with
    | nil => exact hroom
    | cons first rest =>
      simp only [hasRoom, withChild, getChildPivot, find_adjust, length_adjust] at hroom ⊢
      by_cases heq : name = first
      · subst heq
        simp only [hchild', if_true, Option.map_some] at hroom ⊢
        exact ih hroom
      · simpa only [if_neg heq] using hroom
  · intro self name names _ _ other hroom
    exact hroom
  · intro self name names added result _ hadd ih other hroom
    exact addChildPivot_hasRoom hadd (ih hroom)

end Pivot

end plusfish

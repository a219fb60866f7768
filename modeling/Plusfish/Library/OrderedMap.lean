import Mathlib.Data.List.Nodup
import Mathlib.Data.List.Perm.Basic
import Mathlib.Tactic.Common

namespace ordered_map

/-- The entries of a map, listed in the order in which the map is iterated. -/
abbrev OrderedMap (κ ν : Type) := List (κ × ν)

section
variable {κ ν : Type} [DecidableEq κ]

def find : OrderedMap κ ν → κ → Option ν
  | [], _ => none
  | (key, value) :: entries, k => if key = k then some value else find entries k

def keys (m : OrderedMap κ ν) : List κ := m.map Prod.fst

/-- Changes the value stored under a key, where there is one. -/
def adjust : OrderedMap κ ν → κ → (ν → ν) → OrderedMap κ ν
  | [], _, _ => []
  | (key, value) :: entries, k, f =>
    if key = k then (key, f value) :: entries else (key, value) :: adjust entries k f

def erase : OrderedMap κ ν → κ → OrderedMap κ ν
  | [], _ => []
  | (key, value) :: entries, k => if key = k then entries else (key, value) :: erase entries k

/-- Stores under a key what a function makes of the value stored there. A new key goes to the
    end. -/
def put (m : OrderedMap κ ν) (k : κ) (f : Option ν → ν) : OrderedMap κ ν :=
  if (find m k).isSome then adjust m k fun v => f (some v) else m ++ [(k, f none)]

variable [LT κ] [DecidableLT κ]

/-- Adds an entry before the first larger key. An entry that has the key stays. -/
def emplace : OrderedMap κ ν → κ → ν → OrderedMap κ ν
  | [], k, v => [(k, v)]
  | (key, value) :: entries, k, v =>
    if key = k then (key, value) :: entries
    else if k < key then (k, v) :: (key, value) :: entries
    else (key, value) :: emplace entries k v

/-- Stores a value under a key, over the value stored there before. -/
def assign (m : OrderedMap κ ν) (k : κ) (v : ν) : OrderedMap κ ν :=
  if (find m k).isSome then adjust m k (fun _ => v) else emplace m k v

end

section
variable {κ ν : Type} [DecidableEq κ]

theorem mem_of_find {m : OrderedMap κ ν} {k : κ} {v : ν} (h : find m k = some v) : (k, v) ∈ m := by
  induction m with
  | nil => simp [find] at h
  | cons entry entries ih =>
    obtain ⟨key, value⟩ := entry
    simp only [find] at h
    split at h
    · simp_all
    · exact List.mem_cons_of_mem _ (ih h)

theorem find_eq_none_iff {m : OrderedMap κ ν} {k : κ} : find m k = none ↔ k ∉ keys m := by
  induction m with
  | nil => simp [find, keys]
  | cons entry entries ih =>
    obtain ⟨key, value⟩ := entry
    simp only [find, keys, List.map_cons, List.mem_cons, not_or] at *
    by_cases h : key = k
    · simp [h]
    · simp only [h, if_false, ih]
      exact ⟨fun hnot => ⟨Ne.symm h, hnot⟩, fun hnot => hnot.2⟩

theorem find_cons_eq_none {m : OrderedMap κ ν} {key k : κ} {value : ν} :
    find ((key, value) :: m) k = none ↔ key ≠ k ∧ find m k = none := by
  by_cases hkey : key = k <;> simp [find, hkey]

theorem find_of_mem {m : OrderedMap κ ν} {k : κ} {v : ν} (hkeys : (keys m).Nodup)
    (h : (k, v) ∈ m) : find m k = some v := by
  induction m with
  | nil => simp at h
  | cons entry entries ih =>
    obtain ⟨key, value⟩ := entry
    simp only [keys, List.map_cons, List.nodup_cons] at hkeys
    simp only [find]
    rcases List.mem_cons.mp h with heq | hmem
    · simp_all
    · have hne : key ≠ k := by
        rintro rfl
        exact hkeys.1 (List.mem_map.mpr ⟨(key, v), hmem, rfl⟩)
      simp [hne, ih hkeys.2 hmem]

/-- A new key at the end of the entries. -/
theorem find_append_singleton {m : OrderedMap κ ν} {k : κ} (h : find m k = none) (v : ν) (k' : κ) :
    find (m ++ [(k, v)]) k' = if k = k' then some v else find m k' := by
  induction m with
  | nil => simp [find]
  | cons entry entries ih =>
    obtain ⟨key, value⟩ := entry
    obtain ⟨hkey, hrest⟩ := find_cons_eq_none.mp h
    by_cases hkey' : key = k'
    · subst hkey'
      simp [find, Ne.symm hkey]
    · simp [find, hkey', ih hrest]

theorem find_adjust (m : OrderedMap κ ν) (k k' : κ) (f : ν → ν) :
    find (adjust m k f) k' = if k = k' then (find m k').map f else find m k' := by
  induction m with
  | nil => simp [find, adjust]
  | cons entry entries ih =>
    obtain ⟨key, value⟩ := entry
    by_cases hkey : key = k
    · subst hkey
      by_cases h : key = k' <;> simp [find, adjust, h]
    · by_cases hkey' : key = k'
      · subst hkey'
        simp [find, adjust, hkey, Ne.symm hkey]
      · simp [find, adjust, hkey, hkey', ih]

@[simp] theorem keys_adjust (m : OrderedMap κ ν) (k : κ) (f : ν → ν) :
    keys (adjust m k f) = keys m := by
  induction m with
  | nil => simp [keys, adjust]
  | cons entry entries ih =>
    obtain ⟨key, value⟩ := entry
    simp only [keys, adjust] at *
    by_cases h : key = k <;> simp [h, ih]

@[simp] theorem length_adjust (m : OrderedMap κ ν) (k : κ) (f : ν → ν) :
    (adjust m k f).length = m.length := by
  simpa [keys] using congrArg List.length (keys_adjust m k f)

/-- An adjusted map is the same entries with the one under the key replaced. -/
theorem perm_adjust {m : OrderedMap κ ν} {k : κ} {v : ν} (h : find m k = some v) (f : ν → ν) :
    m.Perm ((k, v) :: erase m k) ∧ (adjust m k f).Perm ((k, f v) :: erase m k) := by
  induction m with
  | nil => simp [find] at h
  | cons entry entries ih =>
    obtain ⟨key, value⟩ := entry
    by_cases hkey : key = k
    · subst hkey
      have hvalue : value = v := by simpa [find] using h
      subst hvalue
      simp [adjust, erase]
    · have hrest : find entries k = some v := by simpa [find, hkey] using h
      obtain ⟨hbefore, hafter⟩ := ih hrest
      simp only [adjust, erase, hkey, if_false]
      exact ⟨(hbefore.cons _).trans (List.Perm.swap _ _ _),
        (hafter.cons _).trans (List.Perm.swap _ _ _)⟩

theorem adjust_self {m : OrderedMap κ ν} {k : κ} {v : ν} (h : find m k = some v) :
    adjust m k (fun _ => v) = m := by
  induction m with
  | nil => rfl
  | cons entry entries ih =>
    obtain ⟨key, value⟩ := entry
    by_cases hkey : key = k
    · have hvalue : value = v := by simpa [find, hkey] using h
      simp [adjust, hkey, hvalue]
    · simp only [find, hkey, if_false] at h
      simp [adjust, hkey, ih h]

theorem erase_sublist (m : OrderedMap κ ν) (k : κ) : (erase m k).Sublist m := by
  induction m with
  | nil => exact .refl _
  | cons entry entries ih =>
    obtain ⟨key, value⟩ := entry
    unfold erase
    split
    · exact List.sublist_cons_self _ _
    · exact ih.cons_cons _

theorem mem_of_mem_erase {m : OrderedMap κ ν} {k : κ} {entry : κ × ν} (h : entry ∈ erase m k) :
    entry ∈ m := by
  induction m with
  | nil => simp [erase] at h
  | cons first entries ih =>
    obtain ⟨key, value⟩ := first
    simp only [erase] at h
    split at h
    · exact List.mem_cons_of_mem _ h
    · rcases List.mem_cons.mp h with rfl | hrest
      · exact List.mem_cons_self
      · exact List.mem_cons_of_mem _ (ih hrest)

theorem nodup_keys_erase {m : OrderedMap κ ν} (k : κ) (hkeys : (keys m).Nodup) :
    (keys (erase m k)).Nodup := by
  induction m with
  | nil => exact hkeys
  | cons entry entries ih =>
    obtain ⟨key, value⟩ := entry
    obtain ⟨hnew, hrest⟩ := List.nodup_cons.mp hkeys
    simp only [erase]
    split
    · exact hrest
    · refine List.nodup_cons.mpr ⟨fun hmem => hnew ?_, ih hrest⟩
      obtain ⟨entry, hentry, heq⟩ := List.mem_map.mp hmem
      exact List.mem_map.mpr ⟨entry, mem_of_mem_erase hentry, heq⟩

theorem find_erase {m : OrderedMap κ ν} (k k' : κ) (hkeys : (keys m).Nodup) :
    find (erase m k) k' = if k = k' then none else find m k' := by
  induction m with
  | nil => simp [erase, find]
  | cons entry entries ih =>
    obtain ⟨key, value⟩ := entry
    obtain ⟨hnew, hrest⟩ := List.nodup_cons.mp hkeys
    by_cases hkey : key = k
    · subst hkey
      by_cases hkey' : key = k'
      · subst hkey'
        have hnone : find entries key = none := find_eq_none_iff.mpr hnew
        simp [erase, hnone]
      · simp [erase, find, hkey']
    · by_cases hkey' : key = k'
      · subst hkey'
        simp [erase, find, hkey, Ne.symm hkey]
      · simp [erase, find, hkey, hkey', ih hrest]

theorem erase_of_find_eq_none {m : OrderedMap κ ν} {k : κ} (h : find m k = none) :
    erase m k = m := by
  induction m with
  | nil => rfl
  | cons entry entries ih =>
    obtain ⟨key, value⟩ := entry
    obtain ⟨hkey, hrest⟩ := find_cons_eq_none.mp h
    simp [erase, hkey, ih hrest]

/-- What a map's entries contribute to a list, with the entry under a key first. -/
theorem perm_flatMap_find {α : Type} (m : OrderedMap κ ν) (k : κ) (f : κ × ν → List α) :
    (m.flatMap f).Perm (((find m k).map fun v => f (k, v)).getD [] ++ (erase m k).flatMap f) := by
  cases hfind : find m k with
  | none => simp [erase_of_find_eq_none hfind]
  | some v => simpa using (perm_adjust hfind id).1.flatMap_right f

theorem nodup_keys_put {m : OrderedMap κ ν} (k : κ) (f : Option ν → ν) (hkeys : (keys m).Nodup) :
    (keys (put m k f)).Nodup := by
  unfold put
  cases hfind : find m k with
  | none =>
    have hnew : k ∉ keys m := find_eq_none_iff.mp hfind
    have happend : keys (m ++ [(k, f none)]) = keys m ++ [k] := List.map_append
    simp only [Option.isSome_none, Bool.false_eq_true, if_false, happend]
    exact List.nodup_append.mpr ⟨hkeys, List.nodup_singleton k, by
      rintro key hmem _ hlast rfl
      exact hnew (List.mem_singleton.mp hlast ▸ hmem)⟩
  | some v => simpa using hkeys

theorem mem_put {m : OrderedMap κ ν} {k : κ} {f : Option ν → ν} {entry : κ × ν}
    (h : entry ∈ put m k f) : entry ∈ m ∨ entry = (k, f (find m k)) := by
  unfold put at h
  cases hfind : find m k with
  | none =>
    rw [hfind] at h
    rcases List.mem_append.mp h with hold | hnew
    · exact .inl hold
    · exact .inr (List.mem_singleton.mp hnew)
  | some v =>
    simp only [hfind, Option.isSome_some, if_true] at h
    rcases List.mem_cons.mp ((perm_adjust hfind fun v => f (some v)).2.mem_iff.mp h) with heq | hold
    · exact .inr heq
    · exact .inl (mem_of_mem_erase hold)

/-- A loop over the entries that replaces the value of a key replaces the one there is. -/
theorem map_replace_eq_adjust {m : OrderedMap κ ν} (hkeys : (keys m).Nodup) (k : κ) (f : ν → ν) :
    m.map (fun entry => if entry.1 = k then (k, f entry.2) else entry) = adjust m k f := by
  induction m with
  | nil => rfl
  | cons entry entries ih =>
    obtain ⟨key, value⟩ := entry
    obtain ⟨hnew, hrest⟩ := List.nodup_cons.mp hkeys
    by_cases hkey : key = k
    · subst hkey
      have hothers : entries.map (fun entry => if entry.1 = key then (key, f entry.2) else entry) =
          entries := by
        refine (List.map_congr_left fun entry hmem => ?_).trans (List.map_id entries)
        have hne : entry.1 ≠ key := fun heq => hnew (heq ▸ List.mem_map.mpr ⟨entry, hmem, rfl⟩)
        rw [if_neg hne, id]
      simp [adjust, hothers]
    · simp [adjust, hkey, ih hrest]

theorem any_key_eq [BEq κ] [LawfulBEq κ] (m : OrderedMap κ ν) (k : κ) :
    (m.any fun entry => entry.1 == k) = (find m k).isSome := by
  induction m with
  | nil => rfl
  | cons entry entries ih =>
    obtain ⟨key, value⟩ := entry
    by_cases hkey : key = k <;> simp [find, hkey, ih]

/-- The two branches in which code over a list of entries stores a value. -/
theorem replace_or_append_eq_put [BEq κ] [LawfulBEq κ] {m : OrderedMap κ ν}
    (hkeys : (keys m).Nodup) (k : κ) (f : Option ν → ν) :
    (if m.any (fun entry => entry.1 == k) then
      m.map fun entry => if entry.1 = k then (k, f (some entry.2)) else entry
    else m ++ [(k, f none)]) = put m k f := by
  rw [any_key_eq, map_replace_eq_adjust hkeys k fun v => f (some v), put]

variable [LT κ] [DecidableLT κ]

theorem perm_emplace {m : OrderedMap κ ν} {k : κ} (h : find m k = none) (v : ν) :
    (emplace m k v).Perm ((k, v) :: m) := by
  induction m with
  | nil => simp [emplace]
  | cons entry entries ih =>
    obtain ⟨key, value⟩ := entry
    obtain ⟨hkey, hrest⟩ := find_cons_eq_none.mp h
    simp only [emplace, hkey, if_false]
    split
    · exact List.Perm.refl _
    · exact ((ih hrest).cons _).trans (List.Perm.swap _ _ _)

theorem find_emplace {m : OrderedMap κ ν} {k : κ} (h : find m k = none) (v : ν) (k' : κ) :
    find (emplace m k v) k' = if k = k' then some v else find m k' := by
  induction m with
  | nil => simp [find, emplace]
  | cons entry entries ih =>
    obtain ⟨key, value⟩ := entry
    obtain ⟨hkey, hrest⟩ := find_cons_eq_none.mp h
    simp only [emplace, hkey, if_false]
    split
    · simp [find]
    · by_cases hkey' : key = k'
      · subst hkey'
        simp [find, Ne.symm hkey]
      · simp [find, hkey', ih hrest]

theorem length_emplace {m : OrderedMap κ ν} {k : κ} (h : find m k = none) (v : ν) :
    (emplace m k v).length = m.length + 1 := by
  simpa using (perm_emplace h v).length_eq

theorem nodup_keys_emplace {m : OrderedMap κ ν} {k : κ} (h : find m k = none) (v : ν)
    (hkeys : (keys m).Nodup) : (keys (emplace m k v)).Nodup := by
  have hperm : (keys (emplace m k v)).Perm (k :: keys m) := (perm_emplace h v).map Prod.fst
  exact hperm.nodup_iff.mpr (List.nodup_cons.mpr ⟨find_eq_none_iff.mp h, hkeys⟩)

theorem adjust_emplace {m : OrderedMap κ ν} {k : κ} (h : find m k = none) (v v' : ν) :
    adjust (emplace m k v) k (fun _ => v') = emplace m k v' := by
  induction m with
  | nil => simp [emplace, adjust]
  | cons entry entries ih =>
    obtain ⟨key, value⟩ := entry
    obtain ⟨hkey, hrest⟩ := find_cons_eq_none.mp h
    simp only [emplace, hkey, if_false]
    split
    · simp [adjust]
    · simp [adjust, hkey, ih hrest]

/-- Assigning replaces the entry under the key, if there is one. -/
theorem perm_assign (m : OrderedMap κ ν) (k : κ) (v : ν) :
    (assign m k v).Perm ((k, v) :: erase m k) := by
  unfold assign
  cases hfind : find m k with
  | none => simpa [erase_of_find_eq_none hfind] using perm_emplace hfind v
  | some old => simpa using (perm_adjust hfind fun _ => v).2

theorem perm_flatMap_assign {α : Type} (m : OrderedMap κ ν) (k : κ) (v : ν)
    (f : κ × ν → List α) :
    ((assign m k v).flatMap f).Perm (f (k, v) ++ (erase m k).flatMap f) := by
  simpa using (perm_assign m k v).flatMap_right f

theorem find_assign (m : OrderedMap κ ν) (k k' : κ) (v : ν) :
    find (assign m k v) k' = if k = k' then some v else find m k' := by
  unfold assign
  cases hfind : find m k with
  | none => simpa [hfind] using find_emplace hfind v k'
  | some old =>
    by_cases h : k = k'
    · subst h
      simp [find_adjust, hfind]
    · simp [find_adjust, h]

theorem nodup_keys_assign {m : OrderedMap κ ν} (k : κ) (v : ν) (hkeys : (keys m).Nodup) :
    (keys (assign m k v)).Nodup := by
  unfold assign
  cases hfind : find m k with
  | none => simpa using nodup_keys_emplace hfind v hkeys
  | some old => simpa using hkeys

/-- The entries stand in the order of their keys. -/
def Sorted (m : OrderedMap κ ν) : Prop := (keys m).Pairwise (· < ·)

theorem mem_keys_emplace {m : OrderedMap κ ν} {k k' : κ} {v : ν}
    (h : k' ∈ keys (emplace m k v)) : k' = k ∨ k' ∈ keys m := by
  induction m with
  | nil => exact Or.inl (List.mem_singleton.mp h)
  | cons entry entries ih =>
    obtain ⟨key, value⟩ := entry
    simp only [emplace] at h
    split at h
    · exact Or.inr h
    · split at h
      · exact List.mem_cons.mp h
      · rcases List.mem_cons.mp h with rfl | h
        · exact Or.inr List.mem_cons_self
        · exact (ih h).imp_right (List.mem_cons_of_mem _)

theorem sorted_emplace [Trans (α := κ) (· < ·) (· < ·) (· < ·)]
    [Std.Trichotomous (α := κ) (· < ·)] {m : OrderedMap κ ν} (hm : Sorted m) (k : κ) (v : ν) :
    Sorted (emplace m k v) := by
  induction m with
  | nil => exact List.pairwise_singleton _ _
  | cons entry entries ih =>
    obtain ⟨key, value⟩ := entry
    obtain ⟨hfirst, hrest⟩ := List.pairwise_cons.mp hm
    simp only [emplace]
    by_cases hkey : key = k
    · rwa [if_pos hkey]
    · rw [if_neg hkey]
      by_cases hlt : k < key
      · rw [if_pos hlt]
        refine List.pairwise_cons.mpr ⟨fun key' hkey' => ?_, hm⟩
        rcases List.mem_cons.mp hkey' with rfl | hkey'
        · exact hlt
        · exact Trans.trans hlt (hfirst key' hkey')
      · rw [if_neg hlt]
        refine List.pairwise_cons.mpr ⟨fun key' hkey' => ?_, ih hrest⟩
        rcases mem_keys_emplace hkey' with rfl | hkey'
        · by_contra hge
          exact hkey (Std.Trichotomous.trichotomous key key' hge hlt)
        · exact hfirst key' hkey'

theorem find_emplace_of_sorted [Std.Irrefl (α := κ) (· < ·)]
    [Trans (α := κ) (· < ·) (· < ·) (· < ·)] {m : OrderedMap κ ν} (hm : Sorted m) (k k' : κ)
    (v : ν) :
    find (emplace m k v) k' = if k = k' then some ((find m k).getD v) else find m k' := by
  cases hfind : find m k with
  | none => exact find_emplace hfind v k'
  | some old =>
    have hsame : emplace m k v = m := by
      induction m with
      | nil => cases hfind
      | cons entry entries ih =>
        obtain ⟨key, value⟩ := entry
        obtain ⟨hfirst, hrest⟩ := List.pairwise_cons.mp hm
        simp only [find, emplace] at hfind ⊢
        by_cases hkey : key = k
        · rw [if_pos hkey]
        · rw [if_neg hkey] at hfind ⊢
          have hmem : k ∈ keys entries := List.mem_map_of_mem (mem_of_find hfind)
          have hlt : ¬ k < key := fun hlt =>
            Std.Irrefl.irrefl k (Trans.trans hlt (hfirst k hmem))
          rw [if_neg hlt, ih hrest hfind]
    rw [hsame]
    split
    · rename_i heq
      rw [← heq, hfind]
      rfl
    · rfl

end

end ordered_map

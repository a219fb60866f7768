import Mathlib.Data.Set.Insert
import Plusfish.DataStore.Duplicates

namespace plusfish

/-- The lists are of one length and have the same set of names. -/
def SameNames (one two : List HttpRequest.RequestField) : Prop :=
  one.length = two.length ∧ ∀ name, name ∈ fieldNames one ↔ name ∈ fieldNames two

theorem length_fieldNames (fields : List HttpRequest.RequestField) :
    (fieldNames fields).length = fields.length := List.length_map _

theorem fieldNamesEqual_iff (one two : List HttpRequest.RequestField) :
    fieldNamesEqual one two = true ↔ one.length = two.length ∧
      (fieldNames one ++ fieldNames two).dedup.length = one.length := by
  by_cases hlength : one.length = two.length
  · simp [fieldNamesEqual, hlength, fieldNames]
  · simp [fieldNamesEqual, hlength]

/-- Where no name is repeated, the size of the union decides whether the names agree. -/
theorem fieldNamesEqual_iff_sameNames {one two : List HttpRequest.RequestField}
    (hone : (fieldNames one).Nodup) (htwo : (fieldNames two).Nodup) :
    fieldNamesEqual one two = true ↔ SameNames one two := by
  rw [fieldNamesEqual_iff]
  refine and_congr_right fun hlength => ⟨fun hsize name => ?_, fun hnames => ?_⟩
  · -- Either list of names lies in the union and is as long, hence is all of it.
    have hperm {names : List Bytes} (hnodup : names.Nodup)
        (hsub : names ⊆ fieldNames one ++ fieldNames two) (hlen : names.length = one.length) :
        names.Perm (fieldNames one ++ fieldNames two).dedup := by
      have hsubperm : names.Subperm (fieldNames one ++ fieldNames two).dedup :=
        List.subperm_of_subset hnodup fun name h => List.mem_dedup.mpr (hsub h)
      exact hsubperm.perm_of_length_le (by rw [hsize, hlen])
    have hpermone := hperm hone (List.subset_append_left _ _) (length_fieldNames one)
    have hpermtwo := hperm htwo (List.subset_append_right _ _)
      ((length_fieldNames two).trans hlength.symm)
    exact (hpermone.trans hpermtwo.symm).mem_iff
  · have hperm : (fieldNames one ++ fieldNames two).dedup.Perm (fieldNames one) := by
      apply (List.perm_ext_iff_of_nodup (List.nodup_dedup _) hone).mpr
      intro name
      simp [← hnames name]
    rw [hperm.length_eq, length_fieldNames]

theorem SameNames.refl (fields : List HttpRequest.RequestField) : SameNames fields fields :=
  ⟨rfl, fun _ => Iff.rfl⟩

theorem SameNames.symm {one two : List HttpRequest.RequestField} (h : SameNames one two) :
    SameNames two one :=
  ⟨h.1.symm, fun name => (h.2 name).symm⟩

theorem SameNames.trans {one two three : List HttpRequest.RequestField} (h : SameNames one two)
    (h' : SameNames two three) : SameNames one three :=
  ⟨h.1.trans h'.1, fun name => (h.2 name).trans (h'.2 name)⟩

namespace Request

/-- The requests have the same scheme flag, method, host, port and path elements, and
    equally many parameters with the same names. -/
structure SameUpToValues (a b : Request) : Prop where
  ssl : a.proto.ssl = b.proto.ssl
  method : a.proto.method = b.proto.method
  host : a.proto.host = b.proto.host
  port : a.proto.port = b.proto.port
  path : a.proto.path.map (·.value) = b.proto.path.map (·.value)
  param : SameNames a.proto.param b.proto.param
  bodyParam : SameNames a.proto.bodyParam b.proto.bodyParam

theorem SameUpToValues.refl (a : Request) : a.SameUpToValues a :=
  ⟨rfl, rfl, rfl, rfl, rfl, SameNames.refl _, SameNames.refl _⟩

theorem SameUpToValues.trans {a b c : Request} (h : a.SameUpToValues b)
    (h' : b.SameUpToValues c) : a.SameUpToValues c where
  ssl := h.ssl.trans h'.ssl
  method := h.method.trans h'.method
  host := h.host.trans h'.host
  port := h.port.trans h'.port
  path := h.path.trans h'.path
  param := h.param.trans h'.param
  bodyParam := h.bodyParam.trans h'.bodyParam

theorem equals_iff_sameUpToValues {a b : Request} (ha : a.DistinctNames) (hb : b.DistinctNames) :
    a.equals b = true ↔ a.SameUpToValues b := by
  rw [equals_iff, fieldNamesEqual_iff_sameNames ha.1 hb.1,
    fieldNamesEqual_iff_sameNames ha.2 hb.2]
  constructor
  · rintro ⟨hssl, hmethod, hhost, hport, hparam, hbody, hpath⟩
    exact ⟨hssl, hmethod, hhost, hport, hpath, hparam, hbody⟩
  · intro h
    exact ⟨h.ssl, h.method, h.host, h.port, h.param, h.bodyParam, h.path⟩

/-- Among the requests, `equals` is an equivalence relation and looks past nothing but
    the values of parameters. -/
structure ComparesNames (requests : Set Request) : Prop where
  refl : ∀ a ∈ requests, a.equals a = true
  symm : ∀ a ∈ requests, ∀ b ∈ requests, a.equals b = true → b.equals a = true
  trans : ∀ a ∈ requests, ∀ b ∈ requests, ∀ c ∈ requests,
    a.equals b = true → b.equals c = true → a.equals c = true
  equals_iff : ∀ a ∈ requests, ∀ b ∈ requests, a.equals b = true ↔ a.SameUpToValues b

/-- `equals` compares the names as it should exactly among requests that repeat none. -/
theorem comparesNames_iff (requests : Set Request) :
    ComparesNames requests ↔ ∀ a ∈ requests, a.DistinctNames := by
  constructor
  · intro h a ha
    exact a.equals_self_iff.mp (h.refl a ha)
  · intro h
    refine ⟨fun a ha => a.equals_self_iff.mpr (h a ha), fun a _ b _ hab => ?_,
      fun a ha b hb c hc hab hbc => ?_,
      fun a ha b hb => equals_iff_sameUpToValues (h a ha) (h b hb)⟩
    · rwa [equals_comm]
    · have hsame := (equals_iff_sameUpToValues (h a ha) (h b hb)).mp hab
      have hsame' := (equals_iff_sameUpToValues (h b hb) (h c hc)).mp hbc
      exact (equals_iff_sameUpToValues (h a ha) (h c hc)).mpr (hsame.trans hsame')

/-- The request of a search page with the named parameters. -/
def searchRequest (names : List String) : Request :=
  ofProto (RequestEnv.single (ascii "site"))
    { hostField := some (ascii "site")
      portField := some 80
      param := names.map fun name =>
        { nameField := some (ascii name), valueField := some (ascii "1") } }

/-- A request with one name twice does not equal itself, but equals one with two names,
    which equals it. -/
theorem searchRequest_not_comparesNames :
    (searchRequest ["x", "x"]).equals (searchRequest ["x", "x"]) = false ∧
    (searchRequest ["x", "x"]).equals (searchRequest ["x", "y"]) = true ∧
    (searchRequest ["x", "y"]).equals (searchRequest ["x", "x"]) = true ∧
    ¬ (searchRequest ["x", "x"]).SameUpToValues (searchRequest ["x", "y"]) ∧
    ¬ ComparesNames {searchRequest ["x", "x"], searchRequest ["x", "y"]} := by
  have hself : (searchRequest ["x", "x"]).equals (searchRequest ["x", "x"]) = false := by decide
  refine ⟨hself, by decide, by decide, fun h => ?_, fun h => ?_⟩
  · have hname := (h.param.2 (ascii "y")).mpr (by decide)
    exact absurd hname (by decide)
  · have hequals := h.refl _ (Set.mem_insert _ _)
    rw [hself] at hequals
    cases hequals

end Request

end plusfish

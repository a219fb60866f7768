import Mathlib.Data.List.Infix
import Plusfish.Response

namespace plusfish

namespace Response

def separators : List Bytes := [kHeaderBodySplitString, kHeaderBodySplitStringNoCr]

theorem separators_cases {separator : Bytes} (hseparator : separator ∈ separators) :
    separator = kHeaderBodySplitString ∨ separator = kHeaderBodySplitStringNoCr := by
  rcases List.mem_cons.mp hseparator with rfl | hseparator
  · exact .inl rfl
  · exact .inr (List.mem_singleton.mp hseparator)

/-- A response is split at its earliest separator. -/
structure Split (response headers separator body : Bytes) : Prop where
  eq : response = headers ++ (separator ++ body)
  isSeparator : separator ∈ separators
  earliest : ∀ headers' separator' body', response = headers' ++ (separator' ++ body') →
    separator' ∈ separators → headers.length ≤ headers'.length

/-- `Response::Parse`, for the two parts of a response. -/
def parseParts (self : Response) (headers body : Bytes) : Option (Bool × Response) :=
  match parseHeaders { self.proto with responseBodyField := some body } headers with
  | none => none
  | some (false, proto) => some (false, { self with proto })
  | some (true, proto) =>
    let parsed := { self with proto }
    some (true, { parsed with
      proto := { parsed.proto with mimeTypeField := some parsed.identifyMime } })

theorem findSeparator_cons (c : UInt8) (rest : Bytes) : findSeparator (c :: rest) =
    if kHeaderBodySplitString <+: c :: rest then some (0, kHeaderBodySplitString.length)
    else if kHeaderBodySplitStringNoCr <+: c :: rest then
      some (0, kHeaderBodySplitStringNoCr.length)
    else (findSeparator rest).map fun found => (found.1 + 1, found.2) := by
  have hcr : (c = 13 ∧ (c :: rest).take 4 = kHeaderBodySplitString) ↔
      kHeaderBodySplitString <+: c :: rest := by
    rw [List.prefix_iff_eq_take]
    exact ⟨fun h => h.2.symm, fun h => ⟨(List.cons.inj h).1.symm, h.symm⟩⟩
  have hlf : (c = 10 ∧ (c :: rest).take 2 = kHeaderBodySplitStringNoCr) ↔
      kHeaderBodySplitStringNoCr <+: c :: rest := by
    rw [List.prefix_iff_eq_take]
    exact ⟨fun h => h.2.symm, fun h => ⟨(List.cons.inj h).1.symm, h.symm⟩⟩
  rw [findSeparator]
  simp only [hcr, hlf]

theorem findSeparator_cons_of_not {c : UInt8} {rest : Bytes}
    (hnot : ∀ separator ∈ separators, ¬ separator <+: c :: rest) : findSeparator (c :: rest) =
      (findSeparator rest).map fun found => (found.1 + 1, found.2) := by
  rw [findSeparator_cons, if_neg (hnot _ (by simp [separators])),
    if_neg (hnot _ (by simp [separators]))]

theorem findSeparator_separator {separator : Bytes} (hseparator : separator ∈ separators)
    (body : Bytes) : findSeparator (separator ++ body) = some (0, separator.length) := by
  rcases separators_cases hseparator with rfl | rfl
  · exact (findSeparator_cons 13 _).trans (if_pos (List.prefix_append _ _))
  · refine (findSeparator_cons 10 _).trans ((if_neg fun h => ?_).trans
      (if_pos (List.prefix_append _ _)))
    exact absurd (List.cons_prefix_cons.mp h).1 (by decide)

theorem findSeparator_eq_none_iff {response : Bytes} : findSeparator response = none ↔
    ∀ separator ∈ separators, ¬ separator <:+: response := by
  induction response with
  | nil => simp [findSeparator, separators, kHeaderBodySplitString, kHeaderBodySplitStringNoCr]
  | cons c rest ih =>
    simp only [List.infix_cons_iff, not_or, forall_and]
    constructor
    · intro hnone
      rw [findSeparator_cons] at hnone
      split at hnone
      · cases hnone
      · split at hnone
        · cases hnone
        · rename_i hcr hlf
          refine ⟨?_, ih.mp (Option.map_eq_none_iff.mp hnone)⟩
          simp only [separators, List.forall_mem_cons]
          exact ⟨hcr, hlf, fun _ h => absurd h List.not_mem_nil⟩
    · rintro ⟨hstart, hrest⟩
      rw [findSeparator_cons_of_not hstart, ih.mpr hrest, Option.map_none]

/-- The loop of the source finds the place where the response is split. -/
theorem Split.findSeparator {response headers separator body : Bytes}
    (h : Split response headers separator body) :
    findSeparator response = some (headers.length, separator.length) := by
  induction headers generalizing response with
  | nil =>
    rw [h.eq]
    exact findSeparator_separator h.isSeparator body
  | cons c headers ih =>
    have hnot : ∀ separator' ∈ separators, ¬ separator' <+: response := by
      rintro separator' hmem ⟨rest, hrest⟩
      exact absurd (h.earliest [] separator' rest hrest.symm hmem) (by simp)
    have hrest : Split (headers ++ (separator ++ body)) headers separator body := by
      refine ⟨rfl, h.isSeparator, fun headers' separator' body' heq hmem => ?_⟩
      have heq : response = c :: headers' ++ (separator' ++ body') := by
        rw [h.eq, List.cons_append, heq]
        rfl
      have hle := h.earliest (c :: headers') separator' body' heq hmem
      simpa using hle
    rw [h.eq, List.cons_append] at hnot ⊢
    rw [findSeparator_cons_of_not hnot, ih hrest]
    rfl

theorem exists_split {response : Bytes} {found : Nat × Nat}
    (hfound : findSeparator response = some found) :
    ∃ headers separator body, Split response headers separator body := by
  induction response generalizing found with
  | nil => cases hfound
  | cons c rest ih =>
    by_cases hstart : ∃ separator ∈ separators, separator <+: c :: rest
    · obtain ⟨separator, hmem, body, hbody⟩ := hstart
      exact ⟨[], separator, body, hbody.symm, hmem, fun _ _ _ _ _ => Nat.zero_le _⟩
    · have hnot : ∀ separator ∈ separators, ¬ separator <+: c :: rest :=
        fun separator hmem h => hstart ⟨separator, hmem, h⟩
      rw [findSeparator_cons_of_not hnot] at hfound
      obtain ⟨later, hlater, _⟩ := Option.map_eq_some_iff.mp hfound
      obtain ⟨headers, separator, body, hsplit⟩ := ih hlater
      refine ⟨c :: headers, separator, body, by rw [hsplit.eq]; rfl, hsplit.isSeparator,
        fun headers' separator' body' heq hmem => ?_⟩
      cases headers' with
      | nil => exact absurd ⟨body', heq.symm⟩ (hnot separator' hmem)
      | cons c' headers' =>
        have hle := hsplit.earliest headers' separator' body' (List.cons.inj heq).2 hmem
        simpa using hle

theorem parse_of_findSeparator (self : Response) {headers separator body : Bytes}
    (hfound : findSeparator (headers ++ (separator ++ body)) =
      some (headers.length, separator.length)) :
    self.parse (headers ++ (separator ++ body)) = self.parseParts headers body := by
  have hdrop : (headers ++ (separator ++ body)).drop (headers.length + separator.length) =
      body := by
    rw [← List.append_assoc, ← List.length_append, List.drop_left]
  have htake : (headers ++ (separator ++ body)).take headers.length = headers := List.take_left
  unfold Response.parse
  split
  · rename_i hnone
    rw [hnone] at hfound
    cases hfound
  · rename_i hsome
    rw [hfound] at hsome
    cases hsome
    exact congrArg₂ self.parseParts htake hdrop

/-- A response is parsed as the two parts that it is split into. -/
theorem Split.parse {response headers separator body : Bytes}
    (h : Split response headers separator body) (self : Response) :
    self.parse response = self.parseParts headers body := by
  have hfound := h.findSeparator
  rw [h.eq] at hfound ⊢
  exact self.parse_of_findSeparator hfound

end Response

end plusfish

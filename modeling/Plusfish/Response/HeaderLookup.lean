import Plusfish.Audit.GenericResponseMatcher
import Plusfish.Crawler

open memory

namespace plusfish

/-- The comparison of the lookup accepts the whole name. -/
theorem SameName.strNCaseEq {name name' : Bytes} (h : SameName name name') (n : Nat) :
    strNCaseEq name name' n = true := by
  rw [plusfish.strNCaseEq, List.map_take, List.map_take, map_toLower_cStr, map_toLower_cStr, h]
  exact beq_self_eq_true _

namespace Response

/-- The value of the first header with a name. -/
def namedHeader (self : Response) (headerName : Bytes) : Option Bytes :=
  (self.proto.header.find? fun header => SameName header.name headerName).map (·.value)

/-- If the first header whose name starts with the given one has a longer name, it has the value
    of the first header that has the given name. -/
def NamedFirst (self : Response) (headerName : Bytes) : Prop :=
  ∀ longer, (self.proto.header.find? fun header =>
      strNCaseEq header.name headerName headerName.length) = some longer →
    ¬ SameName longer.name headerName →
      ∃ named, (self.proto.header.find? fun header => SameName header.name headerName) =
        some named ∧ named.value = longer.value

variable {self : Response} {headerName : Bytes}

theorem getHeader_eq_iff :
    self.getHeader headerName = self.namedHeader headerName ↔ self.NamedFirst headerName := by
  unfold getHeader namedHeader NamedFirst
  generalize self.proto.header = headers
  cases hfirst : headers.find? fun header =>
      strNCaseEq header.name headerName headerName.length with
  | none =>
    have hnone : (headers.find? fun header => SameName header.name headerName) = none := by
      rw [List.find?_eq_none] at hfirst ⊢
      exact fun header hmem hsame => hfirst header hmem
        ((of_decide_eq_true hsame).strNCaseEq _)
    rw [hnone]
    refine ⟨fun _ longer hlonger => ?_, fun _ => rfl⟩
    cases hlonger
  | some first =>
    by_cases hsame : SameName first.name headerName
    · have hnamed : (headers.find? fun header => SameName header.name headerName) = some first := by
        rw [List.find?_eq_some_iff_append] at hfirst ⊢
        obtain ⟨_, before, after, rfl, hbefore⟩ := hfirst
        refine ⟨decide_eq_true hsame, before, after, rfl, fun header hmem => ?_⟩
        have hnot := hbefore header hmem
        simp only [Bool.not_eq_true', decide_eq_false_iff_not] at hnot ⊢
        intro hearlier
        rw [hearlier.strNCaseEq] at hnot
        cases hnot
      rw [hnamed]
      refine ⟨fun _ longer hlonger hnot => ?_, fun _ => rfl⟩
      cases hlonger
      exact absurd hsame hnot
    · constructor
      · intro hvalue longer hlonger _
        cases hlonger
        obtain ⟨named, hnamed, hvalue⟩ := Option.map_eq_some_iff.mp hvalue.symm
        exact ⟨named, hnamed, hvalue⟩
      · intro hlonger
        obtain ⟨named, hnamed, hvalue⟩ := hlonger first rfl hsame
        rw [hnamed, Option.map_some, Option.map_some, hvalue]

/-- A header is looked up by its name, and the MIME type, the conditions on headers and the
    redirections go by the header of that name, if no longer name comes first. -/
theorem getHeader_eq_namedHeader_iff (self : Response) :
    (∀ headerName, self.getHeader headerName = self.namedHeader headerName ↔
      self.NamedFirst headerName) ∧
    (self.NamedFirst HTTPHeaders.kContentType → self.identifyMime =
      HTTPHeaders.getMimeType (self.namedHeader HTTPHeaders.kContentType)) ∧
    (∀ request condition, condition.target = .responseHeaderValue →
      self.NamedFirst condition.field →
        GenericResponseMatcher.searchString request self condition =
          some (self.namedHeader condition.field)) ∧
    ∀ env mem store req, (deref mem req).response = some self →
      self.NamedFirst HTTPHeaders.kLocation → Crawler.addLocation env mem store req =
        match self.namedHeader HTTPHeaders.kLocation with
        | some locationValue => Crawler.maybeAddUrl env mem store req locationValue
        | none => (mem, store) := by
  refine ⟨fun _ => getHeader_eq_iff, fun hfirst => ?_, fun request condition htarget hfirst => ?_,
    fun env mem store req hresponse hfirst => ?_⟩
  · rw [identifyMime, getHeader_eq_iff.mpr hfirst]
  · unfold GenericResponseMatcher.searchString
    rw [htarget, getHeader_eq_iff.mpr hfirst]
  · have hlocation := getHeader_eq_iff.mpr hfirst
    unfold Crawler.addLocation
    cases hnamed : self.namedHeader HTTPHeaders.kLocation with
    | none => simp only [hresponse, Option.bind_some, hlocation, hnamed]
    | some locationValue => simp only [hresponse, Option.bind_some, hlocation, hnamed]

/-- A page with a header whose name starts with that of another one. -/
theorem not_getHeader_eq_namedHeader :
    ¬ ∀ raw self, parse {} raw = some (true, self) →
      ∀ headerName, self.getHeader headerName = self.namedHeader headerName := by
  intro h
  let raw := ascii "HTTP/1.1 200 OK\r\nLocation-Id: 7\r\n\r\n"
  have hparsed : (parse {} raw).map (fun parsed => (parsed.1,
      parsed.2.getHeader HTTPHeaders.kLocation, parsed.2.namedHeader HTTPHeaders.kLocation)) =
        some (true, some (ascii "7"), none) := by decide +kernel
  obtain ⟨⟨accepted, self⟩, hparse, hlookups⟩ := Option.map_eq_some_iff.mp hparsed
  simp only [Prod.mk.injEq] at hlookups
  obtain ⟨rfl, hget, hnamed⟩ := hlookups
  have heq := h raw self hparse HTTPHeaders.kLocation
  rw [hget, hnamed] at heq
  cases heq

end Response

end plusfish

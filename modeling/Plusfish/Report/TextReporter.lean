import Plusfish.PlusfishCli
import Plusfish.Report.JSONReporter

open memory

namespace plusfish

/-- The names that the protocol buffer library gives to the values of enumerations. -/
structure EnumNames where
  requestMethod : HttpRequest.RequestMethod → Bytes
  responseCode : HttpResponse.ResponseCode → Bytes
  issueType : IssueDetails.IssueType → Bytes

/-- A `TextReporter` object, with what its file writer has written. -/
structure TextReporter where
  fileContent : Bytes := []
deriving DecidableEq

namespace TextReporter

def writeString (self : TextReporter) (text : Bytes) : TextReporter :=
  { self with fileContent := self.fileContent ++ text }

variable (names : EnumNames) (mem : Heap Request)

/-- The string that `ReportPivot` makes for a request. -/
def reqString (request : Request) : Bytes :=
  let details := names.requestMethod request.proto.method ++
    match request.response with
    | some response => ascii ", " ++ names.responseCode response.proto.code
    | none => ascii ", not_fetched "
  let issues :=
    if request.issues = [] then []
    else ascii "Issue: " ++ request.issues.flatMap fun issue => names.issueType issue.1 ++ ascii " "
  request.url ++ ascii " [" ++ details ++ ascii "] " ++ issues

/-- What is written for a request. -/
def line (req : Nat) : Bytes := reqString names (deref mem req) ++ ascii "\n"

def reportPivot (pivot : Pivot) (_depth : Nat) (self : TextReporter) : TextReporter :=
  pivot.reqSamples.foldl (fun self req => self.writeString (line names mem req)) self

/-- The security config is not reported. -/
def reporterInterface (SecurityCheckConfig : Type) :
    ReporterInterface SecurityCheckConfig TextReporter where
  reportSecurityConfig := fun _ self => self
  reportPivot := reportPivot names mem

end TextReporter

inductive ReportType where
  | unspecified | text | json
deriving DecidableEq, Repr

/-- `ReportType_Parse`. -/
def ReportType.parse (name : Bytes) : Option ReportType :=
  if name = ascii "UNSPECIFIED" then some .unspecified
  else if name = ascii "TEXT" then some .text
  else if name = ascii "JSON" then some .json
  else none

abbrev Reporter := JSONReporter ⊕ TextReporter

/-- A `ReporterFactory`, and whether the report files that the flags name can be opened. -/
structure ReporterFactory where
  textFileOpens : Bool
  jsonFileOpens : Bool

namespace ReporterFactory

def getReporter (self : ReporterFactory) : ReportType → Option Reporter
  | .text => if self.textFileOpens then some (.inr {}) else none
  | .json => if self.jsonFileOpens then some (.inl {}) else none
  | .unspecified => none

def getReporterByName (self : ReporterFactory) (name : Bytes) : Option Reporter :=
  (ReportType.parse name).bind self.getReporter

end ReporterFactory

namespace Plusfish

variable (factory : ReporterFactory)

/-- The loop of `InitReporting`, which ends at the first type that gives no reporter. In each round
    a comma is taken from the stream, or its end is reached. -/
def initReportingLoop : (rounds : Nat) → (stream : Bytes) → (reporters : List Reporter) →
    Bool × List Reporter
  | 0, _, reporters => (true, reporters)
  | rounds + 1, stream, reporters =>
    match cli.getline 44 stream with
    | (reportType, rest) =>
      match factory.getReporterByName reportType, rest with
      | none, _ => (false, reporters)
      | some reporter, some rest => initReportingLoop rounds rest (reporters ++ [reporter])
      | some reporter, none => (true, reporters ++ [reporter])

def initReporting (reportTypes : Bytes) (reporters : List Reporter) : Bool × List Reporter :=
  initReportingLoop factory (reportTypes.length + 1) reportTypes reporters

end Plusfish

namespace TextReporter

variable {names : EnumNames} {mem : Heap Request}

theorem reportPivot_fileContent (pivot : Pivot) (depth : Nat) (self : TextReporter) :
    (reportPivot names mem pivot depth self).fileContent =
      self.fileContent ++ pivot.reqSamples.flatMap (line names mem) := by
  unfold reportPivot
  induction pivot.reqSamples generalizing self with
  | nil => exact (List.append_nil _).symm
  | cons req reqs ih =>
    rw [List.foldl_cons, ih, List.flatMap_cons, writeString, List.append_assoc]

/-- The lines of the stored requests are written one after the other. -/
theorem foldl_reportPivot (visits : List ((Bytes × List Bytes) × Pivot)) (self : TextReporter) :
    (visits.foldl (fun self visit => reportPivot names mem visit.2 (1 + visit.1.2.length) self)
      self).fileContent = self.fileContent ++
        (visits.flatMap fun visit => visit.2.reqSamples).flatMap (line names mem) := by
  induction visits generalizing self with
  | nil => exact (List.append_nil _).symm
  | cons visit visits ih =>
    rw [List.foldl_cons, ih, reportPivot_fileContent, List.flatMap_cons, List.flatMap_append,
      List.append_assoc]

/-- What becomes of a text reporter among others, whatever these are. -/
theorem report_getElem? {SecurityCheckConfig σ : Type}
    (others : ReporterInterface SecurityCheckConfig σ) (datastore : DataStore)
    (config : SecurityCheckConfig) {reporters : List (σ ⊕ TextReporter)} {i : Nat}
    {reporter : TextReporter} (hi : reporters[i]? = some (.inr reporter)) :
    (Plusfish.report (others.either (reporterInterface names mem SecurityCheckConfig)) datastore
      reporters config).2[i]? = some (.inr { fileContent :=
        reporter.fileContent ++ datastore.stored.flatMap (line names mem) }) := by
  have hne : reporters ≠ [] := by
    rintro rfl
    cases hi
  have hfold (visits : List ((Bytes × List Bytes) × Pivot)) (self : TextReporter) :
      visits.foldl (fun reporter visit =>
        (others.either (reporterInterface names mem SecurityCheckConfig)).reportPivot visit.2
          (1 + visit.1.2.length) reporter) (.inr self) = .inr (visits.foldl
            (fun self visit =>
              reportPivot names mem visit.2 (1 + visit.1.2.length) self) self) := by
    induction visits generalizing self with
    | nil => rfl
    | cons visit visits ih =>
      rw [List.foldl_cons, List.foldl_cons]
      exact ih _
  simp only [Plusfish.report, hne, if_false, DataStore.report_eq, List.getElem?_map, hi,
    Option.map_some]
  refine congrArg some ((hfold datastore.visits reporter).trans (congrArg Sum.inr ?_))
  have hwritten := @foldl_reportPivot names mem datastore.visits reporter
  rw [DataStore.visits_reqSamples] at hwritten
  rw [← hwritten]

end TextReporter

namespace Plusfish

variable {factory : ReporterFactory}

/-- The types between the commas are looked up in order, until one of them gives no reporter. -/
theorem initReportingLoop_eq {rounds : Nat} {stream : Bytes} (hrounds : stream.length < rounds)
    (reporters : List Reporter) : initReportingLoop factory rounds stream reporters =
      ((stream.splitOn 44).all fun reportType => (factory.getReporterByName reportType).isSome,
        reporters ++ ((stream.splitOn 44).takeWhile fun reportType =>
          (factory.getReporterByName reportType).isSome).filterMap factory.getReporterByName) := by
  induction rounds generalizing stream reporters with
  | zero => exact absurd hrounds (Nat.not_lt_zero _)
  | succ rounds ih =>
    rw [initReportingLoop]
    rcases cli.getline_eq 44 stream with ⟨line, rest, hline, rfl, heq⟩ | ⟨hstream, heq⟩
    · rw [heq, List.splitOn_append_cons_self_of_not_mem hline]
      rw [List.length_append, List.length_cons] at hrounds
      cases hname : factory.getReporterByName line with
      | none => simp [hname]
      | some reporter =>
        have hrest : rest.length < rounds := by omega
        simp only [hname]
        rw [ih hrest]
        simp [hname]
    · rw [heq, List.splitOn_eq_singleton hstream]
      cases hname : factory.getReporterByName stream with
      | none => simp [hname]
      | some reporter => simp [hname]

theorem initReporting_eq (reportTypes : Bytes) (reporters : List Reporter) :
    initReporting factory reportTypes reporters =
      ((reportTypes.splitOn 44).all fun reportType =>
          (factory.getReporterByName reportType).isSome,
        reporters ++ ((reportTypes.splitOn 44).takeWhile fun reportType =>
          (factory.getReporterByName reportType).isSome).filterMap factory.getReporterByName) :=
  initReportingLoop_eq (Nat.lt_succ_self _) reporters

/-- Where reporting is initialized, there is a reporter for each of the types, in their order. -/
theorem initReporting_eq_true {reportTypes : Bytes} {reporters : List Reporter}
    (hinit : initReporting factory reportTypes [] = (true, reporters)) :
    reporters.map some = (reportTypes.splitOn 44).map factory.getReporterByName := by
  rw [initReporting_eq, Prod.mk.injEq, List.all_eq_true, List.nil_append] at hinit
  obtain ⟨hall, rfl⟩ := hinit
  rw [List.takeWhile_eq_self_iff.mpr hall]
  generalize reportTypes.splitOn 44 = names at hall
  induction names with
  | nil => rfl
  | cons name names ih =>
    obtain ⟨reporter, hreporter⟩ := Option.isSome_iff_exists.mp (hall name List.mem_cons_self)
    rw [List.filterMap_cons_some hreporter, List.map_cons, List.map_cons, hreporter,
      ih fun name hmem => hall name (List.mem_cons_of_mem _ hmem)]

end Plusfish

end plusfish

import Plusfish.Library.Json
import Plusfish.Report

open json memory

namespace plusfish

structure ReportItem where
  request : Option HttpRequest := none
  response : Option HttpResponse := none
  issue : List IssueDetails := []
deriving DecidableEq

/-- `MessageToJsonString` of the protocol buffer library, for the two messages that are
    converted: whether it succeeded, and the string it leaves. -/
structure JsonUtil (SecurityCheckConfig : Type) where
  configToJsonString : SecurityCheckConfig → Bool × Bytes
  itemToJsonString : ReportItem → Bool × Bytes

/-- The conversions succeed, and each gives a JSON text. -/
structure JsonUtil.Succeeds {SecurityCheckConfig : Type} (util : JsonUtil SecurityCheckConfig) :
    Prop where
  config : ∀ config, (util.configToJsonString config).1 = true ∧
    IsText (util.configToJsonString config).2
  item : ∀ item, (util.itemToJsonString item).1 = true ∧ IsText (util.itemToJsonString item).2

/-- A `JSONReporter` object, with what its file writer has written. -/
structure JSONReporter where
  fileContent : Bytes := []
  reportItemCnt : Nat := 0
  pivotPrefixWritten : Bool := false
deriving DecidableEq

namespace JSONReporter

def kConfigPrefix : Bytes := ascii "\x7b\"config\": "
def kPivotsPrefix : Bytes := ascii "\"pivots\": ["
def kPivotsSuffix : Bytes := ascii "]\x7d"
def kJSONDelimeter : Bytes := ascii ","

def writeString (self : JSONReporter) (text : Bytes) : JSONReporter :=
  { self with fileContent := self.fileContent ++ text }

variable {SecurityCheckConfig : Type} (util : JsonUtil SecurityCheckConfig)

def reportSecurityConfig (config : SecurityCheckConfig) (self : JSONReporter) : JSONReporter :=
  if self.pivotPrefixWritten then self
  else
    -- A conversion that fails is logged, and what it left is written all the same.
    let configString := (util.configToJsonString config).2
    self.writeString (kConfigPrefix ++ configString ++ kJSONDelimeter)

/-- The message that is written for a request. -/
def reportItem (request : Request) : ReportItem :=
  { request := some request.proto
    response := request.response.map fun response =>
      { response.proto with responseBodyField := none }
    issue := request.issues.flatMap (·.2) }

/-- The loop of `ReportPivot` over the requests, which ends at a conversion that fails. -/
def reportRequests (mem : Heap Request) : List Nat → JSONReporter → JSONReporter
  | [], self => self
  | req :: requests, self =>
    let (ok, outputString) := util.itemToJsonString (reportItem (deref mem req))
    if !ok then self
    else
      let self := if self.reportItemCnt > 0 then self.writeString kJSONDelimeter else self
      let self := self.writeString outputString
      reportRequests mem requests { self with reportItemCnt := self.reportItemCnt + 1 }

def reportPivot (mem : Heap Request) (pivot : Pivot) (_depth : Nat) (self : JSONReporter) :
    JSONReporter :=
  let self := if self.pivotPrefixWritten then self
    else { self.writeString kPivotsPrefix with pivotPrefixWritten := true }
  reportRequests util mem pivot.reqSamples self

/-- The destructor, with what the file then holds. -/
def destroy (self : JSONReporter) : Bytes := (self.writeString kPivotsSuffix).fileContent

def reporterInterface (mem : Heap Request) :
    ReporterInterface SecurityCheckConfig JSONReporter where
  reportSecurityConfig := reportSecurityConfig util
  reportPivot := reportPivot util mem

variable {util} {mem : Heap Request}

/-- The string that is written for a request. -/
def itemText (util : JsonUtil SecurityCheckConfig) (mem : Heap Request) (req : Nat) : Bytes :=
  (util.itemToJsonString (reportItem (deref mem req))).2

/-- What has been written once the array of the pivots is open: so many items, with commas
    between them. -/
structure Writing (opening : Bytes) (items : List Bytes) (reporter : JSONReporter) : Prop where
  fileContent : reporter.fileContent = opening ++ kPivotsPrefix ++ commaSeparated items
  reportItemCnt : reporter.reportItemCnt = items.length
  pivotPrefixWritten : reporter.pivotPrefixWritten = true

/-- One more item, with a comma before it unless it is the first. -/
theorem Writing.item {opening : Bytes} {items : List Bytes} {self : JSONReporter}
    (hself : Writing opening items self) (text : Bytes) :
    Writing opening (items ++ [text])
      { (if self.reportItemCnt > 0 then self.writeString kJSONDelimeter else self).writeString text
        with reportItemCnt := self.reportItemCnt + 1 } := by
  have hcount := hself.reportItemCnt
  by_cases hfirst : items = []
  · have hnone : ¬ self.reportItemCnt > 0 := by simp [hcount, hfirst]
    rw [if_neg hnone]
    refine ⟨?_, by simp [hcount], hself.pivotPrefixWritten⟩
    show self.fileContent ++ text = _
    rw [hself.fileContent, hfirst]
    simp [commaSeparated]
  · have hsome : self.reportItemCnt > 0 := by
      rw [hcount]
      exact List.length_pos_iff.mpr hfirst
    rw [if_pos hsome]
    refine ⟨?_, by simp [hcount], hself.pivotPrefixWritten⟩
    show self.fileContent ++ kJSONDelimeter ++ text = _
    rw [hself.fileContent, commaSeparated_concat hfirst]
    simp only [List.append_assoc]
    rfl

theorem Writing.reportRequests (hutil : util.Succeeds) {opening : Bytes} {items : List Bytes}
    {requests : List Nat} {self : JSONReporter} (hself : Writing opening items self) :
    Writing opening (items ++ requests.map (itemText util mem))
      (reportRequests util mem requests self) := by
  induction requests generalizing items self with
  | nil => simpa [JSONReporter.reportRequests] using hself
  | cons req requests ih =>
    have hitem : util.itemToJsonString (reportItem (deref mem req)) =
        (true, itemText util mem req) := Prod.ext (hutil.item _).1 rfl
    have hnext := ih (hself.item (itemText util mem req))
    rw [List.append_assoc, List.singleton_append] at hnext
    rw [List.map_cons]
    simp only [JSONReporter.reportRequests, hitem, Bool.not_true, Bool.false_eq_true, if_false]
    by_cases hcount : self.reportItemCnt > 0
    · simpa only [hcount, if_true, writeString] using hnext
    · simpa only [hcount, if_false, writeString] using hnext

/-- The reports of some pivots, once the array is open. -/
theorem Writing.reportPivots (hutil : util.Succeeds) {opening : Bytes} {items : List Bytes}
    {visits : List ((Bytes × List Bytes) × Pivot)} {self : JSONReporter}
    (hself : Writing opening items self) :
    Writing opening
      (items ++ visits.flatMap fun visit => visit.2.reqSamples.map (itemText util mem))
      (visits.foldl (fun self visit => reportPivot util mem visit.2 (1 + visit.1.2.length) self)
        self) := by
  induction visits generalizing items self with
  | nil => simpa using hself
  | cons visit visits ih =>
    rw [List.foldl_cons, List.flatMap_cons, ← List.append_assoc]
    refine ih ?_
    rw [reportPivot, if_pos hself.pivotPrefixWritten]
    exact hself.reportRequests hutil

/-- The first pivot opens the array. -/
theorem reportPivot_of_first (self : JSONReporter) (hfirst : self.pivotPrefixWritten = false)
    (pivot : Pivot) (depth : Nat) :
    reportPivot util mem pivot depth self = reportPivot util mem pivot depth
      { self.writeString kPivotsPrefix with pivotPrefixWritten := true } := by
  simp [reportPivot, hfirst]

/-- The document that is written: the config, and a request after the other. -/
theorem destroy_of_report (hutil : util.Succeeds) (config : SecurityCheckConfig)
    {visits : List ((Bytes × List Bytes) × Pivot)} (hvisits : visits ≠ []) :
    (visits.foldl (fun self visit => reportPivot util mem visit.2 (1 + visit.1.2.length) self)
        (reportSecurityConfig util config {})).destroy =
      kConfigPrefix ++ (util.configToJsonString config).2 ++ kJSONDelimeter ++ kPivotsPrefix ++
        commaSeparated (visits.flatMap fun visit => visit.2.reqSamples.map (itemText util mem)) ++
        kPivotsSuffix := by
  obtain ⟨visit, visits, rfl⟩ := List.exists_cons_of_ne_nil hvisits
  let opened : JSONReporter :=
    { (reportSecurityConfig util config {}).writeString kPivotsPrefix with
      pivotPrefixWritten := true }
  have hopened : Writing (kConfigPrefix ++ (util.configToJsonString config).2 ++ kJSONDelimeter) []
      opened := ⟨by simp [opened, reportSecurityConfig, writeString, commaSeparated], rfl, rfl⟩
  rw [List.foldl_cons, reportPivot_of_first _ rfl, ← List.foldl_cons]
  rw [destroy, writeString, (hopened.reportPivots hutil).fileContent, List.nil_append]

theorem isString_name {name : String}
    (h : ∀ char ∈ name.toList, 0x20 ≤ char.toNat ∧ char.toNat ≠ 0x22 ∧ char.toNat ≠ 0x5C)
    {literal : Bytes} (hliteral :
      0x22 :: (name.toList.map String.utf8EncodeChar).flatten ++ [0x22] = literal) :
    IsString literal :=
  hliteral ▸ IsString.of_chars h

/-- The document of some hosts is an object with the config and the array of the items. -/
theorem document_isText {config : Bytes} {items : List Bytes} (hconfig : IsText config)
    (hitems : ∀ item ∈ items, IsText item) :
    IsText (kConfigPrefix ++ config ++ kJSONDelimeter ++ kPivotsPrefix ++ commaSeparated items ++
      kPivotsSuffix) := by
  have hconfigName : IsString (ascii "\"config\"") :=
    isString_name (show ∀ char ∈ "config".toList, _ by simp) (by decide)
  have hpivotsName : IsString (ascii "\"pivots\"") :=
    isString_name (show ∀ char ∈ "pivots".toList, _ by simp) (by decide)
  let array : Bytes := 0x5B :: commaSeparated items ++ [0x5D]
  have harray : IsText array := (IsValue.array_of_texts hitems).isText
  have hentries : ∀ entry ∈ [(ascii "\"config\"", 0x20 :: config),
      (ascii "\"pivots\"", 0x20 :: array)],
      IsString entry.1 ∧ IsText entry.2 := by
    refine List.forall_mem_cons.mpr ⟨⟨hconfigName, hconfig.cons (by decide)⟩, ?_⟩
    exact List.forall_mem_singleton.mpr ⟨hpivotsName, harray.cons (by decide)⟩
  have hobject := (IsValue.object_of_texts (List.cons_ne_nil _ _) hentries).isText
  have hopening : kConfigPrefix = 0x7B :: ascii "\"config\"" ++ [0x3A, 0x20] := by decide
  have hinitial : kPivotsPrefix = ascii "\"pivots\"" ++ [0x3A, 0x20, 0x5B] := by decide
  have hsuffix : kPivotsSuffix = [0x5D, 0x7D] := by decide
  have hdelimeter : kJSONDelimeter = [0x2C] := by decide
  rw [hopening, hinitial, hsuffix, hdelimeter]
  simpa [array, commaSeparated, List.intercalate_cons_cons] using hobject

/-- The document of no host closes an array that was not opened. -/
theorem not_isText_of_noHost (self : JSONReporter) (config : SecurityCheckConfig)
    (hself : self.pivotPrefixWritten = false) :
    ¬ IsText (reportSecurityConfig util config self).destroy := by
  have hdocument : (reportSecurityConfig util config self).destroy =
      self.fileContent ++ kConfigPrefix ++ (util.configToJsonString config).2 ++
        [0x2C, 0x5D, 0x7D] := by
    have htrailing : kJSONDelimeter ++ kPivotsSuffix = [0x2C, 0x5D, 0x7D] := by decide
    simp [reportSecurityConfig, hself, destroy, writeString, ← htrailing]
  rw [hdocument]
  exact not_isText_of_trailing_comma _

end JSONReporter

/-- Two classes of reporters in one list. -/
def ReporterInterface.either {SecurityCheckConfig ρ σ : Type}
    (one : ReporterInterface SecurityCheckConfig ρ)
    (two : ReporterInterface SecurityCheckConfig σ) :
    ReporterInterface SecurityCheckConfig (ρ ⊕ σ) where
  reportSecurityConfig := fun config =>
    Sum.map (one.reportSecurityConfig config) (two.reportSecurityConfig config)
  reportPivot := fun pivot depth =>
    Sum.map (one.reportPivot pivot depth) (two.reportPivot pivot depth)

theorem DataStore.visits_eq_nil_iff {self : DataStore} :
    self.visits = [] ↔ self.sitePivots = [] := by
  rw [DataStore.visits, List.flatMap_eq_nil_iff]
  constructor
  · intro hall
    by_contra hne
    obtain ⟨entry, entries, heq⟩ := List.exists_cons_of_ne_nil hne
    have hnil := hall entry (by rw [heq]; exact List.mem_cons_self)
    rw [List.map_eq_nil_iff, keyed_tree.KeyedTree.visits_eq] at hnil
    cases hnil
  · intro hnil entry hentry
    rw [hnil] at hentry
    cases hentry

namespace JSONReporter

variable {SecurityCheckConfig σ : Type} {util : JsonUtil SecurityCheckConfig}

/-- What becomes of a JSON reporter among others, whatever these are. -/
theorem report_getElem? (others : ReporterInterface SecurityCheckConfig σ) (mem : Heap Request)
    (datastore : DataStore) (config : SecurityCheckConfig) {reporters : List (JSONReporter ⊕ σ)}
    {i : Nat} {reporter : JSONReporter} (hi : reporters[i]? = some (.inl reporter)) :
    (Plusfish.report ((reporterInterface util mem).either others) datastore reporters
      config).2[i]? =
      some (.inl (datastore.visits.foldl
        (fun self visit => reportPivot util mem visit.2 (1 + visit.1.2.length) self)
        (reportSecurityConfig util config reporter))) := by
  have hne : reporters ≠ [] := by
    rintro rfl
    cases hi
  have hfold (visits : List ((Bytes × List Bytes) × Pivot)) (self : JSONReporter) :
      visits.foldl (fun reporter visit => ((reporterInterface util mem).either others).reportPivot
        visit.2 (1 + visit.1.2.length) reporter) (.inl self) = .inl (visits.foldl
          (fun self visit => reportPivot util mem visit.2 (1 + visit.1.2.length) self) self) := by
    induction visits generalizing self with
    | nil => rfl
    | cons visit visits ih =>
      rw [List.foldl_cons, List.foldl_cons]
      exact ih _
  simp only [Plusfish.report, hne, if_false, DataStore.report_eq, List.getElem?_map, hi,
    Option.map_some]
  exact congrArg some (hfold _ _)

/-- The document that a JSON reporter leaves is a JSON text exactly where a host is stored. -/
theorem report_isText_iff (hutil : util.Succeeds) (others : ReporterInterface SecurityCheckConfig σ)
    (mem : Heap Request) (datastore : DataStore) (config : SecurityCheckConfig)
    (reporters : List (JSONReporter ⊕ σ)) (i : Nat) (hi : reporters[i]? = some (.inl {})) :
    ∃ reporter : JSONReporter,
      (Plusfish.report ((reporterInterface util mem).either others) datastore reporters
        config).2[i]? = some (.inl reporter) ∧
      (IsText reporter.destroy ↔ datastore.sitePivots ≠ []) := by
  refine ⟨_, report_getElem? others mem datastore config hi, ?_⟩
  by_cases hhosts : datastore.sitePivots = []
  · rw [DataStore.visits_eq_nil_iff.mpr hhosts, List.foldl_nil]
    simp [hhosts, not_isText_of_noHost {} config rfl]
  · have hvisits : datastore.visits ≠ [] := fun hnil => hhosts (DataStore.visits_eq_nil_iff.mp hnil)
    refine iff_of_true ?_ hhosts
    rw [destroy_of_report hutil config hvisits]
    refine document_isText (hutil.config config).2 fun item hitem => ?_
    obtain ⟨visit, _, hmem⟩ := List.mem_flatMap.mp hitem
    obtain ⟨req, _, rfl⟩ := List.mem_map.mp hmem
    exact (hutil.item _).2

/-- Conversions that give the empty object. -/
def emptyObjects : JsonUtil Unit where
  configToJsonString := fun _ => (true, ascii "\x7b\x7d")
  itemToJsonString := fun _ => (true, ascii "\x7b\x7d")

theorem emptyObjects_succeeds : emptyObjects.Succeeds := by
  have hempty : IsText (0x7B :: [] ++ [0x7D]) :=
    (IsValue.emptyObject fun _ hc => by cases hc).isText
  exact ⟨fun _ => ⟨rfl, hempty⟩, fun _ => ⟨rfl, hempty⟩⟩

/-- A JSON object with one member. -/
theorem object_isText {name value : Bytes} (hname : IsString name) (hvalue : IsText value) :
    IsText (0x7B :: (name ++ 0x3A :: value) ++ [0x7D]) := by
  have hobject : IsValue (0x7B ::
      commaSeparated ([(name, value)].map fun entry => entry.1 ++ 0x3A :: entry.2) ++ [0x7D]) := by
    refine IsValue.object_of_texts (List.cons_ne_nil _ _) fun other hmem => ?_
    cases List.mem_singleton.mp hmem
    exact ⟨hname, hvalue⟩
  rw [List.map_singleton, commaSeparated, List.intercalate_singleton] at hobject
  exact hobject.isText

/-- Conversions of messages in which no more is set than the `ssl` field of a request. -/
def sslItems : JsonUtil Unit where
  configToJsonString := fun _ => (true, ascii "\x7b\x7d")
  itemToJsonString := fun item =>
    (true, if item.request.any (·.ssl) then ascii "\x7b\"request\":\x7b\"ssl\":true\x7d\x7d"
      else ascii "\x7b\"request\":\x7b\"ssl\":false\x7d\x7d")

theorem sslItems_succeeds : sslItems.Succeeds := by
  refine ⟨emptyObjects_succeeds.config, fun item => ⟨rfl, ?_⟩⟩
  have hrequestName : IsString (ascii "\"request\"") :=
    isString_name (show ∀ char ∈ "request".toList, _ by simp) (by decide)
  have hsslName : IsString (ascii "\"ssl\"") :=
    isString_name (show ∀ char ∈ "ssl".toList, _ by simp) (by decide)
  have hitem {value : Bytes} (hvalue : IsText value) :=
    object_isText hrequestName (object_isText hsslName hvalue)
  dsimp only [sslItems]
  split
  · exact hitem IsValue.true.isText
  · exact hitem IsValue.false.isText

/-- A store with two requests of one host, one of them below the other. -/
def twoPages : DataStore :=
  { sitePivots := [(ascii "site",
      ⟨10, 10, ascii "site", [(ascii "shop", ⟨10, 10, ascii "shop", [], [1]⟩)], [0]⟩)] }

def twoPagesMem : Heap Request :=
  ⟨[{ proto := { sslField := some true } }, { proto := { sslField := some false } }]⟩

theorem report_isText_iff_twoPages : ∃ reporter : JSONReporter,
    (Plusfish.report ((reporterInterface sslItems twoPagesMem).either
      (reporterInterface sslItems twoPagesMem)) twoPages [.inl {}] ()).2[0]? =
        some (.inl reporter) ∧
    reporter.destroy = ascii ("\x7b\"config\": \x7b\x7d,\"pivots\": [" ++
      "\x7b\"request\":\x7b\"ssl\":true\x7d\x7d," ++
      "\x7b\"request\":\x7b\"ssl\":false\x7d\x7d]\x7d") ∧ IsText reporter.destroy := by
  obtain ⟨reporter, hreporter, hiff⟩ := report_isText_iff sslItems_succeeds
    (reporterInterface sslItems twoPagesMem) twoPagesMem twoPages () [.inl {}] 0 rfl
  have hdocument : ((Plusfish.report ((reporterInterface sslItems twoPagesMem).either
      (reporterInterface sslItems twoPagesMem)) twoPages [.inl {}] ()).2[0]?.bind
        Sum.getLeft?).map destroy = some (ascii ("\x7b\"config\": \x7b\x7d,\"pivots\": [" ++
          "\x7b\"request\":\x7b\"ssl\":true\x7d\x7d," ++
          "\x7b\"request\":\x7b\"ssl\":false\x7d\x7d]\x7d")) := by decide +kernel
  rw [hreporter] at hdocument
  exact ⟨reporter, hreporter, Option.some.inj hdocument, hiff.mpr (List.cons_ne_nil _ _)⟩

/-- With no host stored the report is not a JSON text. -/
theorem noHost_not_isText :
    emptyObjects.Succeeds ∧
      Plusfish.report (reporterInterface emptyObjects {}) {} [{}] () =
        (true, [reportSecurityConfig emptyObjects () {}]) ∧
      (reportSecurityConfig emptyObjects () {}).destroy =
        ascii "\x7b\"config\": \x7b\x7d,]\x7d" ∧
      ¬ IsText (reportSecurityConfig emptyObjects () {}).destroy :=
  ⟨emptyObjects_succeeds, by decide, by decide, not_isText_of_noHost {} () rfl⟩

end JSONReporter

end plusfish

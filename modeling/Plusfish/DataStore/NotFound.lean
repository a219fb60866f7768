import Plusfish.DataStore.Acceptance
import Plusfish.DataStore.Operations
import Plusfish.HtmlFingerprint.Text

open memory ordered_map transition

namespace plusfish

namespace Site

variable {env : StoreEnv} {site site' : Site} {op : StoreOp}

theorem addRequest_notFoundFingerprints (env : StoreEnv) (mem : Heap Request) (store : DataStore)
    (req : Nat) :
    (store.addRequest env mem req).2.2.notFoundFingerprints = store.notFoundFingerprints := by
  rcases DataStore.addRequest_cases env store mem req with ⟨_, heq⟩ | ⟨_, _, heq⟩ | ⟨_, _, heq⟩
  · rw [heq]
  · rw [heq]
    rfl
  · rw [heq]
    rfl

theorem addIssueDetails_notFoundFingerprints (env : StoreEnv) (mem : Heap Request)
    (store : DataStore) (requestId : Int) (issue : IssueDetails) :
    (store.addIssueDetails env mem requestId issue).2.2.notFoundFingerprints =
      store.notFoundFingerprints := by
  obtain ⟨_, _, _, heq⟩ := DataStore.addIssueDetails_sameButIssues env mem store requestId issue
  rw [heq]

theorem mem_addFileNotFoundHtmlFingerprint (store : DataStore) (fingerprint : HtmlFingerprint)
    (text : Bytes) :
    text ∈ (store.addFileNotFoundHtmlFingerprint fingerprint).notFoundFingerprints ↔
      text ∈ store.notFoundFingerprints ∨ fingerprint.toString = text := by
  unfold DataStore.addFileNotFoundHtmlFingerprint
  by_cases hknown : fingerprint.toString ∈ store.notFoundFingerprints
  · simp only [List.contains_iff_mem, hknown, if_true]
    constructor
    · exact Or.inl
    · rintro (hmem | rfl)
      · exact hmem
      · exact hknown
  · simp [hknown, eq_comm]

/-- A call adds the text of the fingerprint it is given, and any other call adds none. -/
theorem mem_notFoundFingerprints_step (hstep : site.step env op = some site') (text : Bytes) :
    text ∈ site'.store.notFoundFingerprints ↔ text ∈ site.store.notFoundFingerprints ∨
      ∃ added, op = .addFileNotFoundHtmlFingerprint added ∧ added.toString = text := by
  have hkept (hother : ∀ added, op ≠ .addFileNotFoundHtmlFingerprint added)
      (heq : site'.store.notFoundFingerprints = site.store.notFoundFingerprints) :
      text ∈ site'.store.notFoundFingerprints ↔ text ∈ site.store.notFoundFingerprints ∨
        ∃ added, op = .addFileNotFoundHtmlFingerprint added ∧ added.toString = text := by
    rw [heq]
    refine ⟨Or.inl, fun h => h.resolve_right ?_⟩
    rintro ⟨added, hop, _⟩
    exact hother added hop
  cases op with
  | addFileNotFoundHtmlFingerprint fingerprint =>
    cases hstep
    rw [mem_addFileNotFoundHtmlFingerprint]
    simp
  | addHost | addResponseFingerprintToRequest | getRequestFromProbeQueue
  | getRequestFromCrawlQueue | getRequestFromAuditQueue =>
    cases hstep
    exact hkept (fun _ h => by cases h) rfl
  | addRequest fresh =>
    cases hstep
    exact hkept (fun _ h => by cases h) (addRequest_notFoundFingerprints env _ _ _)
  | addBlacklistRegex urlRegex =>
    cases hstep
    refine hkept (fun _ h => by cases h) ?_
    simp only [DataStore.addBlacklistRegex]
    split <;> rfl
  | addWhitelistRegex urlRegex =>
    cases hstep
    refine hkept (fun _ h => by cases h) ?_
    simp only [DataStore.addWhitelistRegex]
    split <;> rfl
  | addRequestMetadata requestId type value =>
    cases hstep
    refine hkept (fun _ h => by cases h) ?_
    simp only [DataStore.addRequestMetadata]
    split <;> rfl
  | addIssue requestId issueType severity testRequest =>
    cases hstep
    exact hkept (fun _ h => by cases h) (addIssueDetails_notFoundFingerprints env _ _ _ _)
  | addIssueDetails requestId issue =>
    cases hstep
    exact hkept (fun _ h => by cases h) (addIssueDetails_notFoundFingerprints env _ _ _ _)
  | addIssueById requestId issueType severity =>
    obtain ⟨result, hresult, rfl⟩ := Option.map_eq_some_iff.mp hstep
    obtain ⟨req, _, rfl⟩ := Option.map_eq_some_iff.mp hresult
    exact hkept (fun _ h => by cases h) (addIssueDetails_notFoundFingerprints env _ _ _ _)
  | responseCb requestId data =>
    obtain ⟨req, _, rfl⟩ := Option.map_eq_some_iff.mp hstep
    exact hkept (fun _ h => by cases h) rfl
  | doneCb requestId =>
    obtain ⟨req, _, hdone⟩ := Option.bind_eq_some_iff.mp hstep
    obtain ⟨done, _, rfl⟩ := Option.map_eq_some_iff.mp hdone
    exact hkept (fun _ h => by cases h) rfl
  | addRequestToCrawlQueue requestId =>
    obtain ⟨req, _, rfl⟩ := Option.map_eq_some_iff.mp hstep
    exact hkept (fun _ h => by cases h) rfl
  | addRequestToAuditQueue requestId =>
    obtain ⟨req, _, rfl⟩ := Option.map_eq_some_iff.mp hstep
    exact hkept (fun _ h => by cases h) rfl

/-- The texts after a run are those before it and those of the fingerprints added in it. -/
theorem mem_notFoundFingerprints_run {ops : List StoreOp}
    (hrun : run (step env) site ops = some site') (text : Bytes) :
    text ∈ site'.store.notFoundFingerprints ↔ text ∈ site.store.notFoundFingerprints ∨
      ∃ added, StoreOp.addFileNotFoundHtmlFingerprint added ∈ ops ∧ added.toString = text := by
  induction ops generalizing site with
  | nil =>
    cases hrun
    simp
  | cons op ops ih =>
    obtain ⟨next, hstep, hrest⟩ := run_cons_eq_some.mp hrun
    rw [ih hrest, mem_notFoundFingerprints_step hstep, or_assoc]
    apply or_congr_right
    constructor
    · rintro (⟨added, rfl, htext⟩ | ⟨added, hmem, htext⟩)
      · exact ⟨added, List.mem_cons_self, htext⟩
      · exact ⟨added, List.mem_cons_of_mem _ hmem, htext⟩
    · rintro ⟨added, hmem, htext⟩
      rcases List.mem_cons.mp hmem with rfl | hmem
      · exact Or.inl ⟨added, rfl, htext⟩
      · exact Or.inr ⟨added, hmem, htext⟩

/-- A present fingerprint is that of a missing page exactly if one with its counters was
    added, and no two different fingerprints have the same text. -/
theorem isFileNotFoundHtmlFingerprint_iff_added {ops : List StoreOp}
    (hrun : run (step env) {} ops = some site) :
    (∀ fingerprint : Option HtmlFingerprint,
      site.store.isFileNotFoundHtmlFingerprint fingerprint = true ↔
        ∃ fp, fingerprint = some fp ∧ ∃ added,
          StoreOp.addFileNotFoundHtmlFingerprint added ∈ ops ∧
            added.wordSizeCnt = fp.wordSizeCnt) ∧
      ∀ a b : HtmlFingerprint, a.toString = b.toString → a.wordSizeCnt = b.wordSizeCnt := by
  refine ⟨fun fingerprint => ?_, fun a b h => HtmlFingerprint.toString_injective h⟩
  cases fingerprint with
  | none => simp [DataStore.isFileNotFoundHtmlFingerprint]
  | some fp =>
    have htexts := mem_notFoundFingerprints_run hrun fp.toString
    simp only [DataStore.isFileNotFoundHtmlFingerprint, List.contains_iff_mem, htexts,
      List.not_mem_nil, false_or, Option.some.injEq, exists_eq_left']
    constructor
    · rintro ⟨added, hmem, htext⟩
      exact ⟨added, hmem, HtmlFingerprint.toString_injective htext⟩
    · rintro ⟨added, hmem, hcounters⟩
      exact ⟨added, hmem, by rw [HtmlFingerprint.toString, hcounters, ← HtmlFingerprint.toString]⟩

/-- The fingerprint of the words of a page. -/
def fingerprintOf (words : List String) : HtmlFingerprint :=
  words.foldl (fun fp word => fp.addWord (ascii word)) {}

/-- Two pages that were not found are fingerprinted, and a host is added in between. -/
def notFoundOps : List StoreOp :=
  [.addFileNotFoundHtmlFingerprint (fingerprintOf ["not", "found"]), .addHost (ascii "site"),
    .addFileNotFoundHtmlFingerprint (fingerprintOf ["gone"])]

theorem isFileNotFoundHtmlFingerprint_iff_added_page : ∃ site : Site,
    run (step StoreEnv.literal) {} notFoundOps = some site ∧
    site.store.isFileNotFoundHtmlFingerprint (some (fingerprintOf ["page", "is", "missing"])) =
      false ∧
    site.store.isFileNotFoundHtmlFingerprint (some (fingerprintOf ["here"])) = true := by
  obtain ⟨site, hrun⟩ : ∃ site, run (step StoreEnv.literal) {} notFoundOps = some site := ⟨_, rfl⟩
  have hadded := (isFileNotFoundHtmlFingerprint_iff_added hrun).1
  refine ⟨site, hrun, ?_, ?_⟩
  · rw [Bool.eq_false_iff, ne_eq, hadded]
    rintro ⟨fp, hfp, added, hmem, hcounters⟩
    cases hfp
    revert hcounters
    simp only [notFoundOps, List.mem_cons, StoreOp.addFileNotFoundHtmlFingerprint.injEq,
      reduceCtorEq, false_or, List.not_mem_nil, or_false] at hmem
    rcases hmem with rfl | rfl
    · decide
    · decide
  · exact (hadded _).mpr ⟨_, rfl, fingerprintOf ["gone"], by simp [notFoundOps], by decide⟩

end Site

end plusfish

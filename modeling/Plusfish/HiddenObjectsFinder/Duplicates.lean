import Plusfish.HiddenObjectsFinder.Callback
import Plusfish.MainLoop.Exit

open memory ordered_map transition

namespace plusfish

namespace HiddenObjectsFinder

/-- The URL that the next call of `ScheduleRequests` expands. -/
def expandedNext (self : HiddenObjectsFinder) : Option Bytes :=
  if self.testUrlsQueue = [] then self.pendingUrls.head?.filter (· ∉ self.probedUrls) else none

/-- The combinations of the directory of a URL with a word and, where the word asks for it, an
    extension, less those that were expanded themselves. A word whose own combination was expanded
    gives none. -/
def combinations (self : HiddenObjectsFinder) (url : Bytes) : List Bytes :=
  let directory := util.stripUrlFileSuffix url
  let expanded := self.probedUrls ++ [url]
  let words := self.wordlist.filter fun word => directory ++ word.1 ∉ expanded
  let names := words.flatMap fun word =>
    word.1 :: if word.2 then self.extensions.map (word.1 ++ ·) else []
  (names.map (directory ++ ·)).filter (· ∉ expanded)

/-- The test URLs that the next call of `ScheduleRequests` generates: those of its first pending
    URL, where it has no test URL. -/
def nextExpansion (self : HiddenObjectsFinder) : List Bytes :=
  match self.testUrlsQueue, self.pendingUrls with
  | [], url :: _ => self.newTestUrls url
  | _, _ => []

/-- A word gives its combinations if its own one was not expanded. -/
theorem testUrlsOfWord_eq (self : HiddenObjectsFinder) (expanded : List Bytes) (directory : Bytes)
    (word : Bytes × Bool) : self.testUrlsOfWord expanded directory word =
      if directory ++ word.1 ∉ expanded then
        ((word.1 :: if word.2 then self.extensions.map (word.1 ++ ·) else []).map
          (directory ++ ·)).filter (· ∉ expanded)
      else [] := by
  unfold testUrlsOfWord
  dsimp only
  by_cases hexpanded : directory ++ word.1 ∈ expanded
  · rw [if_pos (List.contains_iff_mem.mpr hexpanded), if_neg (not_not_intro hexpanded)]
  · rw [if_neg (mt List.contains_iff_mem.mp hexpanded), if_pos hexpanded, List.map_cons,
      List.filter_cons, if_pos (decide_eq_true hexpanded)]
    cases word.2 with
    | false => rfl
    | true => simp [Function.comp_def]

theorem newTestUrls_eq_combinations (self : HiddenObjectsFinder) {url : Bytes}
    (hnew : url ∉ self.probedUrls) : self.newTestUrls url = self.combinations url := by
  unfold newTestUrls combinations
  dsimp only
  rw [if_neg (mt List.contains_iff_mem.mp hnew), List.map_flatMap, List.filter_flatMap]
  induction self.wordlist with
  | nil => rfl
  | cons word words ih =>
    rw [List.flatMap_cons, ih, testUrlsOfWord_eq, List.filter_cons]
    by_cases hexpanded : util.stripUrlFileSuffix url ++ word.1 ∉ self.probedUrls ++ [url]
    · rw [if_pos hexpanded, if_pos (decide_eq_true hexpanded), List.flatMap_cons]
    · rw [if_neg hexpanded, if_neg (mt of_decide_eq_true hexpanded), List.nil_append]

theorem nextExpansion_eq (self : HiddenObjectsFinder) :
    self.nextExpansion = (self.expandedNext.map self.combinations).getD [] := by
  unfold nextExpansion expandedNext
  cases self.testUrlsQueue with
  | cons testUrl testUrls => rfl
  | nil =>
    cases self.pendingUrls with
    | nil => rfl
    | cons url pendingUrls =>
      by_cases hnew : url ∈ self.probedUrls
      · simp [Option.filter, newTestUrls, hnew]
      · simp [Option.filter, self.newTestUrls_eq_combinations hnew, hnew]

theorem refill_testUrlsQueue (self : HiddenObjectsFinder) :
    self.refill.testUrlsQueue = self.testUrlsQueue ++ self.nextExpansion := by
  unfold refill nextExpansion
  cases hqueue : self.testUrlsQueue with
  | nil =>
    cases hpending : self.pendingUrls with
    | nil => exact hqueue
    | cons url pendingUrls =>
      simp only [generateTestUrls]
      rfl
  | cons testUrl testUrls => simp [hqueue]

end HiddenObjectsFinder

namespace Scan

/-- The URLs of the test requests that the finder has scheduled, one after the other. -/
def scheduledUrls (scan : Scan) : List Bytes :=
  (scan.calls.filter fun call => call.caller == .hiddenObjectsFinder && call.accepted).map (·.url)

/-- Where a call of `ScheduleRequests` expands a URL, its combinations stand for requests with
    different URLs, and with none that has been scheduled. -/
def ExpandsToNew (env : ScanEnv) (scan : Scan) : FinderOp → Prop
  | .scheduleRequests _ => ∀ url ∈ scan.objectsFinder.expandedNext,
    ((scan.objectsFinder.combinations url).map (requestUrl env)).Nodup ∧
      ∀ testUrl ∈ scan.objectsFinder.combinations url,
        requestUrl env testUrl ∉ scan.scheduledUrls
  | _ => True

instance (env : ScanEnv) (scan : Scan) (op : FinderOp) : Decidable (scan.ExpandsToNew env op) :=
  match op with
  | .scheduleRequests _ =>
    inferInstanceAs (Decidable (∀ url ∈ scan.objectsFinder.expandedNext, _ ∧ _))
  | .addUrl _ | .requestCallback _ _ => .isTrue trivial

/-- The URLs that have been scheduled, and those that the test URLs in the queue stand for. -/
def urlsAhead (env : ScanEnv) (scan : Scan) : List Bytes :=
  scan.scheduledUrls ++ scan.objectsFinder.testUrlsQueue.map (requestUrl env)

section
variable {env : ScanEnv} {scan scan' : Scan}

theorem expandsToNew_iff {amount : Nat} : scan.ExpandsToNew env (.scheduleRequests amount) ↔
    (scan.objectsFinder.nextExpansion.map (requestUrl env)).Nodup ∧
      ∀ testUrl ∈ scan.objectsFinder.nextExpansion,
        requestUrl env testUrl ∉ scan.scheduledUrls := by
  rw [ExpandsToNew, HiddenObjectsFinder.nextExpansion_eq]
  cases scan.objectsFinder.expandedNext with
  | none => simp
  | some url => simp

/-- Of the requests that the finder offers, some are scheduled. -/
theorem Calls.scheduledUrls {urls : List Bytes}
    (h : Calls (urls.map fun url => (.hiddenObjectsFinder, url)) scan scan') :
    ∃ added, added.Sublist urls ∧ scan'.scheduledUrls = scan.scheduledUrls ++ added := by
  obtain ⟨calls, hcalls, htargets⟩ := h
  have hurls : calls.map (·.url) = urls := by
    have hsnd := congrArg (List.map Prod.snd) htargets
    rw [List.map_map, List.map_map] at hsnd
    simpa [Function.comp_def, ScheduleCall.target] using hsnd
  have hadded : ((calls.filter fun call => call.caller == .hiddenObjectsFinder &&
      call.accepted).map (·.url)).Sublist urls := by
    rw [← hurls]
    exact List.filter_sublist.map _
  refine ⟨_, hadded, ?_⟩
  unfold Scan.scheduledUrls
  rw [hcalls, List.filter_append, List.map_append]

theorem nodup_map_requestUrl_scheduleTests (amount : Nat)
    (h : (scan.urlsAhead env).Nodup) : ((scan.scheduleTests env amount).urlsAhead env).Nodup := by
  obtain ⟨_, hcalls, hqueue, _⟩ := scheduleTests_spec env amount scan
  have htaken : Calls (((scan.objectsFinder.testUrlsQueue.take amount).map (requestUrl env)).map
      fun url => (.hiddenObjectsFinder, url)) scan (scan.scheduleTests env amount) := by
    rw [List.map_map]
    exact hcalls
  obtain ⟨added, hadded, hurls⟩ := htaken.scheduledUrls
  unfold urlsAhead at h ⊢
  rw [hurls, hqueue, List.append_assoc]
  refine h.sublist (List.Sublist.append_left ?_ _)
  have hsplit : scan.objectsFinder.testUrlsQueue.map (requestUrl env) =
      (scan.objectsFinder.testUrlsQueue.take amount).map (requestUrl env) ++
        (scan.objectsFinder.testUrlsQueue.drop amount).map (requestUrl env) := by
    rw [← List.map_append, List.take_append_drop]
  rw [hsplit]
  exact hadded.append_right _

/-- One call of the finder keeps the URLs that are ahead different. -/
theorem finderStep_urlsAhead {op : FinderOp} {next : Scan} (h : (scan.urlsAhead env).Nodup)
    (hok : scan.ExpandsToNew env op) (hstep : scan.finderStep env op = some next) :
    (next.urlsAhead env).Nodup := by
  cases op with
  | addUrl url =>
    cases hstep
    exact h
  | scheduleRequests amount =>
    cases hstep
    obtain ⟨hnodup, hnew⟩ := expandsToNew_iff.mp hok
    refine nodup_map_requestUrl_scheduleTests amount ?_
    show (scan.scheduledUrls ++
      (scan.objectsFinder.refill.testUrlsQueue).map (requestUrl env)).Nodup
    rw [HiddenObjectsFinder.refill_testUrlsQueue]
    by_cases hqueue : scan.objectsFinder.testUrlsQueue = []
    · rw [urlsAhead, hqueue, List.map_nil, List.append_nil] at h
      rw [hqueue, List.nil_append]
      refine List.nodup_append.mpr ⟨h, hnodup, ?_⟩
      rintro url hold _ hadded rfl
      obtain ⟨testUrl, hmem, rfl⟩ := List.mem_map.mp hadded
      exact hnew testUrl hmem hold
    · have hnone : scan.objectsFinder.nextExpansion = [] := by
        unfold HiddenObjectsFinder.nextExpansion
        split
        · rename_i hempty _
          exact absurd hempty hqueue
        · rfl
      rw [hnone, List.append_nil]
      exact h
  | requestCallback req transfer =>
    simp only [finderStep] at hstep
    split at hstep
    · cases hstep
    · obtain ⟨mem, store, completed, found, rfl, _⟩ := hiddenObjectCallback_calledBack hstep
      cases transfer <;> exact h

/-- A client that accepts every request: what the finder offers is scheduled. -/
theorem scheduleTests_scheduledUrls_of_accepts (haccepts : ∀ call, env.accepts call = true)
    (scan : Scan) (amount : Nat) :
    (scan.scheduleTests env amount).scheduledUrls = scan.scheduledUrls ++
      (scan.objectsFinder.testUrlsQueue.take amount).map (requestUrl env) := by
  obtain ⟨hschedulings, ⟨calls, hcalls, htargets⟩, _, _⟩ := scheduleTests_spec env amount scan
  obtain ⟨made, hhands, _⟩ := (Schedulings.effects hschedulings).hands
  have hmade : made = calls := List.append_cancel_left (hhands.calls.symm.trans hcalls)
  have hall : ∀ call ∈ calls,
      (call.caller == .hiddenObjectsFinder && call.accepted) = true := by
    intro call hcall
    have htarget : call.target ∈ calls.map (·.target) := List.mem_map_of_mem hcall
    rw [htargets] at htarget
    obtain ⟨_, _, heq⟩ := List.mem_map.mp htarget
    obtain ⟨i, hi⟩ := List.mem_iff_getElem?.mp hcall
    have hcaller : call.caller = .hiddenObjectsFinder := congrArg Prod.fst heq.symm
    rw [hhands.answers i call (hmade ▸ hi), haccepts, hcaller]
    rfl
  have hurls := congrArg (List.map Prod.snd) htargets
  rw [List.map_map, List.map_map] at hurls
  unfold scheduledUrls
  rw [hcalls, List.filter_append, List.map_append, List.filter_eq_self.mpr hall]
  congr 1

/-- Where every request is accepted and the whole expansion is scheduled in one call, an
    expansion that is not new schedules a URL twice. -/
theorem expandsToNew_of_nodup (haccepts : ∀ call, env.accepts call = true) {amount : Nat}
    (hqueue : scan.objectsFinder.testUrlsQueue = [])
    (hamount : scan.objectsFinder.nextExpansion.length ≤ amount)
    (h : (scan.scheduleObjectRequests env amount).scheduledUrls.Nodup) :
    scan.ExpandsToNew env (.scheduleRequests amount) := by
  have hurls := scheduleTests_scheduledUrls_of_accepts haccepts
    { scan with objectsFinder := scan.objectsFinder.refill } amount
  rw [HiddenObjectsFinder.refill_testUrlsQueue, hqueue, List.nil_append,
    List.take_of_length_le hamount] at hurls
  unfold scheduleObjectRequests at h
  rw [hurls] at h
  obtain ⟨_, hnodup, hnew⟩ := List.nodup_append.mp h
  exact expandsToNew_iff.mpr
    ⟨hnodup, fun testUrl hmem hold => hnew _ hold _ (List.mem_map_of_mem hmem) rfl⟩

/-- In every run in which each call of `ScheduleRequests` generates test URLs for new requests
    only, no two scheduled test requests have the same URL. -/
theorem scheduledUrls_nodup_of_run {start last : Scan} {ops : List FinderOp}
    (hstart : start.FreshFinder) (hok : Along (finderStep env) (ExpandsToNew env) start ops)
    (hrun : transition.run (finderStep env) start ops = some last) : last.scheduledUrls.Nodup := by
  have hnone : start.urlsAhead env = [] := by
    have hcalls : start.calls.filter (fun call =>
        call.caller == .hiddenObjectsFinder && call.accepted) = [] := by
      refine List.filter_eq_nil_iff.mpr fun call hcall => ?_
      simp [hstart.calls call hcall]
    simp [urlsAhead, scheduledUrls, hcalls, hstart.testUrlsQueue]
  have hahead : (last.urlsAhead env).Nodup :=
    run_preserves_along (P := fun scan : Scan => (scan.urlsAhead env).Nodup)
      (fun _ _ _ h hop hstep => finderStep_urlsAhead h hop hstep) (hnone ▸ List.nodup_nil) hok hrun
  exact (List.nodup_append.mp hahead).1

end

/-- A scan whose finder has some words, each with the extensions or not, and some extensions. -/
def finderScan (words : List (String × Bool)) (extensions : List String) : Scan :=
  { objectsFinder :=
      { wordlist := words.map fun (word, flag) => (ascii word, flag)
        extensions := extensions.map ascii } }

theorem finderScan_fresh (words : List (String × Bool)) (extensions : List String) :
    (finderScan words extensions).FreshFinder :=
  ⟨rfl, fun _ h => (List.not_mem_nil h).elim, rfl, rfl, rfl, rfl,
    fun _ h => (List.not_mem_nil h).elim⟩

/-- The directory of a page is searched. -/
def fooSearch : List FinderOp := [.addUrl (ascii "http://site:80/foo"), .scheduleRequests 5]

theorem scheduledUrls_nodup_of_run_word : ∃ last,
    transition.run (finderStep MainLoop.siteEnv) (finderScan [("word", true)] [".php"]) fooSearch =
      some last ∧
    last.scheduledUrls = [ascii "http://site:80/word", ascii "http://site:80/word.php"] ∧
    last.scheduledUrls.Nodup := by
  have hok : Along (finderStep MainLoop.siteEnv) (ExpandsToNew MainLoop.siteEnv)
      (finderScan [("word", true)] [".php"]) fooSearch := by decide +kernel
  have hrun : transition.run (finderStep MainLoop.siteEnv) (finderScan [("word", true)] [".php"])
      fooSearch = some _ := rfl
  exact ⟨_, hrun, by decide +kernel,
    scheduledUrls_nodup_of_run (finderScan_fresh _ _) hok hrun⟩

/-- A word that is another one with an extension gives the same URL twice, and so do two pages of
    one directory. -/
theorem tarGz_scheduled_twice :
    (∃ last, transition.run (finderStep MainLoop.siteEnv)
        (finderScan [("tar", true), ("tar.gz", true)] [".gz"]) fooSearch = some last ∧
      last.scheduledUrls = [ascii "http://site:80/tar", ascii "http://site:80/tar.gz",
        ascii "http://site:80/tar.gz", ascii "http://site:80/tar.gz.gz"] ∧
      ¬ last.scheduledUrls.Nodup) ∧
    ∃ last, transition.run (finderStep MainLoop.siteEnv) (finderScan [("word", false)] [])
        [.addUrl (ascii "http://site:80/a"), .addUrl (ascii "http://site:80/b"),
          .scheduleRequests 1, .scheduleRequests 1] = some last ∧
      last.scheduledUrls = [ascii "http://site:80/word", ascii "http://site:80/word"] ∧
      ¬ last.scheduledUrls.Nodup :=
  ⟨⟨_, rfl, by decide +kernel, by decide +kernel⟩, _, rfl, by decide +kernel, by decide +kernel⟩

end Scan

end plusfish

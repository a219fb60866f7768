import Plusfish.MainLoop.Exclusion
import Plusfish.MainLoop.Handlers

open memory transition Relation

namespace plusfish

namespace Scan

/-- The calls of `Run` in the step for the audit queue. -/
def serveAuditQueueRuns (env : ScanEnv) (scan : Scan) : List (Scan × Nat) :=
  if env.hasAuditors && scan.hasFreeRunner env then
    match scan.store.auditQueue with
    | [] => []
    | req :: _ =>
      { scan with store := scan.store.getRequestFromAuditQueue.2 }.scheduleFirstRuns env req
  else []

section
variable {env : ScanEnv} {scan : Scan}

theorem Attended.getRequestFromAuditQueue (env : ScanEnv) (h : scan.Attended) :
    ({ scan with store := scan.store.getRequestFromAuditQueue.2 } : Scan).Attended ∧
      ∀ callbacks, scan.Counts callbacks →
        ({ scan with store := scan.store.getRequestFromAuditQueue.2 } : Scan).Counts callbacks :=
  have hchanges : Changes env (fun _ => False) scan _ :=
    .single (getRequestFromAuditQueue_change scan)
  hchanges.attended (fun _ _ => id) h

/-- What the step for the audit queue keeps, where no failed `Run` leaves a request behind. -/
theorem Attended.serveAuditQueue (h : scan.Attended)
    (hleaves : ∀ call ∈ scan.serveAuditQueueRuns env, call.1.LeavesNothing env call.2) :
    (scan.serveAuditQueue env).Attended ∧
      ∀ callbacks, scan.Counts callbacks → (scan.serveAuditQueue env).Counts callbacks := by
  unfold serveAuditQueueRuns at hleaves
  unfold Scan.serveAuditQueue
  split
  · rename_i hfree
    rw [if_pos hfree] at hleaves
    split
    · exact ⟨h, fun _ => id⟩
    · rename_i req rest hqueue
      rw [hqueue] at hleaves
      obtain ⟨hpopped, hsame⟩ := h.getRequestFromAuditQueue env
      obtain ⟨hnext, hcounts⟩ := hpopped.scheduleFirst hleaves
      exact ⟨hnext, fun callbacks hold => hcounts callbacks (hsame callbacks hold)⟩
  · exact ⟨h, fun _ => id⟩

theorem Attended.fresh_of_serveAuditQueue (h : scan.Attended) :
    ∀ call ∈ scan.serveAuditQueueRuns env,
      (∃ checks, call.1.Fresh call.2 checks) ∧ call.1.Allocated := by
  unfold serveAuditQueueRuns
  split
  · split
    · exact fun _ hmem => (List.not_mem_nil hmem).elim
    · exact (h.getRequestFromAuditQueue env).1.fresh_of_scheduleFirst
  · exact fun _ hmem => (List.not_mem_nil hmem).elim

end

/-- Before the scan no runner has a request. -/
theorem configured_attended (env : ScanEnv) (config : ScanConfig) :
    (configured env config).Attended ∧ (configured env config).Counts [] := by
  have hnone (p : Nat) : (configured env config).pending p = [] := rfl
  exact ⟨⟨fun _ hmem => absurd hmem List.not_mem_nil, fun _ hmem => absurd hmem List.not_mem_nil,
      fun _ => ⟨fun _ hmem => absurd hmem List.not_mem_nil, Nat.le_refl 0, fun _ => rfl⟩,
      fun p hsome => absurd (hnone p) hsome⟩,
    ⟨fun _ hmem => absurd hmem List.not_mem_nil, fun _ => rfl⟩⟩

end Scan

namespace MainLoop

/-- The calls of `Run` in an event: the scan and the runner. -/
def runs (env : ScanEnv) (loop : MainLoop) : ScanOp → List (Scan × Nat)
  | .requestCallback req transfer =>
    match (deref loop.scan.mem req).requestHandler with
    | some (.securityCheckRunner p) =>
      (loop.scan.receive req transfer).runnerCallbackRuns env p req
    | _ => []
  | .iterate number _ => (loop.scan.search env number).elim [] (·.serveAuditQueueRuns env)
  | .addUrl _ | .addRequest _ | .giveUp _ => []

/-- Each `Run` that returns false leaves nothing behind. -/
def LeavesNothing (env : ScanEnv) (loop : MainLoop) (op : ScanOp) : Prop :=
  ∀ call ∈ loop.runs env op, call.1.LeavesNothing env call.2

/-- Each check is run without accepted requests being abandoned. -/
def NoneAbandoned (env : ScanEnv) (loop : MainLoop) (op : ScanOp) : Prop :=
  ∀ call ∈ loop.runs env op, ¬ call.1.Abandons env call.2

instance (env : ScanEnv) (loop : MainLoop) (op : ScanOp) : Decidable (loop.LeavesNothing env op) :=
  inferInstanceAs (Decidable (∀ call ∈ loop.runs env op, _))

instance (env : ScanEnv) (loop : MainLoop) (op : ScanOp) : Decidable (loop.NoneAbandoned env op) :=
  inferInstanceAs (Decidable (∀ call ∈ loop.runs env op, _))

/-- The callback of a runner in an event, if it is one: the runner and the request. -/
def runnerCallbacks (loop : MainLoop) : ScanOp → List (Nat × Nat)
  | .requestCallback req _ =>
    match (deref loop.scan.mem req).requestHandler with
    | some (.securityCheckRunner p) => [(p, req)]
    | _ => []
  | _ => []

/-- A scan, with the callbacks of runners that there have been: the runner and the request. -/
structure CallbackHistory where
  loop : MainLoop
  callbacks : List (Nat × Nat) := []

def CallbackHistory.step (env : ScanEnv) (history : CallbackHistory) (op : ScanOp) :
    Option CallbackHistory :=
  (history.loop.step env op).map fun loop =>
    { loop, callbacks := history.callbacks ++ history.loop.runnerCallbacks op }

section
variable {env : ScanEnv} {loop next : MainLoop} {op : ScanOp}

theorem runs_fresh (horder : loop.scan.InOrder) (hattended : loop.scan.Attended) :
    ∀ call ∈ loop.runs env op, (∃ checks, call.1.Fresh call.2 checks) ∧ call.1.Allocated := by
  intro call hmem
  cases op with
  | addUrl | addRequest | giveUp => cases hmem
  | requestCallback req transfer =>
    simp only [runs] at hmem
    split at hmem
    · rename_i p hhandler
      exact hattended.fresh_of_runnerCallback transfer hhandler call hmem
    · cases hmem
  | iterate number keepRunning =>
    simp only [runs] at hmem
    cases hsearch : loop.scan.search env number with
    | none =>
      rw [hsearch] at hmem
      cases hmem
    | some tested =>
      rw [hsearch] at hmem
      obtain ⟨_, hchanges⟩ := Scan.search_inOrder horder hsearch
      exact (hchanges.attended Scan.not_notRunner hattended).1.fresh_of_serveAuditQueue call hmem

theorem leavesNothing_iff (horder : loop.scan.InOrder) (hattended : loop.scan.Attended) :
    loop.LeavesNothing env op ↔ loop.NoneAbandoned env op := by
  refine forall₂_congr fun call hmem => ?_
  obtain ⟨⟨checks, hfresh⟩, hallocated⟩ := runs_fresh horder hattended call hmem
  exact hfresh.leavesNothing_iff hallocated

/-- What an event keeps in which no failed `Run` leaves a request behind. -/
theorem step_attended (horder : loop.scan.InOrder) (hattended : loop.scan.Attended)
    (hleaves : loop.LeavesNothing env op) (hstep : loop.step env op = some next) :
    next.scan.Attended ∧ ∀ callbacks, loop.scan.Counts callbacks →
      next.scan.Counts (callbacks ++ loop.runnerCallbacks op) := by
  rcases step_scan hstep with
    ⟨hquiet, hchanges⟩ | ⟨req, transfer, rfl, hcallback⟩ | ⟨number, _, rfl, hiterate⟩
  · have hnone : loop.runnerCallbacks op = [] := by
      cases op with
      | requestCallback | iterate => exact hquiet.elim
      | addUrl | addRequest | giveUp => rfl
    rw [hnone]
    simp only [List.append_nil]
    exact hchanges.attended (fun _ _ => id) hattended
  · obtain ⟨hout, ⟨p, hhandler, heq⟩ | ⟨hother, hcalled⟩⟩ :=
      Scan.requestCallback_outcome horder hcallback
    · simp only [LeavesNothing, runs, hhandler] at hleaves
      simp only [runnerCallbacks, hhandler, heq]
      exact hattended.runnerCallback transfer hout hhandler hleaves
    · have hnone : loop.runnerCallbacks (.requestCallback req transfer) = [] := by
        cases hhandler : (deref loop.scan.mem req).requestHandler with
        | none => simp only [runnerCallbacks, hhandler]
        | some handler =>
          cases handler with
          | securityCheckRunner p => exact absurd hhandler (hother p)
          | crawler | notFoundDetector | hiddenObjectsFinder =>
            simp only [runnerCallbacks, hhandler]
      rw [hnone]
      simp only [List.append_nil]
      exact hcalled.changes.attended Scan.not_notRunner hattended
  · rw [Scan.iterate_eq_search] at hiterate
    obtain ⟨tested, hsearch, heq⟩ := Option.map_eq_some_iff.mp hiterate
    simp only [LeavesNothing, runs, hsearch, Option.elim_some] at hleaves
    obtain ⟨_, hchanges⟩ := Scan.search_inOrder horder hsearch
    obtain ⟨htested, hsame⟩ := hchanges.attended Scan.not_notRunner hattended
    obtain ⟨hnext, hcounts⟩ := htested.serveAuditQueue hleaves
    rw [← heq]
    simp only [runnerCallbacks, List.append_nil]
    exact ⟨hnext, fun callbacks hold => hcounts callbacks (hsame callbacks hold)⟩

end

namespace CallbackHistory

/-- The history when the scan starts. -/
def start (env : ScanEnv) (config : ScanConfig) : CallbackHistory :=
  { loop := MainLoop.start env config }

abbrev LeavesNothing (env : ScanEnv) (history : CallbackHistory) : ScanOp → Prop :=
  history.loop.LeavesNothing env

abbrev NoneAbandoned (env : ScanEnv) (history : CallbackHistory) : ScanOp → Prop :=
  history.loop.NoneAbandoned env

/-- What holds of a history as long as no failed `Run` leaves a request behind. -/
structure Accurate (history : CallbackHistory) : Prop where
  inOrder : history.loop.scan.InOrder
  attended : history.loop.scan.Attended
  counts : history.loop.scan.Counts history.callbacks

theorem start_accurate (env : ScanEnv) (config : ScanConfig) : (start env config).Accurate :=
  ⟨Scan.configured_inOrder env config, (Scan.configured_attended env config).1,
    (Scan.configured_attended env config).2⟩

section
variable {env : ScanEnv} {history next : CallbackHistory} {op : ScanOp}

theorem Accurate.leavesNothing_iff (h : history.Accurate) :
    history.LeavesNothing env op ↔ history.NoneAbandoned env op :=
  MainLoop.leavesNothing_iff h.inOrder h.attended

theorem Accurate.step (h : history.Accurate) (hleaves : history.LeavesNothing env op)
    (hstep : history.step env op = some next) : next.Accurate := by
  obtain ⟨loop, hloop, rfl⟩ := Option.map_eq_some_iff.mp hstep
  obtain ⟨hattended, hcounts⟩ := step_attended h.inOrder h.attended hleaves hloop
  exact ⟨step_inOrder h.inOrder hloop, hattended, hcounts _ h.counts⟩

end

/-- The failed checks of a run leave nothing behind exactly if `Run` abandons none of them. As
    long as it does not, `requestsCompleted` is the number of the callbacks of the runner that
    were for requests of its current check. -/
theorem leavesNothing_iff_noneAbandoned (env : ScanEnv) (config : ScanConfig) (ops : List ScanOp) :
    (Along (step env) (LeavesNothing env) (start env config) ops ↔
      Along (step env) (NoneAbandoned env) (start env config) ops) ∧
    (Along (step env) (NoneAbandoned env) (start env config) ops → ∀ last,
      run (step env) (start env config) ops = some last → ∀ p,
        (last.loop.scan.runnerAt p).requestsCompleted = last.callbacks.countP fun callback =>
          callback.1 = p ∧ callback.2 ∈ (last.loop.scan.runnerAt p).requests) := by
  have hiff : Along (step env) (LeavesNothing env) (start env config) ops ↔
      Along (step env) (NoneAbandoned env) (start env config) ops :=
    along_congr (I := Accurate) (fun _ _ h => h.leavesNothing_iff)
      (fun _ _ _ h hleaves hstep => h.step hleaves hstep) (start_accurate env config) ops
  refine ⟨hiff, fun hnone last hrun => ?_⟩
  have hlast : last.Accurate := run_preserves_along
    (fun _ _ _ h hleaves hstep => Accurate.step h hleaves hstep) (start_accurate env config)
    (hiff.mpr hnone) hrun
  exact hlast.counts.requestsCompleted

end CallbackHistory

def twiceTimed : ScanConfig := { checks := [.responseTime ⟨2, 8000⟩, .responseTime ⟨2, 8000⟩] }

/-- A page is fetched and given to the auditor, after which a request of a check is answered. -/
def auditedPage : List ScanOp :=
  [.addUrl (ascii "http://site/a"), .iterate fixedNumber true] ++ (List.range' 1 9).map .giveUp ++
    [.requestCallback 0 {}, .iterate fixedNumber true, .requestCallback 10 {}]

theorem leavesNothing_of_auditedPage :
    Along (CallbackHistory.step siteEnv) (CallbackHistory.LeavesNothing siteEnv)
        (CallbackHistory.start siteEnv twiceTimed) auditedPage ∧
      ∃ last, run (CallbackHistory.step siteEnv) (CallbackHistory.start siteEnv twiceTimed)
          auditedPage = some last ∧ last.callbacks = [(0, 10)] ∧
        (last.loop.scan.runnerAt 0).requestsCompleted = last.callbacks.countP fun callback =>
          callback.1 = 0 ∧ callback.2 ∈ (last.loop.scan.runnerAt 0).requests := by
  obtain ⟨hiff, hcounts⟩ :=
    CallbackHistory.leavesNothing_iff_noneAbandoned siteEnv twiceTimed auditedPage
  have hnone : Along (CallbackHistory.step siteEnv) (CallbackHistory.NoneAbandoned siteEnv)
      (CallbackHistory.start siteEnv twiceTimed) auditedPage := by decide +kernel
  have hcallbacks : (run (CallbackHistory.step siteEnv)
      (CallbackHistory.start siteEnv twiceTimed) auditedPage).map (·.callbacks) =
        some [(0, 10)] := by decide +kernel
  obtain ⟨last, hrun, hlast⟩ := Option.map_eq_some_iff.mp hcallbacks
  exact ⟨hiff.mpr hnone, last, hrun, hlast, hcounts hnone last hrun 0⟩

/-- The HTTP client refuses the second request of the first check. -/
def refusingEnv : ScanEnv := { siteEnv with accepts := fun call => call != 11 }

/-- The first request of the check that failed is counted for the next check, although it is
    none of the requests of that check. -/
theorem auditedPage_abandoned :
    ¬ Along (CallbackHistory.step refusingEnv) (CallbackHistory.LeavesNothing refusingEnv)
        (CallbackHistory.start refusingEnv twiceTimed) auditedPage ∧
      ∃ last, run (CallbackHistory.step refusingEnv)
          (CallbackHistory.start refusingEnv twiceTimed) auditedPage = some last ∧
        last.callbacks = [(0, 10)] ∧ (last.loop.scan.runnerAt 0).requests = [12, 13] ∧
        (last.loop.scan.runnerAt 0).requestsCompleted = 1 := by
  refine ⟨by decide +kernel, ?_⟩
  have hlast : (run (CallbackHistory.step refusingEnv)
      (CallbackHistory.start refusingEnv twiceTimed) auditedPage).map (fun last =>
        (last.callbacks, (last.loop.scan.runnerAt 0).requests,
          (last.loop.scan.runnerAt 0).requestsCompleted)) = some ([(0, 10)], [12, 13], 1) := by
    decide +kernel
  obtain ⟨last, hrun, heq⟩ := Option.map_eq_some_iff.mp hlast
  simp only [Prod.mk.injEq] at heq
  exact ⟨last, hrun, heq⟩

end MainLoop

end plusfish

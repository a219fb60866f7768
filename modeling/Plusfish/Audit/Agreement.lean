import Plusfish.Audit.Pending
import Plusfish.Audit.RuleCheck

open memory transition

namespace plusfish

/-- The issue callback was invoked by a runner. -/
def Reported (p : Nat) (events : List AuditEvent) : Prop :=
  ∃ check req request getRequestMeta, .reported p check req request getRequestMeta ∈ events

/-- The requests that a runner has scheduled for a check, and the responses that they get. -/
structure Round where
  runner : Nat
  check : GenericSecurityCheck
  issueCallback : Bool
  requests : List Nat
  respond : Nat → Transfer
  /-- The requests as they are looked at, with their responses. -/
  answer : Nat → Request
  getRequestMeta : RequestMetaCallback

namespace Round

def positive (round : Round) (q : Nat) : Bool :=
  round.check.evaluateSingle round.getRequestMeta (round.answer q)

/-- Whether an issue is reported while some of the requests are awaited. -/
def Reports (round : Round) (awaited : List Nat) : Prop :=
  round.issueCallback = true ∧
    (round.check.securityTest.allowSerialEvaluation = true ∨ awaited = []) ∧
      ∃ q ∈ round.requests, q ∉ awaited ∧ round.positive q = true

theorem reports_nil (round : Round) : round.Reports [] ↔
    round.issueCallback = true ∧ ∃ q ∈ round.requests, round.positive q = true := by
  simp [Reports]

/-- A callback adds the issue that its evaluation finds. -/
theorem reports_cons (round : Round) {q : Nat} {awaited : List Nat} (hq : q ∈ round.requests)
    (hnot : q ∉ awaited) : round.Reports awaited ↔ round.Reports (q :: awaited) ∨
      round.issueCallback = true ∧
        (if round.check.securityTest.allowSerialEvaluation then round.positive q
        else awaited.isEmpty && round.requests.any round.positive) = true := by
  cases hserial : round.check.securityTest.allowSerialEvaluation with
  | false =>
    have hnone : ¬ round.Reports (q :: awaited) := by simp [Reports, hserial]
    rw [or_iff_right hnone]
    cases awaited with
    | nil => simp [reports_nil]
    | cons => simp [Reports, hserial]
  | true =>
    simp only [Reports, hserial, true_or, true_and, if_true, List.mem_cons, not_or, ← and_or_left]
    refine and_congr_right fun _ => ⟨?_, ?_⟩
    · rintro ⟨r, hr, hnotr, hpositive⟩
      by_cases hrq : r = q
      · exact Or.inr (hrq ▸ hpositive)
      · exact Or.inl ⟨r, hr, ⟨hrq, hnotr⟩, hpositive⟩
    · rintro (⟨r, hr, ⟨_, hnotr⟩, hpositive⟩ | hpositive)
      · exact ⟨r, hr, hnotr, hpositive⟩
      · exact ⟨q, hq, hnot, hpositive⟩

/-- Some requests of the check have been called back, and these ones are still awaited. -/
structure Collecting (round : Round) (awaited : List Nat) (history : AuditHistory) : Prop where
  allocated : round.runner < history.scan.runnerMem.next
  check : (history.scan.runnerAt round.runner).securityCheck = .generic round.check
  issueCallback : (history.scan.runnerAt round.runner).issueCallback = round.issueCallback
  requests : (history.scan.runnerAt round.runner).requests = round.requests
  count : (history.scan.runnerAt round.runner).requestsCompleted + awaited.length =
    round.requests.length
  finished : (history.scan.runnerAt round.runner).finished = false
  metadata : history.scan.store.getRequestMetadata = round.getRequestMeta
  outstanding : ∀ q ∈ awaited, q ∈ history.scan.outstanding
  handlers : ∀ q ∈ awaited,
    (deref history.scan.mem q).requestHandler = some (.securityCheckRunner round.runner)
  exist : ∀ q ∈ round.requests, q < history.scan.mem.next
  answers : ∀ q ∈ round.requests,
    (if q ∈ awaited then (deref history.scan.mem q).withTransfer (round.respond q)
      else deref history.scan.mem q).seen = round.answer q
  reported : Reported round.runner history.events ↔ round.Reports awaited

end Round

namespace Scan

theorem deref_receive {scan : Scan} {req : Nat} (hreq : req < scan.mem.next) (transfer : Transfer)
    (q : Nat) : deref (scan.receive req transfer).mem q =
      if q = req then (deref scan.mem q).withTransfer transfer else deref scan.mem q := by
  obtain ⟨request, hget⟩ := Heap.get?_of_lt_next hreq
  simp only [receive, deref, Heap.get?_modify]
  by_cases hq : q = req
  · simp [hq, hget]
  · simp [hq, Ne.symm hq]

/-- What a rule sees of a request after the evaluation of a callback. -/
theorem evaluateCallback_seen (env : ScanEnv) (scan : Scan) (p req q : Nat) :
    (deref (scan.evaluateCallback env p req).mem q).seen = (deref scan.mem q).seen := by
  have hreported (scan : Scan) : (deref (scan.reportIssue env p req).mem q).seen =
      (deref scan.mem q).seen := by
    unfold reportIssue
    dsimp only
    split
    · exact DataStore.addIssueDetails_seen env.store scan.mem scan.store _ _ q
    · rfl
  have hstored (entry : Option (Int × Int)) : (scan.setRequestMeta entry).mem = scan.mem := by
    unfold setRequestMeta
    split <;> rfl
  rw [evaluateCallback_eq]
  split
  · rw [hreported, hstored]
  · rw [hstored]

/-- The evaluation of a check with a rule stores no metadata. -/
theorem evaluateCallback_getRequestMetadata (env : ScanEnv) {scan : Scan} {p : Nat}
    {check : GenericSecurityCheck} (hcheck : (scan.runnerAt p).securityCheck = .generic check)
    (req : Nat) : (scan.evaluateCallback env p req).store.getRequestMetadata =
      scan.store.getRequestMetadata := by
  have hentry : scan.setRequestMeta (scan.evaluation p req).2 = scan := by
    rw [evaluation_of_generic hcheck]
    rfl
  rw [evaluateCallback_eq, hentry]
  split
  · exact (reportIssue_looksAtPages env (fun _ => False) scan p req).getRequestMetadata
  · rfl

theorem DoneOutcome.eq_of_unfinished {env : ScanEnv} {scan after : Scan} {p : Nat}
    {events : List AuditEvent} (h : DoneOutcome env scan p events after)
    (hunfinished : (scan.runnerAt p).finished = false) : after = scan := by
  cases h with
  | waiting => rfl
  | ended hfinished | exhausted hfinished | goesOn hfinished =>
    rw [hfinished] at hunfinished
    cases hunfinished

end Scan

theorem reported_append {p : Nat} {first second : List AuditEvent} :
    Reported p (first ++ second) ↔ Reported p first ∨ Reported p second := by
  simp only [Reported, List.mem_append, exists_or]

theorem not_reported_of_isScheduling {p q : Nat} {events : List AuditEvent}
    (h : ∀ event ∈ events, event.isScheduling q) : ¬ Reported p events := by
  rintro ⟨_, _, _, _, hmem⟩
  cases h _ hmem

namespace Round

open Scan

variable {round : Round} {history : AuditHistory} {q : Nat} {awaited : List Nat}

/-- The runner at the evaluation of a callback. -/
theorem Collecting.counted (h : round.Collecting (q :: awaited) history) (transfer : Transfer) :
    ((history.scan.receive q transfer).counted round.runner).runnerAt round.runner =
        (history.scan.runnerAt round.runner).countCallback ∧
      (history.scan.runnerAt round.runner).countCallback.finished = awaited.isEmpty := by
  refine ⟨runnerAt_setRunner (history.scan.receive q transfer) h.allocated _, ?_⟩
  have hcount := h.count
  simp only [SecurityCheckRunner.countCallback, h.finished, h.requests]
  rw [List.length_cons] at hcount
  cases awaited with
  | nil => exact if_pos (by simpa using hcount)
  | cons => exact if_neg (by rw [List.length_cons] at hcount; omega)

/-- The evaluation of a callback looks at the request in serial, and at all of them in batch. -/
theorem Collecting.evaluation (hsingle : round.check.EvaluatesSingly)
    (h : round.Collecting (q :: awaited) history) (hq : q ∈ round.requests) :
    (((history.scan.receive q (round.respond q)).counted round.runner).evaluation
        round.runner q).1 =
      if round.check.securityTest.allowSerialEvaluation then round.positive q
      else awaited.isEmpty && round.requests.any round.positive := by
  obtain ⟨hat, hfinished⟩ := h.counted (round.respond q)
  have hcheck : (((history.scan.receive q (round.respond q)).counted round.runner).runnerAt
      round.runner).securityCheck = .generic round.check := by
    rw [hat]
    exact h.check
  have hmem : ((history.scan.receive q (round.respond q)).counted round.runner).mem =
      (history.scan.receive q (round.respond q)).mem := rfl
  have hmetadata : ((history.scan.receive q (round.respond q)).counted
      round.runner).store.getRequestMetadata = round.getRequestMeta := h.metadata
  have hanswer {r : Nat} (hr : r ∈ round.requests) (hseen : r = q ∨ r ∉ awaited) :
      round.check.evaluateSingle round.getRequestMeta
        (deref (history.scan.receive q (round.respond q)).mem r) = round.positive r := by
    have hlooked := h.answers r hr
    rw [← hsingle.seen, deref_receive (h.exist q hq)]
    by_cases hrq : r = q
    · subst hrq
      rw [if_pos List.mem_cons_self] at hlooked
      rw [if_pos rfl, hlooked]
      rfl
    · rw [if_neg (by simp [hrq, hseen.resolve_left hrq])] at hlooked
      rw [if_neg hrq, hlooked]
      rfl
  rw [evaluation_of_generic hcheck, hmem, hmetadata, hat, hfinished]
  dsimp only
  split
  · exact hanswer hq (Or.inl rfl)
  · cases awaited with
    | cons => rfl
    | nil =>
      have hrequests : (history.scan.runnerAt round.runner).countCallback.requests =
          round.requests := h.requests
      rw [hrequests, hsingle.batch, List.any_map]
      congr 1
      rw [Bool.eq_iff_iff, List.any_eq_true, List.any_eq_true]
      refine exists_congr fun r => and_congr_right fun hr => ?_
      rw [← hanswer hr (Or.inr List.not_mem_nil)]
      rfl

/-- What the evaluation of a callback finds is reported. -/
theorem Collecting.reported_append (hsingle : round.check.EvaluatesSingly)
    (h : round.Collecting (q :: awaited) history) (hq : q ∈ round.requests) (hnot : q ∉ awaited)
    {events : List AuditEvent} (hscheduling : ∀ event ∈ events, event.isScheduling round.runner) :
    Reported round.runner (history.events ++ (.calledBack round.runner q ::
      ((history.scan.receive q (round.respond q)).counted round.runner).evaluateCallbackEvents
        round.runner q ++ events)) ↔ round.Reports awaited := by
  have hcallback : (((history.scan.receive q (round.respond q)).counted round.runner).runnerAt
      round.runner).issueCallback = round.issueCallback := by
    rw [(h.counted (round.respond q)).1]
    exact h.issueCallback
  have hshown : Reported round.runner (((history.scan.receive q (round.respond q)).counted
      round.runner).evaluateCallbackEvents round.runner q) ↔ round.issueCallback = true ∧
        (if round.check.securityTest.allowSerialEvaluation then round.positive q
        else awaited.isEmpty && round.requests.any round.positive) = true := by
    simp only [Reported, reported_mem_evaluateCallbackEvents, h.evaluation hsingle hq, hcallback]
    simp [and_comm]
  have hcalled : ¬ Reported round.runner [.calledBack round.runner q] := by
    rintro ⟨_, _, _, _, hmem⟩
    cases List.mem_singleton.mp hmem
  rw [plusfish.reported_append, plusfish.reported_append, ← List.singleton_append,
    plusfish.reported_append, or_iff_right hcalled,
    or_iff_left (not_reported_of_isScheduling hscheduling), h.reported, hshown,
    ← round.reports_cons hq hnot]

/-- What a rule sees of the requests after the evaluation of a callback. -/
theorem Collecting.answers_evaluateCallback (env : ScanEnv)
    (h : round.Collecting (q :: awaited) history) (hq : q ∈ round.requests) (hnot : q ∉ awaited) :
    ∀ r ∈ round.requests, (if r ∈ awaited then
        (deref (((history.scan.receive q (round.respond q)).counted round.runner).evaluateCallback
          env round.runner q).mem r).withTransfer (round.respond r)
      else deref (((history.scan.receive q (round.respond q)).counted
        round.runner).evaluateCallback env round.runner q).mem r).seen = round.answer r := by
  intro r hr
  have hlooked := h.answers r hr
  have hafter : (deref (((history.scan.receive q (round.respond q)).counted
      round.runner).evaluateCallback env round.runner q).mem r).seen = (if r = q then
        (deref history.scan.mem r).withTransfer (round.respond q)
      else deref history.scan.mem r).seen := by
    rw [evaluateCallback_seen]
    exact congrArg Request.seen (deref_receive (h.exist q hq) _ r)
  by_cases hrq : r = q
  · subst hrq
    rw [if_pos List.mem_cons_self] at hlooked
    rw [if_neg hnot, hafter, if_pos rfl, hlooked]
  · rw [if_neg hrq] at hafter
    by_cases hin : r ∈ awaited
    · rw [if_pos (List.mem_cons_of_mem _ hin)] at hlooked
      rw [if_pos hin, Request.seen_withTransfer, hafter, ← Request.seen_withTransfer, hlooked]
    · rw [if_neg (by simp [hrq, hin])] at hlooked
      rw [if_neg hin, hafter, hlooked]

/-- After the evaluation of a callback the other requests are still awaited. -/
theorem Collecting.evaluateCallback (env : ScanEnv) (h : round.Collecting (q :: awaited) history)
    (hnot : q ∉ awaited) (hsubset : q :: awaited ⊆ round.requests) (hne : awaited ≠ [])
    {events : List AuditEvent} (hreported : Reported round.runner events ↔ round.Reports awaited) :
    round.Collecting awaited ⟨((history.scan.receive q (round.respond q)).counted
      round.runner).evaluateCallback env round.runner q, events⟩ := by
  obtain ⟨hat, hfinished⟩ := h.counted (round.respond q)
  obtain ⟨hrunner, _⟩ := evaluateCallback_runner env q (round.respond q) h.allocated
  have hsame := evaluateCallback_sameAudits env
    ((history.scan.receive q (round.respond q)).counted round.runner) round.runner q
  have hcheck : (((history.scan.receive q (round.respond q)).counted round.runner).runnerAt
      round.runner).securityCheck = .generic round.check := by
    rw [hat]
    exact h.check
  have hexist {r : Nat} (hr : r ∈ round.requests) :
      r < ((history.scan.receive q (round.respond q)).counted round.runner).mem.next := by
    simpa [Scan.counted, setRunner, receive] using h.exist r hr
  refine ⟨?_, ?_, ?_, ?_, ?_, ?_, ?_, fun r hr => ?_, fun r hr => ?_, fun r hr => ?_,
    h.answers_evaluateCallback env (hsubset List.mem_cons_self) hnot, hreported⟩
  · rw [hsame.runnerMem]
    exact Nat.lt_of_lt_of_eq h.allocated
      (setRunner_runsFor (history.scan.receive q (round.respond q)) round.runner _).runnerNext.symm
  · rw [hrunner]
    exact h.check
  · rw [hrunner]
    exact h.issueCallback
  · rw [hrunner]
    exact h.requests
  · have hcount := h.count
    rw [hrunner]
    simp only [SecurityCheckRunner.countCallback, List.length_cons] at hcount ⊢
    omega
  · rw [hrunner, hfinished]
    simpa using hne
  · exact (evaluateCallback_getRequestMetadata env hcheck q).trans h.metadata
  · rw [hsame.outstanding]
    have hother : r ≠ q := fun heq => hnot (heq ▸ hr)
    exact (List.mem_erase_of_ne hother).mpr (h.outstanding r (List.mem_cons_of_mem _ hr))
  · have hin := List.mem_cons_of_mem q hr
    rw [(Frame.deref hsame.frame (hexist (hsubset hin))).requestHandler]
    exact (receive_requestHandler history.scan q (round.respond q) r).trans (h.handlers r hin)
  · exact Nat.lt_of_lt_of_le (hexist hr) hsame.frame.next_le

/-- What a callback finds is reported, and the other requests are still awaited. -/
theorem Collecting.callback (env : ScanEnv) (hsingle : round.check.EvaluatesSingly)
    (h : round.Collecting (q :: awaited) history) (hnodup : (q :: awaited).Nodup)
    (hsubset : q :: awaited ⊆ round.requests) :
    ∃ next, history.step env (.requestCallback q (round.respond q)) = some next ∧
      (Reported round.runner next.events ↔ round.Reports awaited) ∧
      (awaited ≠ [] → round.Collecting awaited next) := by
  have hmem : q ∈ q :: awaited := List.mem_cons_self
  have hnot : q ∉ awaited := (List.nodup_cons.mp hnodup).1
  obtain ⟨next, events, hstep, houtcome, heq⟩ := AuditHistory.callback_step env (round.respond q)
    (h.outstanding q hmem) (h.handlers q hmem)
  have hreported : Reported round.runner next.events ↔ round.Reports awaited := by
    rw [heq]
    exact h.reported_append hsingle (hsubset hmem) hnot houtcome.isScheduling
  refine ⟨next, hstep, hreported, fun hne => ?_⟩
  -- The runner waits, so that nothing has happened after the evaluation.
  have hcollecting := h.evaluateCallback env hnot hsubset hne hreported
  rwa [← houtcome.eq_of_unfinished hcollecting.finished] at hcollecting

/-- When all the requests have been called back, in any order, an issue has been reported
    exactly where one of the responses satisfies the rule. -/
theorem Collecting.run (env : ScanEnv) (hsingle : round.check.EvaluatesSingly)
    (hne : awaited ≠ []) (h : round.Collecting awaited history) (hnodup : awaited.Nodup)
    (hsubset : awaited ⊆ round.requests) :
    ∃ last, transition.run (AuditHistory.step env) history
        (awaited.map fun q => .requestCallback q (round.respond q)) = some last ∧
      (Reported round.runner last.events ↔ round.Reports []) := by
  induction awaited generalizing history with
  | nil => exact absurd rfl hne
  | cons q awaited ih =>
    obtain ⟨next, hstep, hreported, hcollecting⟩ := h.callback env hsingle hnodup hsubset
    by_cases hlast : awaited = []
    · subst hlast
      exact ⟨next, run_cons_eq_some.mpr ⟨next, hstep, rfl⟩, hreported⟩
    · obtain ⟨last, hrun, hreports⟩ := ih hlast (hcollecting hlast) (List.nodup_cons.mp hnodup).2
        fun r hr => hsubset (List.mem_cons_of_mem _ hr)
      exact ⟨last, run_cons_eq_some.mpr ⟨next, hstep, hrun⟩, hreports⟩

end Round

namespace Scan

/-- The requests that the check of a runner makes, and their responses. -/
def round (env : ScanEnv) (scan : Scan) (p : Nat) (check : GenericSecurityCheck)
    (respond : Nat → Transfer) : Round where
  runner := p
  check
  issueCallback := (scan.runnerAt p).issueCallback
  requests := scan.newAddresses env p
  respond
  answer q := ((deref (scan.createRequests env p).2.mem q).withTransfer (respond q)).seen
  getRequestMeta := scan.store.getRequestMetadata

section
variable {env : ScanEnv} {scan : Scan} {p : Nat} {nextChecks : List SecurityCheck}
  {check : GenericSecurityCheck} (haccepts : ∀ i, env.accepts i = true)
  (hfresh : scan.Fresh p nextChecks) (hcheck : (scan.runnerAt p).securityCheck = .generic check)
  (htested : (scan.runnerAt p).testedRequest < scan.mem.next)
  (hnegative : check.evaluateSingle scan.store.getRequestMetadata
    (deref scan.mem (scan.runnerAt p).testedRequest) = false)
include haccepts hfresh hcheck htested hnegative

/-- After `Run` all the requests are awaited. -/
theorem Fresh.collecting (respond : Nat → Transfer) {order : List Nat}
    (horder : order.Perm (scan.newAddresses env p)) (hne : order ≠ []) :
    (scan.round env p check respond).Collecting order
      ⟨(scan.run env p).2, [scan.runEvent env p]⟩ := by
  have hsome : scan.newAddresses env p ≠ [] := fun hnil => hne (by simpa [hnil] using horder)
  have hdone : (scan.run env p).1 = true := by
    refine hfresh.run_done haccepts ?_ ?_
    · have hmade : (scan.newRequests env p).2 ≠ [] := fun hnil => hsome (by
        rw [newAddresses, hnil]
        rfl)
      rw [newRequests, hcheck] at hmade ⊢
      simpa [SecurityCheck.createRequests, GenericSecurityCheck.createRequests] using hmade
    · have hsame := (createRequests_runsFor env scan p).deref htested
      rw [hcheck, hsame, SecurityCheck.evaluateSingle, hnegative, Bool.and_false]
  have hrun : scan.run env p = (true, (scan.run env p).2) := Prod.ext hdone rfl
  have houtcome := hfresh.run_outcome env hrun
  obtain ⟨hout, hhandlers⟩ := hfresh.run_of_accepts haccepts hrun
  have hrunner : (scan.run env p).2.runnerAt (scan.round env p check respond).runner =
      { scan.runnerAt p with requests := scan.newAddresses env p } := houtcome.runner
  have hseen (q : Nat) : (deref (scan.run env p).2.mem q).seen =
      (deref (scan.createRequests env p).2.mem q).seen := by
    rcases run_cases env scan p with heq | ⟨_, heq⟩
    · rw [heq]
    · rw [heq, scheduleRequests_keeps Request.seen fun _ _ => rfl]
  refine ⟨?_, ?_, ?_, ?_, ?_, ?_, ?_, fun q hq => ?_, fun q hq => ?_, fun q hq => ?_,
    fun q hq => ?_, ?_⟩
  · rw [houtcome.runs.runnerNext]
    exact hfresh.allocated
  · rw [hrunner]
    exact hcheck
  · rw [hrunner]
    rfl
  · rw [hrunner]
    rfl
  · rw [hrunner, horder.length_eq]
    exact (congrArg (· + _) hfresh.requestsCompleted).trans (Nat.zero_add _)
  · rw [hrunner]
    exact hfresh.notFinished
  · exact congrArg DataStore.getRequestMetadata houtcome.store
  · rw [hout]
    exact List.mem_append_right _ (horder.mem_iff.mp hq)
  · exact hhandlers rfl q (horder.mem_iff.mp hq)
  · rw [houtcome.next]
    exact ((mem_newAddresses env).mp hq).2
  · rw [if_pos (horder.mem_iff.mpr hq), Request.seen_withTransfer, hseen,
      ← Request.seen_withTransfer]
    rfl
  · refine iff_of_false ?_ ?_
    · rintro ⟨_, _, _, _, hmem⟩
      cases List.mem_singleton.mp hmem
    · rintro ⟨_, _, q, hq, hnot, _⟩
      exact hnot (horder.mem_iff.mpr hq)

/-- When all requests of a check have been called back, an issue has been reported exactly where
    one of the responses tests positive. -/
theorem Fresh.reported_iff (hsingle : check.EvaluatesSingly) (respond : Nat → Transfer)
    {order : List Nat} (horder : order.Perm (scan.newAddresses env p)) :
    ∃ last, transition.run (AuditHistory.step env)
        ⟨(scan.run env p).2, [scan.runEvent env p]⟩
        (order.map fun q => .requestCallback q (respond q)) = some last ∧
      (Reported p last.events ↔ (scan.round env p check respond).Reports []) := by
  by_cases hne : order = []
  · subst hne
    have hnone : scan.newAddresses env p = [] := by simpa using horder
    refine ⟨_, rfl, iff_of_false ?_ ?_⟩
    · rintro ⟨_, _, _, _, hmem⟩
      cases List.mem_singleton.mp hmem
    · rintro ⟨_, _, q, hq, _⟩
      rw [show (scan.round env p check respond).requests = [] from hnone] at hq
      cases hq
  · have hnodup : order.Nodup := horder.nodup_iff.mpr (newAddresses_nodup env scan p)
    exact (hfresh.collecting haccepts hcheck htested hnegative respond horder hne).run env hsingle
      hne hnodup horder.subset

end

/-- The scan where a runner has another check. -/
def withCheck (scan : Scan) (p : Nat) (check : SecurityCheck) : Scan :=
  scan.setRunner p { scan.runnerAt p with securityCheck := check }

theorem Fresh.withCheck {scan : Scan} {p : Nat} {nextChecks : List SecurityCheck}
    (h : scan.Fresh p nextChecks) (check : SecurityCheck) :
    (scan.withCheck p check).runnerAt p = { scan.runnerAt p with securityCheck := check } ∧
      (scan.withCheck p check).Fresh p nextChecks := by
  have hrunner := runnerAt_setRunner scan h.allocated
    { scan.runnerAt p with securityCheck := check }
  have hnext := (setRunner_runsFor scan p
    { scan.runnerAt p with securityCheck := check }).runnerNext
  refine ⟨hrunner, ?_, ?_, ?_, ?_, ?_⟩
  · exact Nat.lt_of_lt_of_eq h.allocated hnext.symm
  all_goals rw [Scan.withCheck, hrunner]
  · exact h.nextChecks
  · exact h.requests
  · exact h.notFinished
  · exact h.requestsCompleted

/-- The generated requests for the tested request of a runner, as objects. -/
def generated (scan : Scan) (p : Nat) (generator : Generator) : List Nat × Heap Request :=
  scan.mem.allocAll (generator.generate (deref scan.mem (scan.runnerAt p).testedRequest))

end Scan

namespace AuditHistory

open Scan (AuditOp)

/-- A runner runs a check, and this is all that has happened. -/
def startCheck (env : ScanEnv) (scan : Scan) (p : Nat) (check : SecurityCheck) : AuditHistory :=
  ⟨((scan.withCheck p check).run env p).2, [(scan.withCheck p check).runEvent env p]⟩

/-- The callbacks of requests, in this order. -/
def callbacks (respond : Nat → Transfer) (order : List Nat) : List AuditOp :=
  order.map fun q => .requestCallback q (respond q)

section
variable {env : ScanEnv} (haccepts : ∀ i, env.accepts i = true) (re2 : RE2) (address : Nat → Nat)
  (rule : MatchRule) (generator : Generator) (securityTest : SecurityTest) {scan : Scan} {p : Nat}
  {nextChecks : List SecurityCheck} (hfresh : scan.Fresh p nextChecks)
  (htested : (scan.runnerAt p).testedRequest < scan.mem.next)
  (hnegative : (GenericSecurityCheck.ofRule re2 address rule generator securityTest).evaluateSingle
    scan.store.getRequestMetadata (deref scan.mem (scan.runnerAt p).testedRequest) = false)
  (respond : Nat → Transfer)
include haccepts hfresh htested hnegative

/-- In both ways of evaluation, an issue is reported exactly where a response satisfies the
    rule. -/
theorem reported_iff_satisfied (serial : Bool) {order : List Nat}
    (horder : order.Perm (scan.generated p generator).1) :
    ∃ last, transition.run (step env) (startCheck env scan p
        (.ofRule re2 address rule generator securityTest serial)) (callbacks respond order) =
        some last ∧
      (Reported p last.events ↔ (scan.runnerAt p).issueCallback = true ∧
        ∃ q ∈ (scan.generated p generator).1,
          (GenericSecurityCheck.ofRule re2 address rule generator
          securityTest).evaluateSingle scan.store.getRequestMetadata
            ((deref (scan.generated p generator).2 q).withTransfer (respond q)) = true) := by
  obtain ⟨hrunner, hfresh'⟩ :=
    hfresh.withCheck (.ofRule re2 address rule generator securityTest serial)
  have hsingle := GenericSecurityCheck.ofRule_evaluatesSingly re2 address rule generator
    { securityTest with allowSerialEvaluation := serial }
  have hgenerated : (scan.withCheck p (.ofRule re2 address rule generator securityTest
      serial)).newRequests env p = (!(generator.generate (deref scan.mem
        (scan.runnerAt p).testedRequest)).isEmpty, generator.generate (deref scan.mem
          (scan.runnerAt p).testedRequest)) := by
    rw [Scan.newRequests, hrunner]
    rfl
  have haddresses : (scan.withCheck p (.ofRule re2 address rule generator securityTest
      serial)).newAddresses env p = (scan.generated p generator).1 := by
    rw [Scan.newAddresses, hgenerated]
    rfl
  have hmem : ((scan.withCheck p (.ofRule re2 address rule generator securityTest
      serial)).createRequests env p).2.mem = (scan.generated p generator).2 :=
    congrArg (fun requests : Bool × List Request => (scan.mem.allocAll requests.2).2) hgenerated
  obtain ⟨last, hrun, hreported⟩ := hfresh'.reported_iff haccepts (by rw [hrunner]; rfl)
    (by
      rw [hrunner]
      exact htested)
    (by
      rw [hrunner, GenericSecurityCheck.evaluateSingle_ofRule]
      rwa [GenericSecurityCheck.evaluateSingle_ofRule] at hnegative)
    hsingle respond (haddresses ▸ horder)
  refine ⟨last, hrun, hreported.trans ((Round.reports_nil _).trans ?_)⟩
  have hcallback := congrArg SecurityCheckRunner.issueCallback hrunner
  simp only [Scan.round, Round.positive, haddresses, hmem, hcallback, hsingle.seen]
  simp only [GenericSecurityCheck.evaluateSingle_ofRule]
  rfl

/-- When all the requests that were generated for a request that does not satisfy the rule have
    been called back, an issue has been reported in serial exactly where one has been in batch,
    in whatever orders the callbacks came. -/
theorem serial_agrees_with_batch (serial serial' : Bool) {order order' : List Nat}
    (horder : order.Perm (scan.generated p generator).1)
    (horder' : order'.Perm (scan.generated p generator).1) :
    ∃ last last',
      transition.run (step env) (startCheck env scan p
        (.ofRule re2 address rule generator securityTest serial)) (callbacks respond order) =
          some last ∧
      transition.run (step env) (startCheck env scan p
        (.ofRule re2 address rule generator securityTest serial')) (callbacks respond order') =
          some last' ∧
      (Reported p last.events ↔ Reported p last'.events) := by
  obtain ⟨last, hrun, hreported⟩ := reported_iff_satisfied haccepts re2 address rule generator
    securityTest hfresh htested hnegative respond serial horder
  obtain ⟨last', hrun', hreported'⟩ := reported_iff_satisfied haccepts re2 address rule generator
    securityTest hfresh htested hnegative respond serial' horder'
  exact ⟨last, last', hrun, hrun', hreported.trans hreported'.symm⟩

end

open Scan (oneAudit plainEnv sqlCheck errorRule quoteRule pageOf)
open GenericResponseMatcher (literalRe2)

/-- A runner that is about to run its check. -/
def newRunner : Scan := (oneAudit []).allocRunner 0 (sqlCheck true) []

/-- The first of two requests finds an error. -/
def firstFails (q : Nat) : Transfer := if q = 1 then pageOf "SQL error" else pageOf "ok"

def quotes : Generator := GenericGenerator.generator (plainEnv true).request quoteRule

def sqlAudit (serial : Bool) (order : List Nat) : Option AuditHistory :=
  transition.run (step (plainEnv true)) (startCheck (plainEnv true) newRunner 0
    (.ofRule literalRe2 id errorRule quotes { issueType := .sqlInjection } serial))
    (callbacks firstFails order)

theorem sqlAudit_reports : (sqlAudit true [1, 2]).map reports = some [(1, true)] ∧
    (sqlAudit false [2, 1]).map reports = some [(1, true)] := by
  decide +kernel

theorem serial_agrees_with_batch_sqlAudit : ∃ last last',
    sqlAudit true [1, 2] = some last ∧ sqlAudit false [2, 1] = some last' ∧
    (Reported 0 last.events ↔ Reported 0 last'.events) ∧
    last.reports = [(1, true)] ∧ last'.reports = [(1, true)] := by
  have haccepts (i : Nat) : (plainEnv true).accepts i = true := rfl
  have hfresh : newRunner.Fresh 0 [] := Scan.allocRunner_fresh (oneAudit []) (sqlCheck true) [] 0
  have hgenerated : (newRunner.generated 0 quotes).1 = [1, 2] := by decide +kernel
  have hinOrder : [1, 2].Perm (newRunner.generated 0 quotes).1 := hgenerated ▸ .refl _
  have hswapped : [2, 1].Perm (newRunner.generated 0 quotes).1 := hgenerated ▸ .swap _ _ _
  obtain ⟨last, last', hrun, hrun', hagree⟩ := serial_agrees_with_batch haccepts literalRe2 id
    errorRule quotes { issueType := .sqlInjection } hfresh Nat.zero_lt_one (by decide +kernel)
    firstFails true false hinOrder hswapped
  obtain ⟨hserial, hbatch⟩ := sqlAudit_reports
  have hreports : (some last).map reports = some [(1, true)] := hrun ▸ hserial
  have hreports' : (some last').map reports = some [(1, true)] := hrun' ▸ hbatch
  exact ⟨last, last', hrun, hrun', hagree, Option.some.inj hreports, Option.some.inj hreports'⟩

end AuditHistory

end plusfish

import Plusfish.Audit.Effects

open memory

namespace plusfish

/-- A check that makes at least one request whenever it says that it made some. -/
def SecurityCheck.measures : SecurityCheck → Bool
  | .generic _ => true
  | .responseTime check => 1 ≤ check.numberRequestsToCreate

theorem SecurityCheck.createRequests_ne_nil {env : RequestEnv} {check : SecurityCheck}
    {req : Request} (hmeasures : check.measures = true)
    (hcreated : (check.createRequests env req).1 = true) :
    (check.createRequests env req).2 ≠ [] := by
  cases check with
  | generic check =>
    simpa [createRequests, GenericSecurityCheck.createRequests] using hcreated
  | responseTime check =>
    have hcount : 1 ≤ check.numberRequestsToCreate := by simpa [measures] using hmeasures
    have hpos : check.numberRequestsToCreate.toNat ≠ 0 := by omega
    simpa [createRequests, ResponseTimeCheck.createRequests] using hpos

/-- The requests that `Run` schedules for a check, and nothing where it skips the check. -/
def SecurityCheck.tests (env : RequestEnv) (getRequestMeta : RequestMetaCallback)
    (self : SecurityCheck) (req : Request) : Option (List Request) :=
  let (created, requests) := self.createRequests env req
  if !created || (self.canEvaluateInSerial && self.evaluateSingle getRequestMeta req) then none
  else some requests

/-- A request that a check which is evaluated in serial wanted to schedule, and that was
    refused. -/
def ScheduleCall.refusedInSerial (call : ScheduleCall) : Bool :=
  match call.caller with
  | .securityCheckRunner _ serial => serial && !call.accepted
  | _ => false

namespace Scan

/-- No request of a check that is evaluated in serial has been refused. -/
def NoneRefusedInSerial (scan : Scan) : Prop := ∀ call ∈ scan.calls, call.refusedInSerial = false

instance (scan : Scan) : Decidable scan.NoneRefusedInSerial :=
  inferInstanceAs (Decidable (∀ call ∈ scan.calls, call.refusedInSerial = false))

/-- The runner waits: its check has requests that have not been called back, all of them
    with the runner as their handler. -/
structure Waits (scan : Scan) (p : Nat) : Prop where
  allocated : p < scan.runnerMem.next
  handlers : ∀ req ∈ (scan.runnerAt p).requests, req < scan.mem.next ∧
    (deref scan.mem req).requestHandler = some (.securityCheckRunner p)
  notFinished : (scan.runnerAt p).finished = false
  unfinished : (scan.runnerAt p).requestsCompleted < (scan.runnerAt p).requests.length
  outstanding : (scan.runnerAt p).requests.length ≤ (scan.runnerAt p).requestsCompleted +
    scan.outstanding.countP (· ∈ (scan.runnerAt p).requests)

theorem Waits.exists_outstanding {scan : Scan} {p : Nat} (h : scan.Waits p) :
    ∃ req ∈ (scan.runnerAt p).requests, req ∈ scan.outstanding := by
  have hpos : 0 < scan.outstanding.countP (· ∈ (scan.runnerAt p).requests) := by
    have hunfinished := h.unfinished
    have houtstanding := h.outstanding
    omega
  obtain ⟨req, hmem, hreq⟩ := List.countP_pos_iff.mp hpos
  exact ⟨req, by simpa using hreq, hmem⟩

/-- What running checks on behalf of one runner leaves alone. -/
structure RunsFor (p : Nat) (scan scan' : Scan) : Prop where
  next : scan.mem.next ≤ scan'.mem.next
  requests : ∀ q < scan.mem.next, scan'.mem.get? q = scan.mem.get? q
  runners : ∀ q ≠ p, scan'.runnerMem.get? q = scan.runnerMem.get? q
  runnerNext : scan'.runnerMem.next = scan.runnerMem.next
  selectiveAuditor : scan'.selectiveAuditor = scan.selectiveAuditor
  outstanding : scan.outstanding <+: scan'.outstanding
  calls : scan.calls <+: scan'.calls

theorem RunsFor.refl (p : Nat) (scan : Scan) : RunsFor p scan scan :=
  ⟨Nat.le_refl _, fun _ _ => rfl, fun _ _ => rfl, rfl, rfl, List.prefix_refl _, List.prefix_refl _⟩

theorem RunsFor.trans {p : Nat} {a b c : Scan} (hab : RunsFor p a b) (hbc : RunsFor p b c) :
    RunsFor p a c where
  next := Nat.le_trans hab.next hbc.next
  requests q hq := (hbc.requests q (Nat.lt_of_lt_of_le hq hab.next)).trans (hab.requests q hq)
  runners q hq := (hbc.runners q hq).trans (hab.runners q hq)
  runnerNext := hbc.runnerNext.trans hab.runnerNext
  selectiveAuditor := hbc.selectiveAuditor.trans hab.selectiveAuditor
  outstanding := hab.outstanding.trans hbc.outstanding
  calls := hab.calls.trans hbc.calls

theorem RunsFor.runnerAt {p q : Nat} {scan scan' : Scan} (h : RunsFor p scan scan') (hq : q ≠ p) :
    scan'.runnerAt q = scan.runnerAt q := by
  simp only [Scan.runnerAt, h.runners q hq]

theorem RunsFor.deref {p q : Nat} {scan scan' : Scan} (h : RunsFor p scan scan')
    (hq : q < scan.mem.next) : plusfish.deref scan'.mem q = plusfish.deref scan.mem q := by
  simp only [plusfish.deref, h.requests q hq]

theorem NoneRefusedInSerial.mono {scan scan' : Scan} (h : scan'.NoneRefusedInSerial)
    (hcalls : scan.calls <+: scan'.calls) : scan.NoneRefusedInSerial :=
  fun call hcall => h call (hcalls.subset hcall)

/-- What is done for one runner does not keep another one from waiting. -/
theorem Waits.of_runsFor {p q : Nat} {scan scan' : Scan} (h : scan.Waits q)
    (hruns : RunsFor p scan scan') (hq : q ≠ p) : scan'.Waits q := by
  have hrunner := hruns.runnerAt hq
  have hcount := hruns.outstanding.sublist.countP_le (p := (· ∈ (scan.runnerAt q).requests))
  refine ⟨?_, ?_, ?_, ?_, ?_⟩
  · rw [hruns.runnerNext]
    exact h.allocated
  · rw [hrunner]
    intro req hreq
    obtain ⟨hlt, hhandler⟩ := h.handlers req hreq
    exact ⟨Nat.lt_of_lt_of_le hlt hruns.next, by rw [hruns.deref hlt, hhandler]⟩
  · rw [hrunner]
    exact h.notFinished
  · rw [hrunner]
    exact h.unfinished
  · rw [hrunner]
    exact Nat.le_trans h.outstanding (by omega)

@[simp] theorem runnerAt_setRunner (scan : Scan) {p : Nat} (hp : p < scan.runnerMem.next)
    (runner : SecurityCheckRunner) : (scan.setRunner p runner).runnerAt p = runner := by
  obtain ⟨found, hfound⟩ := Heap.get?_of_lt_next hp
  simp [runnerAt, setRunner, Heap.get?_modify, hfound]

theorem setRunner_runsFor (scan : Scan) (p : Nat) (runner : SecurityCheckRunner) :
    RunsFor p scan (scan.setRunner p runner) where
  next := Nat.le_refl _
  requests _ _ := rfl
  runners q hq := by simp [setRunner, Heap.get?_modify, Ne.symm hq]
  runnerNext := Heap.next_modify _ _ _
  selectiveAuditor := rfl
  outstanding := List.prefix_refl _
  calls := List.prefix_refl _

section
variable (env : ScanEnv)

/-- Scheduling requests changes these requests, and what the HTTP client holds. -/
structure Schedules (reqs : List Nat) (scan scan' : Scan) : Prop where
  next : scan'.mem.next = scan.mem.next
  requests : ∀ q ∉ reqs, scan'.mem.get? q = scan.mem.get? q
  runnerMem : scan'.runnerMem = scan.runnerMem
  selectiveAuditor : scan'.selectiveAuditor = scan.selectiveAuditor
  outstanding : scan.outstanding <+: scan'.outstanding
  calls : scan.calls <+: scan'.calls

theorem scheduleWith_schedules (scan : Scan) (caller : ScheduleCaller) (req : Nat)
    (handler : RequestHandler) :
    Schedules [req] scan (scan.scheduleWith env caller req handler).2 where
  next := Heap.next_modify _ _ _
  requests q hq := by
    have hne : req ≠ q := fun heq => hq (by simp [heq])
    simp [scheduleWith, schedule, setRequestHandler, Heap.get?_modify, hne]
  runnerMem := rfl
  selectiveAuditor := rfl
  outstanding := by
    simp only [scheduleWith, schedule]
    split
    · exact List.prefix_append _ _
    · exact List.prefix_refl _
  calls := List.prefix_append _ _

theorem deref_scheduleWith {scan : Scan} {req : Nat} (hreq : req < scan.mem.next)
    (caller : ScheduleCaller) (handler : RequestHandler) :
    (deref (scan.scheduleWith env caller req handler).2.mem req).requestHandler = some handler := by
  obtain ⟨request, hget⟩ := Heap.get?_of_lt_next hreq
  simp [scheduleWith, schedule, setRequestHandler, deref, Heap.get?_modify, hget]

/-- Where the loop of `Run` goes on, the HTTP client has the request, unless a refusal did
    not count. -/
theorem scheduleWith_outstanding {scan : Scan} {p req : Nat} {serial : Bool}
    {handler : RequestHandler}
    (hclean : (scan.scheduleWith env (.securityCheckRunner p serial) req
      handler).2.NoneRefusedInSerial)
    (hdone : ¬ (!(scan.scheduleWith env (.securityCheckRunner p serial) req handler).1 &&
      !serial) = true) :
    (scan.scheduleWith env (.securityCheckRunner p serial) req handler).2.outstanding =
      scan.outstanding ++ [req] := by
  have hnotRefused := hclean _ (List.mem_append_right _ (List.mem_singleton.mpr rfl))
  simp only [scheduleWith, schedule, setRequestHandler, ScheduleCall.refusedInSerial]
    at hnotRefused hdone ⊢
  have haccepted : env.accepts scan.calls.length = true := by
    cases serial <;> simp_all
  simp [haccepted]

/-- The loop of `Run` schedules requests of the check. -/
theorem scheduleRequests_schedules (p : Nat) (check : SecurityCheck) (reqs : List Nat)
    (scan : Scan) : Schedules reqs scan (scheduleRequests env p check reqs scan).2 := by
  induction reqs generalizing scan with
  | nil => exact ⟨rfl, fun _ _ => rfl, rfl, rfl, List.prefix_refl _, List.prefix_refl _⟩
  | cons req reqs ih =>
    have hfirst := scheduleWith_schedules env scan
      (.securityCheckRunner p check.canEvaluateInSerial) req (.securityCheckRunner p)
    have hrest := ih (scan.scheduleWith env (.securityCheckRunner p check.canEvaluateInSerial) req
      (.securityCheckRunner p)).2
    simp only [scheduleRequests]
    split
    · refine ⟨hfirst.next, fun q hq => hfirst.requests q ?_, hfirst.runnerMem,
        hfirst.selectiveAuditor, hfirst.outstanding, hfirst.calls⟩
      intro hmem
      exact hq (List.mem_cons.mpr (Or.inl (List.mem_singleton.mp hmem)))
    · refine ⟨hrest.next.trans hfirst.next, fun q hq => ?_, hrest.runnerMem.trans hfirst.runnerMem,
        hrest.selectiveAuditor.trans hfirst.selectiveAuditor,
        hfirst.outstanding.trans hrest.outstanding, hfirst.calls.trans hrest.calls⟩
      obtain ⟨hne, hnot⟩ := not_or.mp (fun h => hq (List.mem_cons.mpr h))
      rw [hrest.requests q hnot, hfirst.requests q (by simpa using hne)]

/-- Where the loop of `Run` succeeds, it has scheduled all the requests of the check,
    unless a refusal did not count. -/
theorem scheduleRequests_of_accepted {p : Nat} {check : SecurityCheck} {reqs : List Nat}
    {scan : Scan} (hnodup : reqs.Nodup) (hreqs : ∀ req ∈ reqs, req < scan.mem.next)
    (hdone : (scheduleRequests env p check reqs scan).1 = true)
    (hclean : (scheduleRequests env p check reqs scan).2.NoneRefusedInSerial) :
    (scheduleRequests env p check reqs scan).2.outstanding = scan.outstanding ++ reqs ∧
      ∀ req ∈ reqs, (deref (scheduleRequests env p check reqs scan).2.mem req).requestHandler =
        some (.securityCheckRunner p) := by
  induction reqs generalizing scan with
  | nil => exact ⟨by simp [scheduleRequests], fun _ h => by cases h⟩
  | cons req reqs ih =>
    obtain ⟨hnot, hnodup⟩ := List.nodup_cons.mp hnodup
    have hhandler := deref_scheduleWith env (hreqs req List.mem_cons_self)
      (.securityCheckRunner p check.canEvaluateInSerial) (.securityCheckRunner p)
    have hfirst := scheduleWith_schedules env scan
      (.securityCheckRunner p check.canEvaluateInSerial) req (.securityCheckRunner p)
    have hrest := scheduleRequests_schedules env p check reqs
      (scan.scheduleWith env (.securityCheckRunner p check.canEvaluateInSerial) req
        (.securityCheckRunner p)).2
    simp only [scheduleRequests] at hdone hclean ⊢
    split at hdone
    · cases hdone
    · rename_i hnext
      rw [if_neg hnext] at hclean ⊢
      have hadded := scheduleWith_outstanding env (hclean.mono hrest.calls) hnext
      obtain ⟨hout, hhandlers⟩ := ih hnodup
        (fun q hq => by rw [hfirst.next]; exact hreqs q (List.mem_cons_of_mem _ hq)) hdone hclean
      refine ⟨by simp [hout, hadded], fun q hq => ?_⟩
      rcases List.mem_cons.mp hq with rfl | hq
      · rw [deref, hrest.requests q hnot]
        exact hhandler
      · exact hhandlers q hq

/-- A runner about to run its check for the first time, with what comes after it. -/
structure Fresh (scan : Scan) (p : Nat) (nextChecks : List SecurityCheck) : Prop where
  allocated : p < scan.runnerMem.next
  nextChecks : (scan.runnerAt p).nextChecks = nextChecks
  requests : (scan.runnerAt p).requests = []
  notFinished : (scan.runnerAt p).finished = false
  requestsCompleted : (scan.runnerAt p).requestsCompleted = 0

/-- Scheduling new requests is something done for one runner. -/
theorem RunsFor.schedules {p : Nat} {reqs : List Nat} {a b c : Scan} (hab : RunsFor p a b)
    (hbc : Schedules reqs b c) (hreqs : ∀ req ∈ reqs, a.mem.next ≤ req) : RunsFor p a c where
  next := by
    rw [hbc.next]
    exact hab.next
  requests q hq := by
    have hnot : q ∉ reqs := fun hmem => absurd (hreqs q hmem) (by omega)
    rw [hbc.requests q hnot, hab.requests q hq]
  runners q hq := by rw [hbc.runnerMem, hab.runners q hq]
  runnerNext := by rw [hbc.runnerMem, hab.runnerNext]
  selectiveAuditor := hbc.selectiveAuditor.trans hab.selectiveAuditor
  outstanding := hab.outstanding.trans hbc.outstanding
  calls := hab.calls.trans hbc.calls

/-- The requests that the check of a runner makes. -/
def newRequests (scan : Scan) (p : Nat) : Bool × List Request :=
  (scan.runnerAt p).securityCheck.createRequests env.request
    (deref scan.mem (scan.runnerAt p).testedRequest)

theorem createRequests_runsFor (scan : Scan) (p : Nat) :
    RunsFor p scan (scan.createRequests env p).2 where
  next := by simp [createRequests, setRunner]
  requests q hq := Heap.get?_allocAll_of_lt _ hq
  runners q hq := (setRunner_runsFor _ p _).runners q hq
  runnerNext := Heap.next_modify _ _ _
  selectiveAuditor := rfl
  outstanding := List.prefix_refl _
  calls := List.prefix_refl _

theorem createRequests_runnerAt {scan : Scan} {p : Nat} (hp : p < scan.runnerMem.next) :
    (scan.createRequests env p).2.runnerAt p =
      { scan.runnerAt p with
        requests := (scan.runnerAt p).requests ++
          (scan.mem.allocAll (scan.newRequests env p).2).1 } :=
  runnerAt_setRunner { scan with mem := (scan.mem.allocAll _).2 } hp _

/-- `Run` makes the requests of the check and then schedules them, or does nothing more. -/
theorem run_cases (scan : Scan) (p : Nat) :
    (scan.run env p = (false, (scan.createRequests env p).2)) ∨
    ((scan.newRequests env p).1 = true ∧
      scan.run env p = scheduleRequests env p
        ((scan.createRequests env p).2.runnerAt p).securityCheck
        ((scan.createRequests env p).2.runnerAt p).requests (scan.createRequests env p).2) := by
  have hcreated : (scan.createRequests env p).1 = (scan.newRequests env p).1 := rfl
  unfold run
  simp only [hcreated]
  split_ifs with hnone hpositive
  · exact Or.inl rfl
  · exact Or.inl rfl
  · exact Or.inr ⟨by simpa using hnone, rfl⟩

/-- `Run` on behalf of a fresh runner changes nothing else, and where it succeeds the
    runner waits for the requests of its check. -/
theorem Fresh.run {scan : Scan} {p : Nat} {nextChecks : List SecurityCheck}
    (h : scan.Fresh p nextChecks) :
    RunsFor p scan (scan.run env p).2 ∧
      (∃ requests, (scan.run env p).2.runnerAt p = { scan.runnerAt p with requests }) ∧
      ((scan.runnerAt p).securityCheck.measures = true → (scan.run env p).1 = true →
        (scan.run env p).2.NoneRefusedInSerial → (scan.run env p).2.Waits p) := by
  have hruns := createRequests_runsFor env scan p
  have hrunner := createRequests_runnerAt env h.allocated
  rw [h.requests, List.nil_append] at hrunner
  rcases run_cases env scan p with heq | ⟨hcreated, heq⟩
  · rw [heq]
    exact ⟨hruns, ⟨_, hrunner⟩, fun _ hdone => by cases hdone⟩
  · have hnew : ∀ req ∈ (scan.mem.allocAll (scan.newRequests env p).2).1,
        scan.mem.next ≤ req ∧ req < (scan.createRequests env p).2.mem.next := by
      intro req hreq
      obtain ⟨hle, hlt⟩ := Heap.mem_allocAll_fst.mp hreq
      exact ⟨hle, by simpa [createRequests, setRunner, newRequests] using hlt⟩
    rw [hrunner] at heq
    have hschedules := scheduleRequests_schedules env p (scan.runnerAt p).securityCheck
      (scan.mem.allocAll (scan.newRequests env p).2).1 (scan.createRequests env p).2
    have hsame : (scan.run env p).2.runnerAt p = (scan.createRequests env p).2.runnerAt p := by
      rw [heq, runnerAt, hschedules.runnerMem, runnerAt]
    rw [hrunner] at hsame
    have hall := hruns.schedules hschedules fun req hreq => (hnew req hreq).1
    refine ⟨by rw [heq]; exact hall, ⟨_, hsame⟩, fun hmeasures hdone hclean => ?_⟩
    have hnodup : (scan.mem.allocAll (scan.newRequests env p).2).1.Nodup := List.nodup_range'
    rw [heq] at hdone hclean
    obtain ⟨hout, hhandlers⟩ := scheduleRequests_of_accepted env hnodup
      (fun req hreq => (hnew req hreq).2) hdone hclean
    have hpos : 0 < (scan.newRequests env p).2.length :=
      List.length_pos_of_ne_nil (SecurityCheck.createRequests_ne_nil hmeasures hcreated)
    refine ⟨?_, ?_, ?_, ?_, ?_⟩
    · rw [heq, hall.runnerNext]
      exact h.allocated
    · rw [hsame, heq]
      exact fun req hreq => ⟨by rw [hschedules.next]; exact (hnew req hreq).2, hhandlers req hreq⟩
    · rw [hsame]
      exact h.notFinished
    · rw [hsame]
      simp only [h.requestsCompleted, Heap.allocAll, List.length_range']
      exact hpos
    · rw [hsame, heq, hout, List.countP_append]
      have hcount : List.countP (· ∈ (scan.mem.allocAll (scan.newRequests env p).2).1)
          (scan.mem.allocAll (scan.newRequests env p).2).1 =
          (scan.mem.allocAll (scan.newRequests env p).2).1.length := by
        apply List.countP_eq_length.mpr
        simp
      simp only [hcount]
      omega

theorem Fresh.of_setNextCheck (scan : Scan) {p : Nat} {runner : SecurityCheckRunner}
    (hp : p < scan.runnerMem.next) (hnext : (scan.runnerAt p).setNextCheck = some runner) :
    (scan.setRunner p runner).Fresh p runner.nextChecks ∧
      (scan.runnerAt p).nextChecks = runner.securityCheck :: runner.nextChecks := by
  unfold SecurityCheckRunner.setNextCheck at hnext
  cases hlist : (scan.runnerAt p).nextChecks with
  | nil =>
    rw [hlist] at hnext
    cases hnext
  | cons check checks =>
    rw [hlist] at hnext
    cases hnext
    refine ⟨⟨?_, ?_, ?_, ?_, ?_⟩, rfl⟩
    · rw [(setRunner_runsFor scan p _).runnerNext]
      exact hp
    all_goals rw [runnerAt_setRunner _ hp]

/-- A runner that has run its check for nothing comes to the next one. -/
theorem Fresh.moveOn {scan after : Scan} {p : Nat} {check : SecurityCheck}
    {checks : List SecurityCheck} {requests : List Nat} (h : scan.Fresh p (check :: checks))
    (hruns : RunsFor p scan after)
    (hrunner : after.runnerAt p = { scan.runnerAt p with requests }) :
    ∃ runner, (after.runnerAt p).setNextCheck = some runner ∧ runner.securityCheck = check ∧
      runner.testedRequest = (scan.runnerAt p).testedRequest ∧
      (after.setRunner p runner).runnerAt p = runner ∧
      (after.setRunner p runner).Fresh p checks := by
  have hallocated : p < after.runnerMem.next := by
    rw [hruns.runnerNext]
    exact h.allocated
  have hnext : (after.runnerAt p).setNextCheck = some { scan.runnerAt p with
      securityCheck := check
      nextChecks := checks
      requests := []
      finished := false
      requestsCompleted := 0 } := by
    rw [hrunner]
    simp [SecurityCheckRunner.setNextCheck, h.nextChecks]
  exact ⟨_, hnext, rfl, rfl, runnerAt_setRunner after hallocated _,
    (Fresh.of_setNextCheck after hallocated hnext).1⟩

/-- `ScheduleNextCheck` on behalf of a fresh runner changes nothing else, and where it
    succeeds the runner waits for the requests of the check it came to. -/
theorem Fresh.scheduleChecks {scan : Scan} {p : Nat} {nextChecks : List SecurityCheck}
    (h : scan.Fresh p nextChecks) :
    RunsFor p scan (scheduleChecks env p nextChecks scan).2 ∧
      ((scheduleChecks env p nextChecks scan).2.runnerAt p).nextChecks <:+ nextChecks ∧
      ((∀ check ∈ (scan.runnerAt p).securityCheck :: nextChecks, check.measures = true) →
        (scheduleChecks env p nextChecks scan).1 = true →
        (scheduleChecks env p nextChecks scan).2.NoneRefusedInSerial →
        (scheduleChecks env p nextChecks scan).2.Waits p) := by
  induction nextChecks generalizing scan with
  | nil =>
    obtain ⟨hruns, ⟨requests, hrunner⟩, hwaits⟩ := h.run env
    have hlist : ((scan.run env p).2.runnerAt p).nextChecks <:+ [] := by
      rw [hrunner]
      exact h.nextChecks ▸ List.suffix_refl _
    rw [Scan.scheduleChecks]
    generalize scan.run env p = result at hruns hwaits hlist
    obtain ⟨done, after⟩ := result
    cases done with
    | true => exact ⟨hruns, hlist, fun hchecks => hwaits (hchecks _ List.mem_cons_self)⟩
    | false => exact ⟨hruns, hlist, (fun _ hdone => by cases hdone)⟩
  | cons check checks ih =>
    obtain ⟨hruns, ⟨requests, hrunner⟩, hwaits⟩ := h.run env
    have hlist : ((scan.run env p).2.runnerAt p).nextChecks = check :: checks := by
      rw [hrunner]
      exact h.nextChecks
    obtain ⟨runner, hnext, hcheck, _, hset, hfresh⟩ := h.moveOn hruns hrunner
    rw [Scan.scheduleChecks]
    generalize scan.run env p = result at hruns hwaits hlist hnext hset hfresh
    obtain ⟨done, after⟩ := result
    cases done with
    | true =>
      exact ⟨hruns, hlist ▸ List.suffix_refl _,
        fun hchecks => hwaits (hchecks _ List.mem_cons_self)⟩
    | false =>
      obtain ⟨hlater, hsuffix, hready⟩ := ih hfresh
      rw [hset, hcheck] at hready
      dsimp only at hnext ⊢
      rw [hnext]
      exact ⟨hruns.trans ((setRunner_runsFor after p runner).trans hlater),
        hsuffix.trans (List.suffix_cons _ _),
        fun hchecks => hready fun next hmem => hchecks next (List.mem_cons_of_mem _ hmem)⟩

theorem Fresh.scheduleNextCheck {scan : Scan} {p : Nat} {nextChecks : List SecurityCheck}
    (h : scan.Fresh p nextChecks) :
    RunsFor p scan (scan.scheduleNextCheck env p).2 ∧
      ((scan.scheduleNextCheck env p).2.runnerAt p).nextChecks <:+ nextChecks ∧
      ((∀ check ∈ (scan.runnerAt p).securityCheck :: nextChecks, check.measures = true) →
        (scan.scheduleNextCheck env p).1 = true →
        (scan.scheduleNextCheck env p).2.NoneRefusedInSerial →
        (scan.scheduleNextCheck env p).2.Waits p) := by
  unfold Scan.scheduleNextCheck
  rw [h.nextChecks]
  exact h.scheduleChecks env

theorem allocRunner_runnerAt_next (scan : Scan) (req : Nat) (check : SecurityCheck)
    (checks : List SecurityCheck) :
    (scan.allocRunner req check checks).runnerAt scan.runnerMem.next =
      { testedRequest := req
        securityCheck := check
        nextChecks := checks
        issueCallback := scan.selectiveAuditor.issueCallback } := by
  simp [allocRunner, runnerAt]

theorem allocRunner_fresh (scan : Scan) (check : SecurityCheck) (checks : List SecurityCheck)
    (req : Nat) : (scan.allocRunner req check checks).Fresh scan.runnerMem.next checks := by
  have hrunner := allocRunner_runnerAt_next scan req check checks
  refine ⟨by simp [allocRunner], ?_, ?_, ?_, ?_⟩
  all_goals rw [hrunner]

/-- The loop of `Run` calls `Schedule` where the check has a request. -/
theorem scheduleRequests_calls (p : Nat) (check : SecurityCheck) (req : Nat) (reqs : List Nat)
    (scan : Scan) :
    scan.calls.length < (scheduleRequests env p check (req :: reqs) scan).2.calls.length := by
  have hfirst : scan.calls.length < (scan.scheduleWith env
      (.securityCheckRunner p check.canEvaluateInSerial) req
      (.securityCheckRunner p)).2.calls.length := by
    simp [scheduleWith, schedule, setRequestHandler]
  simp only [scheduleRequests]
  split
  · exact hfirst
  · exact Nat.lt_of_lt_of_le hfirst
      (scheduleRequests_schedules env p check reqs _).calls.length_le

/-- The requests that `Run` schedules for the current check of a runner. -/
def currentTests (scan : Scan) (p : Nat) : Option (List Request) :=
  (scan.runnerAt p).securityCheck.tests env.request scan.store.getRequestMetadata
    (deref scan.mem (scan.runnerAt p).testedRequest)

theorem Fresh.run_eq {scan : Scan} {p : Nat} {nextChecks : List SecurityCheck}
    (h : scan.Fresh p nextChecks) (hreq : (scan.runnerAt p).testedRequest < scan.mem.next) :
    (scan.currentTests env p = none ∧ scan.run env p = (false, (scan.createRequests env p).2)) ∨
    ∃ requests, scan.currentTests env p = some requests ∧
      scan.run env p = scheduleRequests env p (scan.runnerAt p).securityCheck
        (scan.mem.allocAll requests).1 (scan.createRequests env p).2 := by
  have hcreated : (scan.createRequests env p).1 = (scan.newRequests env p).1 := rfl
  have hrunner := createRequests_runnerAt env h.allocated
  rw [h.requests, List.nil_append] at hrunner
  have hderef := (createRequests_runsFor env scan p).deref hreq
  have hstore : (scan.createRequests env p).2.store = scan.store := rfl
  have htests : scan.currentTests env p =
      if !(scan.newRequests env p).1 || ((scan.runnerAt p).securityCheck.canEvaluateInSerial &&
        (scan.runnerAt p).securityCheck.evaluateSingle scan.store.getRequestMetadata
          (deref scan.mem (scan.runnerAt p).testedRequest)) then none
      else some (scan.newRequests env p).2 := rfl
  rw [htests]
  simp only [Scan.run, hcreated, hrunner, hderef, hstore]
  by_cases hnone : (scan.newRequests env p).1 = true
  · simp only [hnone, Bool.not_true, Bool.false_or, Bool.false_eq_true, if_false]
    split
    · exact Or.inl ⟨rfl, rfl⟩
    · exact Or.inr ⟨_, rfl, rfl⟩
  · simp [hnone]

/-- The requests that are scheduled first for a tested request: those of the first check
    that is not skipped. -/
def firstTests (checks : List SecurityCheck) (scan : Scan) (req : Nat) : List Request :=
  (checks.findSome?
    (·.tests env.request scan.store.getRequestMetadata (deref scan.mem req))).getD []

theorem run_calls_length_le (p : Nat) (nextChecks : List SecurityCheck) (scan : Scan) :
    (scan.run env p).2.calls.length ≤
      (Scan.scheduleChecks env p nextChecks scan).2.calls.length := by
  rw [Scan.scheduleChecks.eq_def]
  dsimp only
  split
  · exact Nat.le_refl _
  · cases nextChecks with
    | nil => exact Nat.le_refl _
    | cons check checks =>
      dsimp only
      split
      · exact Nat.le_refl _
      · rename_i runner _
        have hlater : Schedulings env isRunner ((scan.run env p).2.setRunner p runner) _ :=
          scheduleChecks_schedulings p checks _
        obtain ⟨made, hhands, _⟩ := (Schedulings.effects hlater).hands
        rw [hhands.calls, List.length_append]
        exact Nat.le_add_right _ _

/-- Where the current check is not skipped, its requests alone decide. -/
theorem Fresh.scheduleChecks_of_tests {scan : Scan} {p : Nat} {nextChecks : List SecurityCheck}
    (h : scan.Fresh p nextChecks) (hreq : (scan.runnerAt p).testedRequest < scan.mem.next)
    {requests : List Request} (hsome : scan.currentTests env p = some requests) :
    scan.calls.length < (Scan.scheduleChecks env p nextChecks scan).2.calls.length ↔
      requests ≠ [] := by
  obtain ⟨hnone, _⟩ | ⟨found, hfound, hrun⟩ := h.run_eq env hreq
  · rw [hsome] at hnone
    cases hnone
  · obtain rfl : requests = found := Option.some.inj (hsome.symm.trans hfound)
    cases requests with
    | nil =>
      have hdone : scan.run env p = (true, (scan.createRequests env p).2) := hrun
      rw [Scan.scheduleChecks.eq_def, hdone]
      exact iff_of_false (Nat.lt_irrefl _) (fun hne => hne rfl)
    | cons request requests =>
      have hcalls : scan.calls.length < (scan.run env p).2.calls.length := by
        rw [hrun]
        exact scheduleRequests_calls env p _ scan.mem.next _ (scan.createRequests env p).2
      exact iff_of_true
        (Nat.lt_of_lt_of_le hcalls (run_calls_length_le env p nextChecks scan))
        (List.cons_ne_nil _ _)

theorem firstTests_cons (scan : Scan) (check : SecurityCheck) (checks : List SecurityCheck)
    (req : Nat) : firstTests env (check :: checks) scan req =
      match check.tests env.request scan.store.getRequestMetadata (deref scan.mem req) with
      | none => firstTests env checks scan req
      | some requests => requests := by
  unfold firstTests
  rw [List.findSome?_cons]
  cases check.tests env.request scan.store.getRequestMetadata (deref scan.mem req) <;> rfl

/-- Running the checks calls `Schedule` exactly where the first check that is not skipped
    makes a request. -/
theorem Fresh.scheduleChecks_calls {scan : Scan} {p : Nat} {nextChecks : List SecurityCheck}
    (h : scan.Fresh p nextChecks) (hreq : (scan.runnerAt p).testedRequest < scan.mem.next) :
    scan.calls.length < (Scan.scheduleChecks env p nextChecks scan).2.calls.length ↔
      firstTests env ((scan.runnerAt p).securityCheck :: nextChecks) scan
        (scan.runnerAt p).testedRequest ≠ [] := by
  rw [firstTests_cons]
  change _ ↔ (match scan.currentTests env p with
    | none => firstTests env nextChecks scan (scan.runnerAt p).testedRequest
    | some requests => requests) ≠ []
  induction nextChecks generalizing scan with
  | nil =>
    obtain ⟨hnone, hrun⟩ | ⟨requests, hsome, _⟩ := h.run_eq env hreq
    · rw [hnone, Scan.scheduleChecks, hrun]
      exact iff_of_false (Nat.lt_irrefl _) (fun hne => hne rfl)
    · rw [hsome]
      exact h.scheduleChecks_of_tests env hreq hsome
  | cons check checks ih =>
    obtain ⟨hnone, hrun⟩ | ⟨requests, hsome, _⟩ := h.run_eq env hreq
    · have hruns := createRequests_runsFor env scan p
      have hcalls : (scan.createRequests env p).2.calls = scan.calls := rfl
      have hstore : (scan.createRequests env p).2.store = scan.store := rfl
      obtain ⟨runner, hnext, hcheck, htested, hset, hfresh⟩ :=
        h.moveOn hruns (createRequests_runnerAt env h.allocated)
      rw [hnone, Scan.scheduleChecks, hrun]
      generalize (scan.createRequests env p).2 = after at hruns hcalls hstore hnext hset hfresh ⊢
      have hderef := hruns.deref hreq
      have hlater := ih hfresh (by
        rw [hset, htested]
        exact Nat.lt_of_lt_of_le hreq hruns.next)
      have hmem : (after.setRunner p runner).mem = after.mem := rfl
      have hstore' : (after.setRunner p runner).store = scan.store := hstore
      have hcalls' : (after.setRunner p runner).calls = scan.calls := hcalls
      simp only [currentTests, firstTests, hset, hcheck, htested, hmem, hstore', hcalls',
        hderef] at hlater
      dsimp only
      rw [hnext, firstTests_cons]
      exact hlater
    · rw [hsome]
      exact h.scheduleChecks_of_tests env hreq hsome

/-- Giving a request to the auditor calls `Schedule` exactly where one of its checks that is
    not skipped comes to make a request. -/
theorem scheduleFirst_calls {scan : Scan} {req : Nat} (hreq : req < scan.mem.next) :
    scan.calls.length < (scan.scheduleFirst env req).2.calls.length ↔
      firstTests env scan.selectiveAuditor.checks scan req ≠ [] := by
  cases hlist : scan.selectiveAuditor.checks with
  | nil =>
    unfold scheduleFirst
    simp [hlist, firstTests]
  | cons check checks =>
    have hrunner := allocRunner_runnerAt_next scan req check checks
    have hfresh := allocRunner_fresh scan check checks req
    have hcalls := hfresh.scheduleChecks_calls env (by rw [hrunner]; exact hreq)
    rw [hrunner] at hcalls
    have hnext : (scan.allocRunner req check checks).scheduleNextCheck env scan.runnerMem.next =
        Scan.scheduleChecks env scan.runnerMem.next checks (scan.allocRunner req check checks) := by
      rw [Scan.scheduleNextCheck, hfresh.nextChecks]
    rw [scheduleFirst_eq env hlist, hnext]
    split
    · exact hcalls
    · exact hcalls

end

end Scan

end plusfish

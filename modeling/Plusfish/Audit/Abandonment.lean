import Plusfish.Audit.Pending

open memory

namespace plusfish

namespace Scan

section
variable (env : ScanEnv)

/-- `Run` gives a check up when the HTTP client has accepted a request of it: the check has
    made requests and is not evaluated in serial, and the first of them is accepted, but not
    all of them. -/
def Abandons (scan : Scan) (p : Nat) : Prop :=
  (scan.newRequests env p).1 = true ∧ (scan.runnerAt p).securityCheck.canEvaluateInSerial = false ∧
    env.accepts scan.calls.length = true ∧
    ∃ i < (scan.newRequests env p).2.length, env.accepts (scan.calls.length + i) = false

instance (scan : Scan) (p : Nat) : Decidable (scan.Abandons env p) :=
  inferInstanceAs (Decidable (_ ∧ _ ∧ _ ∧ ∃ i < (scan.newRequests env p).2.length, _))

/-- If `Run` returns false, no request of its check remains scheduled with the runner as
    handler. -/
def LeavesNothing (scan : Scan) (p : Nat) : Prop :=
  (scan.run env p).1 = false →
    ∀ req ∈ ((scan.run env p).2.runnerAt p).requests, req ∉ (scan.run env p).2.pending p

instance (scan : Scan) (p : Nat) : Decidable (scan.LeavesNothing env p) :=
  inferInstanceAs (Decidable (_ → ∀ req ∈ ((scan.run env p).2.runnerAt p).requests, _))

variable {env}

theorem scheduleRequests_of_serial {check : SecurityCheck}
    (hserial : check.canEvaluateInSerial = true) (p : Nat) (reqs : List Nat) (scan : Scan) :
    (scheduleRequests env p check reqs scan).1 = true := by
  induction reqs generalizing scan with
  | nil => rfl
  | cons req reqs ih =>
    simp only [scheduleRequests, hserial, Bool.not_true, Bool.and_false, Bool.false_eq_true,
      if_false]
    exact ih _

theorem scheduleRequests_cons (p : Nat) (check : SecurityCheck) (req : Nat) (reqs : List Nat)
    (scan : Scan) :
    let first := (scan.scheduleWith env (.securityCheckRunner p check.canEvaluateInSerial) req
      (.securityCheckRunner p)).2
    scheduleRequests env p check (req :: reqs) scan =
      if !env.accepts scan.calls.length && !check.canEvaluateInSerial then (false, first)
      else scheduleRequests env p check reqs first := rfl

/-- For a check that is evaluated in batch, the loop of `Run` succeeds where all the requests
    are accepted. -/
theorem scheduleRequests_of_batch {check : SecurityCheck}
    (hbatch : check.canEvaluateInSerial = false) (p : Nat) (reqs : List Nat) (scan : Scan) :
    (scheduleRequests env p check reqs scan).1 = true ↔
      ∀ i < reqs.length, env.accepts (scan.calls.length + i) = true := by
  induction reqs generalizing scan with
  | nil => exact iff_of_true rfl fun _ hi => by cases hi
  | cons req reqs ih =>
    let first := (scan.scheduleWith env (.securityCheckRunner p check.canEvaluateInSerial) req
      (.securityCheckRunner p)).2
    have hcalls : first.calls.length = scan.calls.length + 1 := by
      simp [first, scheduleWith, schedule, setRequestHandler]
    rw [scheduleRequests_cons, List.length_cons]
    cases haccepts : env.accepts scan.calls.length with
    | false =>
      refine iff_of_false (by simp [hbatch]) fun hall => ?_
      have hfirst := hall 0 (Nat.succ_pos _)
      rw [Nat.add_zero, haccepts] at hfirst
      cases hfirst
    | true =>
      rw [Bool.not_true, Bool.false_and, if_neg Bool.false_ne_true, ih, hcalls]
      constructor
      · intro hrest i hi
        cases i with
        | zero => exact haccepts
        | succ i =>
          rw [Nat.add_comm i 1, ← Nat.add_assoc]
          exact hrest i (Nat.lt_of_succ_lt_succ hi)
      · intro hall i hi
        rw [Nat.add_assoc, Nat.add_comm 1 i]
        exact hall (i + 1) (Nat.succ_lt_succ hi)

/-- Where the first request is refused, the loop of `Run` for a batch hands none over. -/
theorem scheduleRequests_of_refused {check : SecurityCheck}
    (hbatch : check.canEvaluateInSerial = false) (p : Nat) (reqs : List Nat) {scan : Scan}
    (hrefused : env.accepts scan.calls.length = false) :
    (scheduleRequests env p check reqs scan).2.outstanding = scan.outstanding := by
  cases reqs with
  | nil => rfl
  | cons req reqs =>
    rw [scheduleRequests_cons, hrefused, hbatch, Bool.not_false, Bool.and_self, if_pos rfl,
      outstanding_scheduleWith, hrefused, if_neg Bool.false_ne_true, List.append_nil]

/-- Where the first request is accepted, it is outstanding after the loop of `Run`. -/
theorem mem_scheduleRequests_outstanding (p : Nat) (check : SecurityCheck) (req : Nat)
    (reqs : List Nat) {scan : Scan} (haccepts : env.accepts scan.calls.length = true) :
    req ∈ (scheduleRequests env p check (req :: reqs) scan).2.outstanding := by
  let first := (scan.scheduleWith env (.securityCheckRunner p check.canEvaluateInSerial) req
    (.securityCheckRunner p)).2
  have hfirst : req ∈ first.outstanding := by
    rw [outstanding_scheduleWith, haccepts, if_pos rfl]
    exact List.mem_append_right _ (List.mem_singleton_self req)
  rw [scheduleRequests_cons, haccepts, Bool.not_true, Bool.false_and, if_neg Bool.false_ne_true]
  exact (scheduleRequests_schedules env p check reqs first).outstanding.subset hfirst

/-- `Run` of a check that is evaluated in batch and has made requests. -/
theorem Fresh.run_of_batch {scan : Scan} {p : Nat} {nextChecks : List SecurityCheck}
    (h : scan.Fresh p nextChecks) (hcreated : (scan.newRequests env p).1 = true)
    (hbatch : (scan.runnerAt p).securityCheck.canEvaluateInSerial = false) :
    scan.run env p = scheduleRequests env p (scan.runnerAt p).securityCheck
      (scan.newAddresses env p) (scan.createRequests env p).2 := by
  have hcreated' : (scan.createRequests env p).1 = true := hcreated
  have hrunner := createRequests_runnerAt env h.allocated
  rw [h.requests, List.nil_append] at hrunner
  unfold Scan.run
  simp only [hcreated', hrunner, hbatch, Bool.not_true, Bool.false_and, Bool.false_eq_true,
    if_false]
  rfl

/-- The requests of the check that are outstanding after `Run` are so for its runner. -/
theorem Fresh.mem_run_pending {scan : Scan} {p req : Nat} {nextChecks : List SecurityCheck}
    (h : scan.Fresh p nextChecks) (hallocated : scan.Allocated) :
    req ∈ ((scan.run env p).2.runnerAt p).requests ∧ req ∈ (scan.run env p).2.pending p ↔
      req ∈ scan.newAddresses env p ∧ req ∈ (scan.run env p).2.outstanding := by
  have hrun : scan.run env p = ((scan.run env p).1, (scan.run env p).2) := rfl
  obtain ⟨handed, _, hout, hhandlers⟩ := h.run_hands hrun
  rw [(h.run_outcome env hrun).runner]
  refine and_congr_right fun hreq => ⟨fun hmem => (mem_pending.mp hmem).1,
    fun hmem => mem_pending.mpr ⟨hmem, ?_⟩⟩
  rw [hout] at hmem
  rcases List.mem_append.mp hmem with hmem | hmem
  · exact absurd (hallocated req hmem) (Nat.not_lt.mpr ((mem_newAddresses env).mp hreq).1)
  · exact hhandlers req hmem

/-- Where `Run` hands nothing over, it leaves nothing behind. -/
theorem Fresh.leavesNothing_of_outstanding {scan : Scan} {p : Nat}
    {nextChecks : List SecurityCheck} (h : scan.Fresh p nextChecks) (hallocated : scan.Allocated)
    (hout : (scan.run env p).2.outstanding = scan.outstanding) : scan.LeavesNothing env p := by
  intro _ req hreq hpending
  obtain ⟨hnew, hmem⟩ := (h.mem_run_pending hallocated).mp ⟨hreq, hpending⟩
  rw [hout] at hmem
  exact absurd (hallocated req hmem) (Nat.not_lt.mpr ((mem_newAddresses env).mp hnew).1)

theorem Fresh.leavesNothing_iff_of_batch {scan : Scan} {p : Nat} {nextChecks : List SecurityCheck}
    (h : scan.Fresh p nextChecks) (hallocated : scan.Allocated)
    (hcreated : (scan.newRequests env p).1 = true)
    (hbatch : (scan.runnerAt p).securityCheck.canEvaluateInSerial = false) :
    scan.LeavesNothing env p ↔ ¬ scan.Abandons env p := by
  have hrun := h.run_of_batch hcreated hbatch
  have hlength : (scan.newAddresses env p).length = (scan.newRequests env p).2.length := by
    simp [newAddresses, Heap.allocAll]
  have hdone : (scan.run env p).1 = true ↔
      ∀ i < (scan.newRequests env p).2.length, env.accepts (scan.calls.length + i) = true := by
    rw [hrun, scheduleRequests_of_batch hbatch, hlength]
    rfl
  constructor
  · rintro hleaves ⟨_, _, haccepts, i, hi, hrefused⟩
    have hfailed : (scan.run env p).1 = false := by
      rw [← Bool.not_eq_true, hdone]
      intro hall
      rw [hall i hi] at hrefused
      cases hrefused
    -- The first request was accepted.
    cases hreqs : scan.newAddresses env p with
    | nil =>
      rw [hreqs, List.length_nil] at hlength
      omega
    | cons req reqs =>
      have hout : req ∈ (scan.run env p).2.outstanding := by
        rw [hrun, hreqs]
        exact mem_scheduleRequests_outstanding p _ req reqs haccepts
      obtain ⟨hreq, hpending⟩ :=
        (h.mem_run_pending hallocated).mpr ⟨hreqs ▸ List.mem_cons_self, hout⟩
      exact hleaves hfailed req hreq hpending
  · intro hnot hfailed
    have hsome : ∃ i < (scan.newRequests env p).2.length,
        env.accepts (scan.calls.length + i) = false := by
      by_contra hnone
      have hall : (scan.run env p).1 = true := hdone.mpr fun i hi => by
        by_contra hrefused
        exact hnone ⟨i, hi, by simpa using hrefused⟩
      rw [hfailed] at hall
      cases hall
    have hrefused : env.accepts (scan.createRequests env p).2.calls.length = false := by
      by_contra haccepts
      exact hnot ⟨hcreated, hbatch, (Bool.not_eq_false _).mp haccepts, hsome⟩
    refine h.leavesNothing_of_outstanding hallocated ?_ hfailed
    rw [hrun, scheduleRequests_of_refused hbatch p _ hrefused]
    rfl

/-- A failed `Run` leaves nothing behind exactly if it does not abandon accepted requests. -/
theorem Fresh.leavesNothing_iff {scan : Scan} {p : Nat} {nextChecks : List SecurityCheck}
    (h : scan.Fresh p nextChecks) (hallocated : scan.Allocated) :
    scan.LeavesNothing env p ↔ ¬ scan.Abandons env p := by
  by_cases hbatch : (scan.newRequests env p).1 = true ∧
      (scan.runnerAt p).securityCheck.canEvaluateInSerial = false
  · exact h.leavesNothing_iff_of_batch hallocated hbatch.1 hbatch.2
  · refine iff_of_true (fun hfailed => ?_)
      fun habandons => hbatch ⟨habandons.1, habandons.2.1⟩
    rcases run_cases env scan p with heq | ⟨hcreated, heq⟩
    · exact h.leavesNothing_of_outstanding hallocated (by rw [heq]; rfl) hfailed
    · have hserial : (scan.runnerAt p).securityCheck.canEvaluateInSerial = true := by
        by_contra hserial
        exact hbatch ⟨hcreated, by simpa using hserial⟩
      rw [heq, createRequests_runnerAt env h.allocated, scheduleRequests_of_serial hserial]
        at hfailed
      cases hfailed

end

end Scan

end plusfish

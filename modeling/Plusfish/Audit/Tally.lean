import Plusfish.Audit.Events

namespace plusfish

namespace SelectiveAuditor

theorem foldl_addSecurityCheck (self : SelectiveAuditor) (checks : List SecurityCheck) :
    (checks.foldl addSecurityCheck self).checks = self.checks ++ checks := by
  induction checks generalizing self with
  | nil => simp
  | cons check checks ih => simp [ih, addSecurityCheck]

end SelectiveAuditor

namespace AuditEvent

/-- The runner that an event is about. -/
def runner : AuditEvent → Nat
  | ran p _ _ _ _ | calledBack p _ | evaluated p _ _ _ | measured p _ _ | reported p _ _ _ _
  | stored p | erased p => p

def checkRun (p : Nat) : AuditEvent → List SecurityCheck
  | ran q check _ _ _ => if q = p then [check] else []
  | _ => []

def scheduledFor (p : Nat) : AuditEvent → List Nat
  | ran q _ _ requests true => if q = p then requests else []
  | _ => []

def calledFor (p : Nat) : AuditEvent → List Nat
  | calledBack q req => if q = p then [req] else []
  | _ => []

def isStored (p : Nat) : AuditEvent → Bool
  | stored q => q = p
  | _ => false

def isErased (p : Nat) : AuditEvent → Bool
  | erased q => q = p
  | _ => false

end AuditEvent

/-- The checks that were run for a runner, in order. -/
def checksRun (p : Nat) (events : List AuditEvent) : List SecurityCheck :=
  events.flatMap (·.checkRun p)

/-- The requests that were scheduled for a runner. -/
def awaited (p : Nat) (events : List AuditEvent) : List Nat := events.flatMap (·.scheduledFor p)

/-- The requests of a runner that were called back. -/
def called (p : Nat) (events : List AuditEvent) : List Nat := events.flatMap (·.calledFor p)

/-- Every request that was scheduled for a runner has been called back, once. -/
def Answered (p : Nat) (events : List AuditEvent) : Prop :=
  (awaited p events).Perm (called p events)

def storings (p : Nat) (events : List AuditEvent) : Nat := events.countP (·.isStored p)

def erasures (p : Nat) (events : List AuditEvent) : Nat := events.countP (·.isErased p)

/-- Nothing is run, scheduled or called back for a runner. -/
structure Quiet (p : Nat) (events : List AuditEvent) : Prop where
  checksRun : checksRun p events = []
  awaited : awaited p events = []
  called : called p events = []

/-- These events do not count for a runner: they are about another one, or only tell how a
    check came out. -/
structure Silent (p : Nat) (events : List AuditEvent) : Prop extends Quiet p events where
  storings : storings p events = 0
  erasures : erasures p events = 0

@[simp] theorem checksRun_append (p : Nat) (past events : List AuditEvent) :
    checksRun p (past ++ events) = checksRun p past ++ checksRun p events :=
  List.flatMap_append

@[simp] theorem awaited_append (p : Nat) (past events : List AuditEvent) :
    awaited p (past ++ events) = awaited p past ++ awaited p events :=
  List.flatMap_append

@[simp] theorem called_append (p : Nat) (past events : List AuditEvent) :
    called p (past ++ events) = called p past ++ called p events :=
  List.flatMap_append

@[simp] theorem storings_append (p : Nat) (past events : List AuditEvent) :
    storings p (past ++ events) = storings p past + storings p events :=
  List.countP_append

@[simp] theorem erasures_append (p : Nat) (past events : List AuditEvent) :
    erasures p (past ++ events) = erasures p past + erasures p events :=
  List.countP_append

theorem Silent.nil (p : Nat) : Silent p [] := ⟨⟨rfl, rfl, rfl⟩, rfl, rfl⟩

theorem Silent.cons {p : Nat} {event : AuditEvent} {events : List AuditEvent}
    (hevent : Silent p [event]) (hevents : Silent p events) : Silent p (event :: events) := by
  rw [← List.singleton_append]
  refine ⟨⟨?_, ?_, ?_⟩, ?_, ?_⟩
  · rw [checksRun_append, hevent.checksRun, hevents.checksRun, List.nil_append]
  · rw [awaited_append, hevent.awaited, hevents.awaited, List.nil_append]
  · rw [called_append, hevent.called, hevents.called, List.nil_append]
  · rw [storings_append, hevent.storings, hevents.storings]
  · rw [erasures_append, hevent.erasures, hevents.erasures]

theorem silent_of_forall {p : Nat} {events : List AuditEvent}
    (h : ∀ event ∈ events, Silent p [event]) : Silent p events := by
  induction events with
  | nil => exact .nil p
  | cons event events ih =>
    exact (h event List.mem_cons_self).cons
      (ih fun later hmem => h later (List.mem_cons_of_mem _ hmem))

theorem silent_singleton {p : Nat} {event : AuditEvent} (hcheck : event.checkRun p = [])
    (hscheduled : event.scheduledFor p = []) (hcalled : event.calledFor p = [])
    (hstored : event.isStored p = false) (herased : event.isErased p = false) :
    Silent p [event] := by
  refine ⟨⟨?_, ?_, ?_⟩, ?_, ?_⟩
  · simp [checksRun, hcheck]
  · simp [awaited, hscheduled]
  · simp [called, hcalled]
  · simp [storings, hstored]
  · simp [erasures, herased]

/-- What happens to another runner does not count. -/
theorem silent_of_runner_ne {p : Nat} {events : List AuditEvent}
    (hne : ∀ event ∈ events, event.runner ≠ p) : Silent p events := by
  refine silent_of_forall fun event hmem => ?_
  have hne := hne event hmem
  cases event with
  | ran q check positive requests scheduled =>
    have hcheck : (AuditEvent.ran q check positive requests scheduled).checkRun p = [] := if_neg hne
    cases scheduled with
    | true => exact silent_singleton hcheck (if_neg hne) rfl rfl rfl
    | false => exact silent_singleton hcheck rfl rfl rfl rfl
  | calledBack => exact silent_singleton rfl rfl (if_neg hne) rfl rfl
  | stored => exact silent_singleton rfl rfl rfl (decide_eq_false hne) rfl
  | erased => exact silent_singleton rfl rfl rfl rfl (decide_eq_false hne)
  | _ => exact silent_singleton rfl rfl rfl rfl rfl

theorem AuditEvent.isScheduling.runner_eq {p : Nat} {event : AuditEvent}
    (h : event.isScheduling p) : event.runner = p := by
  cases event <;> first | exact h | cases h

/-- How a check came out does not count. -/
theorem Scan.silent_evaluateCallbackEvents (scan : Scan) (p req q : Nat) :
    Silent q (scan.evaluateCallbackEvents p req) := by
  refine silent_of_forall fun event hmem => ?_
  cases event with
  | evaluated | measured | reported => exact silent_singleton rfl rfl rfl rfl rfl
  | _ => simp [evaluateCallbackEvents] at hmem

theorem Scan.runner_of_mem_evaluateCallbackEvents {scan : Scan} {p req : Nat} :
    ∀ event ∈ scan.evaluateCallbackEvents p req, event.runner = p := by
  intro event hmem
  cases event with
  | evaluated =>
    obtain ⟨_, _, hp, _⟩ := by simpa [evaluateCallbackEvents] using hmem
    exact hp.symm
  | measured | reported => simp_all [evaluateCallbackEvents, AuditEvent.runner]
  | _ => simp [evaluateCallbackEvents] at hmem

end plusfish

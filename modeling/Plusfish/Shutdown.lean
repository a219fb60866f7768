import Mathlib.Data.List.Induction
import Plusfish.CurlHttpClient

namespace plusfish

/-- The signals that `SignalHandler` tells apart. -/
inductive Signal where
  | sigint
  | sigterm
  | other
deriving DecidableEq

/-- The part of a `Plusfish` object that a shutdown works on, with the history of the times at
    which a graceful shutdown was started. -/
structure Lifecycle where
  enabled : Bool := true
  shutdownTime : Int := 2 ^ 63 - 1
  httpClient : CurlHttpClient := { enabled := true }
  gracefulStarts : List Int := []

/-- A call of `SignalHandler` or of `KeepRunningOrShutdown`, at a time in seconds. -/
inductive LifecycleOp where
  | signalHandler (sig : Signal) (now : Int)
  | keepRunningOrShutdown (now : Int)

def LifecycleOp.time : LifecycleOp → Int
  | signalHandler _ now => now
  | keepRunningOrShutdown now => now

def LifecycleOp.isSigint : LifecycleOp → Bool
  | signalHandler sig _ => sig = .sigint
  | keepRunningOrShutdown _ => false

namespace Lifecycle

def disableHttpClient (self : Lifecycle) : Lifecycle :=
  if self.httpClient.enabled then
    { self with httpClient := { self.httpClient with enabled := false } }
  else self

section
variable (maxGracefulShutdownDuration : Int32)

def shutdownGraceful (self : Lifecycle) (now : Int) : Lifecycle :=
  { self.disableHttpClient with
    shutdownTime := now + maxGracefulShutdownDuration.toInt
    gracefulStarts := self.gracefulStarts ++ [now] }

def shutdown (self : Lifecycle) : Lifecycle := { self.disableHttpClient with enabled := false }

def keepRunningOrShutdown (self : Lifecycle) (now : Int) : Bool × Lifecycle :=
  if !self.enabled then (false, self)
  else if self.shutdownTime > now then (true, self)
  else if self.httpClient.enabled then
    (true, self.shutdownGraceful maxGracefulShutdownDuration now)
  else (false, self.shutdown)

def signalHandler (self : Lifecycle) (sig : Signal) (now : Int) : Lifecycle :=
  match sig with
  | .sigint =>
    if self.httpClient.enabled then self.shutdownGraceful maxGracefulShutdownDuration now
    else self.shutdown
  | .sigterm => self.shutdown
  | .other => self

def step (self : Lifecycle) : LifecycleOp → Lifecycle
  | .signalHandler sig now => self.signalHandler maxGracefulShutdownDuration sig now
  | .keepRunningOrShutdown now => (self.keepRunningOrShutdown maxGracefulShutdownDuration now).2

def run (self : Lifecycle) (ops : List LifecycleOp) : Lifecycle :=
  ops.foldl (step maxGracefulShutdownDuration) self

end

@[simp] theorem disableHttpClient_enabled (self : Lifecycle) :
    self.disableHttpClient.enabled = self.enabled := by
  unfold disableHttpClient
  split <;> rfl

@[simp] theorem disableHttpClient_httpClient (self : Lifecycle) :
    self.disableHttpClient.httpClient.enabled = false := by
  unfold disableHttpClient
  split
  · rfl
  · rename_i h
    simpa using h

@[simp] theorem disableHttpClient_shutdownTime (self : Lifecycle) :
    self.disableHttpClient.shutdownTime = self.shutdownTime := by
  unfold disableHttpClient
  split <;> rfl

@[simp] theorem disableHttpClient_gracefulStarts (self : Lifecycle) :
    self.disableHttpClient.gracefulStarts = self.gracefulStarts := by
  unfold disableHttpClient
  split <;> rfl

variable {grace : Int32} {self : Lifecycle} {op : LifecycleOp} {ops : List LifecycleOp}

/-- What one call can do: nothing, start a graceful shutdown where the HTTP client is enabled,
    or shut down. -/
inductive StepOutcome (grace : Int32) (self : Lifecycle) (op : LifecycleOp) : Lifecycle → Prop
  | unchanged (hsigint : op.isSigint = false) : StepOutcome grace self op self
  | graceful (hclient : self.httpClient.enabled = true) :
      StepOutcome grace self op (self.shutdownGraceful grace op.time)
  | shutdown (hclient : op.isSigint = true → self.httpClient.enabled = false) :
      StepOutcome grace self op self.shutdown

theorem step_outcome (grace : Int32) (self : Lifecycle) (op : LifecycleOp) :
    StepOutcome grace self op (self.step grace op) := by
  cases op with
  | signalHandler sig now =>
    cases sig with
    | sigint =>
      simp only [step, signalHandler]
      split
      · rename_i hclient
        exact .graceful hclient
      · rename_i hclient
        exact .shutdown fun _ => by simpa using hclient
    | sigterm => exact .shutdown fun h => by cases h
    | other => exact .unchanged rfl
  | keepRunningOrShutdown now =>
    simp only [step, keepRunningOrShutdown]
    split
    · exact .unchanged rfl
    · split
      · exact .unchanged rfl
      · split
        · rename_i hclient
          exact .graceful hclient
        · exact .shutdown fun h => by cases h

theorem step_disabled (h : self.enabled = false) : (self.step grace op).enabled = false := by
  have houtcome := step_outcome grace self op
  generalize self.step grace op = next at houtcome
  cases houtcome with
  | unchanged => exact h
  | graceful => simpa [shutdownGraceful] using h
  | shutdown => rfl

theorem step_httpClient_disabled (h : self.httpClient.enabled = false) :
    (self.step grace op).httpClient.enabled = false := by
  have houtcome := step_outcome grace self op
  generalize self.step grace op = next at houtcome
  cases houtcome with
  | unchanged => exact h
  | graceful => exact disableHttpClient_httpClient self
  | shutdown => exact disableHttpClient_httpClient self

theorem run_disabled (h : self.enabled = false) : (self.run grace ops).enabled = false := by
  induction ops generalizing self with
  | nil => exact h
  | cons op ops ih => exact ih (step_disabled h)

theorem run_httpClient_disabled (h : self.httpClient.enabled = false) :
    (self.run grace ops).httpClient.enabled = false := by
  induction ops generalizing self with
  | nil => exact h
  | cons op ops ih => exact ih (step_httpClient_disabled h)

/-- Where the HTTP client is disabled, an interrupt shuts down at once. -/
theorem run_disabled_of_sigint (hclient : self.httpClient.enabled = false)
    (hsigint : ops.countP LifecycleOp.isSigint ≠ 0) : (self.run grace ops).enabled = false := by
  induction ops generalizing self with
  | nil => exact absurd rfl hsigint
  | cons op ops ih =>
    by_cases hop : op.isSigint = true
    · have hnext : (self.step grace op).enabled = false := by
        have houtcome := step_outcome grace self op
        generalize self.step grace op = next at houtcome
        cases houtcome with
        | unchanged hnot => simp [hop] at hnot
        | graceful henabled => simp [hclient] at henabled
        | shutdown => rfl
      show ((self.step grace op).run grace ops).enabled = false
      exact run_disabled hnext
    · rw [List.countP_cons_of_neg hop] at hsigint
      exact ih (step_httpClient_disabled hclient) hsigint

/-- The first interrupt disables the HTTP client, and the second one shuts down. -/
theorem run_disabled_of_two_sigints (hsigints : 2 ≤ ops.countP LifecycleOp.isSigint) :
    (self.run grace ops).enabled = false := by
  induction ops generalizing self with
  | nil => simp at hsigints
  | cons op ops ih =>
    by_cases hop : op.isSigint = true
    · rw [List.countP_cons_of_pos hop] at hsigints
      have hrest : ops.countP LifecycleOp.isSigint ≠ 0 := by omega
      have hnext : (self.step grace op).httpClient.enabled = false := by
        have houtcome := step_outcome grace self op
        generalize self.step grace op = next at houtcome
        cases houtcome with
        | unchanged hnot => simp [hop] at hnot
        | graceful => exact disableHttpClient_httpClient self
        | shutdown => exact disableHttpClient_httpClient self
      show ((self.step grace op).run grace ops).enabled = false
      exact run_disabled_of_sigint hnext hrest
    · rw [List.countP_cons_of_neg hop] at hsigints
      exact ih hsigints

/-- No graceful shutdown has been started, or one has: then the HTTP client is disabled, and the
    shutdown time is the end of the grace period. -/
def GracefulOnce (grace : Int32) (self : Lifecycle) : Prop :=
  self.gracefulStarts = [] ∨ ∃ start, self.gracefulStarts = [start] ∧
    self.httpClient.enabled = false ∧ self.shutdownTime = start + grace.toInt

theorem GracefulOnce.step (h : self.GracefulOnce grace) (op : LifecycleOp) :
    (self.step grace op).GracefulOnce grace := by
  have houtcome := step_outcome grace self op
  generalize self.step grace op = next at houtcome
  cases houtcome with
  | unchanged => exact h
  | graceful hclient =>
    rcases h with hnone | ⟨start, _, hdisabled, _⟩
    · exact .inr ⟨op.time, by simp [shutdownGraceful, hnone],
        disableHttpClient_httpClient self, rfl⟩
    · simp [hdisabled] at hclient
  | shutdown =>
    rcases h with hnone | ⟨start, hstart, _, htime⟩
    · exact .inl (by simpa [Lifecycle.shutdown] using hnone)
    · exact .inr ⟨start, by simpa [Lifecycle.shutdown] using hstart,
        disableHttpClient_httpClient self, by simpa [Lifecycle.shutdown] using htime⟩

theorem GracefulOnce.run (h : self.GracefulOnce grace) (ops : List LifecycleOp) :
    (self.run grace ops).GracefulOnce grace := by
  induction ops generalizing self with
  | nil => exact h
  | cons op ops ih => exact ih (h.step op)

theorem run_append (self : Lifecycle) (before after : List LifecycleOp) :
    self.run grace (before ++ after) = (self.run grace before).run grace after :=
  List.foldl_append

theorem mem_gracefulStarts_of_run {start : Int}
    (h : start ∈ (self.run grace ops).gracefulStarts) :
    start ∈ self.gracefulStarts ∨ ∃ op ∈ ops, op.time = start := by
  induction ops generalizing self with
  | nil => exact .inl h
  | cons op ops ih =>
    rcases ih h with hstep | ⟨later, hmem, htime⟩
    · have houtcome := step_outcome grace self op
      generalize self.step grace op = next at houtcome hstep
      cases houtcome with
      | unchanged => exact .inl hstep
      | graceful =>
        rcases List.mem_append.mp hstep with hold | hnew
        · exact .inl hold
        · exact .inr ⟨op, List.mem_cons_self, (List.mem_singleton.mp hnew).symm⟩
      | shutdown => exact .inl (by simpa [Lifecycle.shutdown] using hstep)
    · exact .inr ⟨later, List.mem_cons_of_mem _ hmem, htime⟩

/-- Once the grace period of a graceful shutdown is over, the loop is left. -/
theorem GracefulOnce.keepRunning_eq_false (h : self.GracefulOnce grace) {start now : Int}
    (hstart : start ∈ self.gracefulStarts) (hover : start + grace.toInt ≤ now) :
    (self.keepRunningOrShutdown grace now).1 = false := by
  rcases h with hnone | ⟨start', heq, hclient, htime⟩
  · simp [hnone] at hstart
  · rw [heq, List.mem_singleton] at hstart
    subst hstart
    have hpast : ¬ self.shutdownTime > now := by omega
    cases henabled : self.enabled <;> simp [keepRunningOrShutdown, henabled, hpast, hclient]

/-- Every call of `KeepRunningOrShutdown` from the end of the grace period on, wherever it is in
    the run, answers that the loop is to be left. -/
def EndsInTime (grace : Int32) (start : Lifecycle) (ops : List LifecycleOp) : Prop :=
  ∀ before now after, ops = before ++ .keepRunningOrShutdown now :: after →
    ∀ graceful ∈ (start.run grace ops).gracefulStarts, graceful + grace.toInt ≤ now →
      ((start.run grace before).keepRunningOrShutdown grace now).1 = false

/-- What holds of a run with signals and calls of `KeepRunningOrShutdown`. -/
structure ShutsDown (grace : Int32) (start : Lifecycle) (ops : List LifecycleOp) : Prop where
  staysDisabled : ∀ before middle after, ops = before ++ middle ++ after →
    (start.run grace before).enabled = false → (start.run grace (before ++ middle)).enabled = false
  clientStaysDisabled : ∀ before middle after, ops = before ++ middle ++ after →
    (start.run grace before).httpClient.enabled = false →
      (start.run grace (before ++ middle)).httpClient.enabled = false
  gracefulOnce : (start.run grace ops).gracefulStarts.length ≤ 1
  /-- The calls after the graceful shutdown was started. -/
  laterEndsInTime : ∀ before now after, ops = before ++ .keepRunningOrShutdown now :: after →
    ∀ graceful ∈ (start.run grace before).gracefulStarts, graceful + grace.toInt ≤ now →
      ((start.run grace before).keepRunningOrShutdown grace now).1 = false
  endsInTime : 0 < grace.toInt → EndsInTime grace start ops
  endsAfterSecondSigint : ∀ before now after,
    ops = before ++ .keepRunningOrShutdown now :: after →
      2 ≤ before.countP LifecycleOp.isSigint →
        ((start.run grace before).keepRunningOrShutdown grace now).1 = false

/-- Every run that starts before a graceful shutdown, with times that do not decrease. -/
theorem shutsDown_of_run (grace : Int32) {start : Lifecycle} (hstart : start.gracefulStarts = [])
    {ops : List LifecycleOp} (htimes : ops.Pairwise fun op later => op.time ≤ later.time) :
    ShutsDown grace start ops := by
  have hgraceful (before : List LifecycleOp) : (start.run grace before).GracefulOnce grace :=
    GracefulOnce.run (.inl hstart) before
  refine ⟨fun before middle after _ h => ?_, fun before middle after _ h => ?_, ?_,
    fun before now after _ graceful hmem hover =>
      (hgraceful before).keepRunning_eq_false hmem hover,
    fun hgrace before now after heq graceful hmem hover => ?_,
    fun before now after _ hsigints => ?_⟩
  · rw [run_append]
    exact run_disabled h
  · rw [run_append]
    exact run_httpClient_disabled h
  · rcases hgraceful ops with hnone | ⟨graceful, hone, _⟩
    · simp [hnone]
    · simp [hone]
  · rw [heq, run_append] at hmem
    rcases mem_gracefulStarts_of_run hmem with hbefore | ⟨op, hop, rfl⟩
    · exact (hgraceful before).keepRunning_eq_false hbefore hover
    · -- A shutdown that starts at this call or later starts at its time or later.
      rw [heq, List.pairwise_append] at htimes
      have hlater : now ≤ op.time := by
        rcases List.mem_cons.mp hop with rfl | hafter
        · exact Int.le_refl _
        · exact (List.pairwise_cons.mp htimes.2.1).1 op hafter
      omega
  · have hdisabled : (start.run grace before).enabled = false :=
      run_disabled_of_two_sigints hsigints
    simp [keepRunningOrShutdown, hdisabled]

/-- An interrupt, a second one before the grace period is over, and a call after its end. -/
def interruptedOps : List LifecycleOp :=
  [.keepRunningOrShutdown 10, .signalHandler .sigint 20, .keepRunningOrShutdown 100,
    .signalHandler .sigint 200, .keepRunningOrShutdown 201, .signalHandler .sigterm 300,
    .keepRunningOrShutdown 320]

theorem shutsDown_of_run_interrupted :
    (run 300 {} interruptedOps).gracefulStarts = [20] ∧
    ((run 300 {} (interruptedOps.take 2)).keepRunningOrShutdown 300 100).1 = true ∧
    ((run 300 {} (interruptedOps.take 4)).keepRunningOrShutdown 300 201).1 = false ∧
    ShutsDown 300 {} interruptedOps :=
  ⟨by decide, by decide, by decide, shutsDown_of_run 300 rfl (by decide)⟩

/-- Without a grace period, the call that starts the graceful shutdown goes on. -/
theorem noGrace_not_endsInTime : ¬ EndsInTime 0 { shutdownTime := 10 }
    [.keepRunningOrShutdown 10] := by
  intro h
  have hends := h [] 10 [] rfl 10 (by decide) (by decide)
  exact absurd hends (by decide)

end Lifecycle

end plusfish

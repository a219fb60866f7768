import Plusfish.CurlHttpClient.InFlight
import Plusfish.Library.Fifo

open fifo history memory transition

namespace plusfish

namespace CurlSession

variable {env : CurlEnv} {self next : CurlSession}

/-- The requests that the client has accepted, and those that wait for their start. -/
def channel (self : CurlSession) : Channel Nat := ⟨self.accepted, self.client.scheduleQueue⟩

theorem schedule_moves (self : CurlSession) (req : Nat) :
    Channel.Moves [] self.channel (self.schedule req).2.channel := by
  unfold schedule
  split
  · exact .refl _
  · have hpushed := Channel.Moves.push self.channel [req]
    simpa only [channel, accepted, List.map_append, List.map_singleton] using hpushed

theorem act_moves (self : CurlSession) (action : HandlerAction) :
    Channel.Moves [] self.channel (self.act action).channel := by
  cases action with
  | schedule req handler =>
    cases handler with
    | none => exact schedule_moves self req
    | some handler =>
      exact schedule_moves { self with
        mem := self.mem.modify req ({ · with requestHandler := some handler }) } req
  | update f => exact .refl _

theorem react_moves (self : CurlSession) (actions : List HandlerAction) :
    Channel.Moves [] self.channel (actions.foldl act self).channel := by
  induction actions generalizing self with
  | nil => exact .refl _
  | cons action actions ih => exact (act_moves self action).trans (ih (self.act action))

/-- Only the handler that is called back puts requests in the queue. -/
theorem finish_moves {handle : CurlHandleData} {input : DoneInput}
    (hnext : self.finish env handle input = some next) :
    Channel.Moves [] self.channel next.channel := by
  obtain ⟨mem, heq, _⟩ := noteTransfer_eq env self handle input
  unfold finish at hnext
  rw [heq] at hnext
  dsimp only at hnext
  split at hnext
  · cases hnext
  · cases hnext
    exact .refl _
  · obtain ⟨handler, _, rfl⟩ := Option.map_eq_some_iff.mp hnext
    exact react_moves _ input.reaction

theorem processMessages_moves {messages : List CurlHandleData} {inputs : List DoneInput}
    (hnext : processMessages env messages inputs self = some next) :
    Channel.Moves [] self.channel next.channel := by
  induction messages generalizing self inputs with
  | nil =>
    cases hnext
    exact .refl _
  | cons handle messages ih =>
    obtain ⟨middle, hfinish, hrest⟩ := Option.bind_eq_some_iff.mp hnext
    exact (finish_moves hfinish).trans (ih hrest)

theorem onEvent_channel (event : TransferEvent) :
    (self.onEvent env event).channel = self.channel := by
  cases event <;> simp only [onEvent] <;> split <;> rfl

theorem multiPerform_channel (perform : CurlPerform) :
    (self.multiPerform env perform).channel = self.channel := by
  have hevents (events : List TransferEvent) :
      (events.foldl (onEvent env) self).channel = self.channel := by
    induction events generalizing self with
    | nil => rfl
    | cons event events ih => exact ih.trans (onEvent_channel event)
  exact hevents perform.events

theorem poll_moves {input : PollInput} {result : Int × CurlSession}
    (hpoll : self.poll env input = some result) :
    Channel.Moves [] self.channel result.2.channel := by
  unfold poll at hpoll
  split at hpoll
  · cases hpoll
    exact .refl _
  · split at hpoll
    · cases hpoll
      exact .refl _
    · obtain ⟨last, hprocess, rfl⟩ := Option.map_eq_some_iff.mp hpoll
      have hpolled : (self.pollMessages env input).2.channel = self.channel := by
        unfold pollMessages
        split
        · rfl
        · exact multiPerform_channel input.perform
      have hmoves : Channel.Moves [] (self.pollMessages env input).2.channel last.channel :=
        processMessages_moves hprocess
      rwa [hpolled] at hmoves

end CurlSession

/-- A request that is taken from the queue directly after a slot was granted, with the time of
    the slot. -/
def FlightEvent.start : FlightEvent × FlightEvent → Option (Int × Nat)
  | (.slot time true, .popped req) => some (time, req)
  | _ => none

/-- The request that the event takes from the queue. -/
def FlightEvent.request : FlightEvent → Option Nat
  | .popped req => some req
  | _ => none

/-- The call of the rate limiter that the event is: its time and its answer. -/
def FlightEvent.call : FlightEvent → Option (Int × Bool)
  | .slot time granted => some (time, granted)
  | _ => none

/-- The requests that were taken from the queue, with the times at which they were. -/
def starts (history : List FlightEvent) : List (Int × Nat) :=
  (history.zip history.tail).filterMap FlightEvent.start

def slotCalls (history : List FlightEvent) : List (Int × Bool) :=
  history.filterMap FlightEvent.call

theorem slotCalls_append (first second : List FlightEvent) :
    slotCalls (first ++ second) = slotCalls first ++ slotCalls second :=
  List.filterMap_append

section
variable {history : List FlightEvent}

theorem zip_tail_append_singleton {α : Type} (history : List α) (event : α) :
    (history ++ [event]).zip (history ++ [event]).tail =
      history.zip history.tail ++ history.getLast?.toList.map (·, event) := by
  induction history with
  | nil => rfl
  | cons first rest ih =>
    cases rest with
    | nil => rfl
    | cons second rest =>
      rw [List.getLast?_cons_cons]
      exact congrArg ((first, second) :: ·) ih

theorem starts_append_singleton (history : List FlightEvent) (event : FlightEvent) :
    starts (history ++ [event]) = starts history ++
      (history.getLast?.toList.map (·, event)).filterMap FlightEvent.start := by
  rw [starts, zip_tail_append_singleton, List.filterMap_append, ← starts]

/-- An event that takes no request starts none. -/
theorem starts_append_of_request {event : FlightEvent} (hevent : event.request = none) :
    starts (history ++ [event]) = starts history := by
  rw [starts_append_singleton]
  cases history.getLast? with
  | none => exact List.append_nil _
  | some last =>
    have hnone : FlightEvent.start (last, event) = none := by
      cases event with
      | popped req => cases hevent
      | _ => unfold FlightEvent.start; split <;> simp_all
    simp [hnone]

theorem starts_append_popped {time : Int} (hlast : history.getLast? = some (.slot time true))
    (req : Nat) : starts (history ++ [.popped req]) = starts history ++ [(time, req)] := by
  rw [starts_append_singleton, hlast]
  rfl

/-- The time of the slot that was granted last, where it is not used yet. -/
def pendingTime (history : List FlightEvent) : List Int :=
  match history.getLast? with
  | some (.slot time true) => [time]
  | _ => []

theorem pendingTime_of_not (h : ¬ SlotPending history) : pendingTime history = [] := by
  unfold pendingTime
  split
  · rename_i time heq
    exact absurd ⟨time, heq⟩ h
  · rfl

theorem pendingTime_append_singleton (history : List FlightEvent) (event : FlightEvent) :
    pendingTime (history ++ [event]) = pendingTime [event] := by
  rw [pendingTime, List.getLast?_concat]
  rfl

/-- Every request that is taken is started, and with a slot of its own. -/
theorem starts_of_follows (h : Follows InTurn [] history) :
    (starts history).map Prod.snd = history.filterMap FlightEvent.request ∧
      ∀ second, ((starts history).map Prod.fst).count second +
        (pendingTime history).count second = (slotCalls history).count (second, true) := by
  induction history using List.reverseRecOn with
  | nil => exact ⟨rfl, fun _ => rfl⟩
  | append_singleton past event ih =>
    obtain ⟨hpast, hlast⟩ := follows_append.mp h
    obtain ⟨hrequests, htimes⟩ := ih hpast
    replace hlast : InTurn past event := follows_singleton.mp hlast
    -- An event that neither takes a request nor uses a slot changes nothing.
    have hidle (hrequest : event.request = none) (hcall : event.call = none)
        (hnext : pendingTime [event] = []) (hpending : pendingTime past = []) :
        (starts (past ++ [event])).map Prod.snd = (past ++ [event]).filterMap FlightEvent.request ∧
          ∀ second, ((starts (past ++ [event])).map Prod.fst).count second +
            (pendingTime (past ++ [event])).count second =
              (slotCalls (past ++ [event])).count (second, true) := by
      rw [starts_append_of_request hrequest, pendingTime_append_singleton, hnext, ← hpending]
      refine ⟨by simp [hrequests, hrequest], fun second => ?_⟩
      rw [slotCalls_append, show slotCalls [event] = [] by simp [slotCalls, hcall], List.append_nil]
      exact htimes second
    cases event with
    | slot time granted =>
      have hnone := pendingTime_of_not hlast
      rw [starts_append_of_request rfl, pendingTime_append_singleton]
      refine ⟨by simp [hrequests, FlightEvent.request], fun second => ?_⟩
      have hbefore := htimes second
      rw [hnone, List.count_nil, Nat.add_zero] at hbefore
      have hcall : slotCalls [.slot time granted] = [(time, granted)] := rfl
      rw [hbefore, slotCalls_append, List.count_append, hcall]
      cases granted <;> simp [pendingTime, List.count_cons]
    | popped req =>
      obtain ⟨time, hslot⟩ := hlast
      have hpending : pendingTime past = [time] := by rw [pendingTime, hslot]
      rw [starts_append_popped hslot, pendingTime_append_singleton]
      refine ⟨by simp [hrequests, FlightEvent.request], fun second => ?_⟩
      have hbefore := htimes second
      have hcall : slotCalls [.popped req] = [] := rfl
      have hused : pendingTime [.popped req] = [] := rfl
      rw [hpending] at hbefore
      rw [slotCalls_append, hcall, List.append_nil, hused, List.map_append, List.count_append,
        List.count_nil, Nat.add_zero, ← hbefore]
      rfl
    | added req running =>
      obtain ⟨earlier, time, rfl⟩ := hlast
      refine hidle rfl rfl rfl (pendingTime_of_not ?_)
      rintro ⟨_, heq⟩
      simp at heq
    | performed reported running fails => exact hidle rfl rfl rfl (pendingTime_of_not hlast)

end

namespace Flight

open CurlSession

variable {Limiter : Type} {takeRateSlot : Limiter → Int → Bool × Limiter} {env : CurlEnv}
  {self next : Flight Limiter}

/-- The limiter gives these answers to calls at these times, and is in this state then. -/
inductive Answers (takeRateSlot : Limiter → Int → Bool × Limiter) (limiter : Limiter) :
    (calls : List (Int × Bool)) → Limiter → Prop
  | none : Answers takeRateSlot limiter [] limiter
  | call {calls : List (Int × Bool)} {before : Limiter}
      (h : Answers takeRateSlot limiter calls before) (time : Int) :
      Answers takeRateSlot limiter (calls ++ [(time, (takeRateSlot before time).1)])
        (takeRateSlot before time).2

theorem Answers.trans {first second : List (Int × Bool)} {a b c : Limiter}
    (hab : Answers takeRateSlot a first b) (hbc : Answers takeRateSlot b second c) :
    Answers takeRateSlot a (first ++ second) c := by
  induction hbc with
  | none => rwa [List.append_nil]
  | call _ time ih =>
    rw [← List.append_assoc]
    exact ih.call time

/-- What the client has noted since says which requests left the queue, and what the limiter
    answered. -/
def Notes (takeRateSlot : Limiter → Int → Bool × Limiter) (before after : Flight Limiter) : Prop :=
  ∃ events, after.history = before.history ++ events ∧
    Channel.Moves (events.filterMap FlightEvent.request) before.session.channel
      after.session.channel ∧
    Answers takeRateSlot before.limiter (slotCalls events) after.limiter

theorem Notes.of_eq (hhistory : next.history = self.history)
    (hmoves : Channel.Moves [] self.session.channel next.session.channel)
    (hlimiter : next.limiter = self.limiter) : Notes takeRateSlot self next :=
  ⟨[], by rw [hhistory, List.append_nil], hmoves, hlimiter ▸ .none⟩

theorem Notes.refl (self : Flight Limiter) : Notes takeRateSlot self self :=
  .of_eq rfl (.refl _) rfl

theorem Notes.trans {a b c : Flight Limiter} (hab : Notes takeRateSlot a b)
    (hbc : Notes takeRateSlot b c) : Notes takeRateSlot a c := by
  obtain ⟨events, hhistory, hmoves, hanswers⟩ := hab
  obtain ⟨later, hhistory', hmoves', hanswers'⟩ := hbc
  refine ⟨events ++ later, by rw [hhistory', hhistory, List.append_assoc], ?_, ?_⟩
  · rw [List.filterMap_append]
    exact hmoves.trans hmoves'
  · rw [slotCalls_append]
    exact hanswers.trans hanswers'

theorem takeSlot_notes (takeRateSlot : Limiter → Int → Bool × Limiter) (self : Flight Limiter)
    (time : Int) :
    Notes takeRateSlot self (self.takeSlot takeRateSlot time).2 :=
  ⟨[.slot time (takeRateSlot self.limiter time).1], rfl, .refl _, Answers.none.call time⟩

theorem popRequest_notes {req : Nat} {queue : List Nat}
    (hqueue : self.session.client.scheduleQueue = req :: queue) :
    Notes takeRateSlot self (self.popRequest req) := by
  refine ⟨[.popped req], rfl, ?_, .none⟩
  have hpopped : (self.popRequest req).session.channel = ⟨self.session.accepted, queue⟩ := by
    simp [popRequest, CurlSession.popRequest, channel, CurlSession.accepted, hqueue]
  rw [hpopped]
  exact .pop hqueue

theorem multiPerform_notes (env : CurlEnv) (self : Flight Limiter) (perform : CurlPerform) :
    Notes takeRateSlot self (self.multiPerform env perform) := by
  refine ⟨[_], rfl, ?_, .none⟩
  have hsame : (self.multiPerform env perform).session.channel = self.session.channel :=
    multiPerform_channel perform
  rw [hsame]
  exact .refl _

theorem startRequest_notes (env : CurlEnv) (self : Flight Limiter) (curl : CurlStart) (req : Nat) :
    Notes takeRateSlot self (self.startRequest env curl req).2 := by
  unfold startRequest
  split
  · exact .refl self
  · split
    · exact .refl self
    · rename_i headerList _
      split
      · exact .refl self
      · have hadded : Notes takeRateSlot self
            (self.multiAddHandle (self.session.handleFor req headerList)) :=
          ⟨[_], rfl, .refl _, .none⟩
        have hperformed := hadded.trans (multiPerform_notes env _ curl.perform)
        dsimp only
        split
        · exact hperformed.trans (.of_eq rfl (.refl _) rfl)
        · exact hperformed.trans (.of_eq rfl (.refl _) rfl)

theorem startLoop_notes (times : ℕ → Int) (curls : ℕ → CurlStart) (maxToAdd : ℕ)
    (self : Flight Limiter) :
    Notes takeRateSlot self (self.startLoop takeRateSlot env times curls maxToAdd).2 := by
  induction maxToAdd generalizing self with
  | zero => exact .refl self
  | succ maxToAdd ih =>
    rw [startLoop]
    split
    · exact .refl self
    · rename_i req queue hqueue
      have htaken := takeSlot_notes takeRateSlot self (times maxToAdd)
      split
      · rename_i taken htake
        rwa [htake] at htaken
      · rename_i taken htake
        rw [htake] at htaken
        have hpopped : Notes takeRateSlot self (taken.popRequest req) := by
          have hfirst : taken.session.client.scheduleQueue = req :: queue := by
            rw [(takeSlot_eq htake).1, hqueue]
          exact htaken.trans (popRequest_notes hfirst)
        have hstarted :=
          hpopped.trans (startRequest_notes env (taken.popRequest req) (curls maxToAdd) req)
        split
        · rename_i hstart
          rwa [hstart] at hstarted
        · rename_i hstart
          rw [hstart] at hstarted
          exact hstarted.trans (ih _)

theorem step_notes {op : FlightOp} (hnext : self.step takeRateSlot env op = some next) :
    Notes takeRateSlot self next := by
  cases op with
  | enable =>
    cases hnext
    exact .of_eq rfl (.refl _) rfl
  | disable =>
    cases hnext
    exact .of_eq rfl (.refl _) rfl
  | registerDefaultHeader domain name value =>
    cases hnext
    refine .of_eq rfl ?_ rfl
    unfold CurlHttpClient.registerDefaultHeader
    split
    · exact .refl _
    · exact .refl _
  | act action =>
    cases hnext
    exact .of_eq rfl (act_moves self.session action) rfl
  | transfer event =>
    cases hnext
    refine .of_eq rfl ?_ rfl
    rw [onEvent_channel]
    exact .refl _
  | startNewRequests times curls =>
    cases hnext
    unfold startNewRequests
    split
    · exact .refl self
    · split
      · exact .refl self
      · exact startLoop_notes times curls _ self
  | poll input =>
    obtain ⟨result, hpoll, rfl⟩ := Option.map_eq_some_iff.mp hnext
    have hmoves := poll_moves hpoll
    by_cases hperforms : (!self.session.client.runningHandles.isEmpty && input.select != 0 &&
        input.select != -1) = true
    · exact ⟨[_], if_pos hperforms, hmoves, .none⟩
    · exact .of_eq (if_neg hperforms) hmoves rfl

/-- Every request that the loop takes from the queue has its own slot. -/
theorem startLoop_oneSlotEach (times : ℕ → Int) (curls : ℕ → CurlStart) (maxToAdd : ℕ)
    {self : Flight Limiter} (h : OneSlotEach self.history) :
    OneSlotEach (self.startLoop takeRateSlot env times curls maxToAdd).2.history := by
  induction maxToAdd generalizing self with
  | zero => exact h
  | succ maxToAdd ih =>
    rw [startLoop]
    split
    · exact h
    · rename_i req _ _
      split
      · rename_i htake
        rw [(takeSlot_eq htake).2]
        exact h.refused _
      · rename_i taken htake
        have hhistory : (taken.popRequest req).history =
            self.history ++ [.slot (times maxToAdd) true] ++ [.popped req] := by
          rw [← (takeSlot_eq htake).2]
          rfl
        have hstarted : OneSlotEach
            ((taken.popRequest req).startRequest env (curls maxToAdd) req).2.history := by
          rcases startRequest_noMore env (taken.popRequest req) (curls maxToAdd) req with
            hnone | ⟨handle, rfl, hless⟩
          · rw [hnone, hhistory]
            exact h.popped _ req
          · have hadded := (h.popped (times maxToAdd) handle.request).added
            rw [← hhistory] at hadded
            rw [hless.history]
            exact (hadded _).performed _ _ _
        split
        · rename_i hstart
          rwa [hstart] at hstarted
        · rename_i hstart
          rw [hstart] at hstarted
          exact ih hstarted

theorem step_oneSlotEach {op : FlightOp} (h : OneSlotEach self.history)
    (hnext : self.step takeRateSlot env op = some next) : OneSlotEach next.history := by
  cases op with
  | startNewRequests times curls =>
    cases hnext
    unfold startNewRequests
    split
    · exact h
    · split
      · exact h
      · exact startLoop_oneSlotEach times curls _ h
  | poll input =>
    rcases poll_noMore hnext with hless | hless
    · rw [hless.history]
      exact h
    · rw [hless.history]
      exact h.performed _ _ _
  | enable | disable | registerDefaultHeader | act | transfer =>
    cases hnext
    exact h

theorem notes_of_run {mem : Heap Request} {limiter : Limiter} {ops : List FlightOp}
    {last : Flight Limiter}
    (hrun : run (step takeRateSlot env) (initialized mem limiter) ops = some last) :
    Notes takeRateSlot (initialized mem limiter) last ∧ OneSlotEach last.history := by
  refine run_preserves (P := fun flight => Notes takeRateSlot (initialized mem limiter) flight ∧
    OneSlotEach flight.history) (fun flight op next hflight hstep => ?_) ?_ hrun
  · exact ⟨hflight.1.trans (step_notes hstep), step_oneSlotEach hflight.2 hstep⟩
  · exact ⟨.refl _, trivial, fun ⟨_, h⟩ => by cases h⟩

/-- In every run, whatever libcurl and the limiter answer: the requests that were started, each
    with a slot of its own, and those that still wait are the accepted requests, in the order in
    which they were accepted. -/
theorem startedInOrder_of_run {mem : Heap Request} {limiter : Limiter} {ops : List FlightOp}
    {last : Flight Limiter}
    (hrun : run (step takeRateSlot env) (initialized mem limiter) ops = some last) :
    last.session.accepted =
      (starts last.history).map Prod.snd ++ last.session.client.scheduleQueue := by
  obtain ⟨⟨events, hhistory, hmoves, _⟩, hslots⟩ := notes_of_run hrun
  have hstart : Channel.InOrder [] (initialized mem limiter).session.channel := rfl
  have horder := hstart.of_moves hmoves
  have hevents : last.history = events := hhistory
  rw [List.nil_append, ← hevents, ← (starts_of_follows hslots.inTurn).1] at horder
  exact horder

/-- The answers are those of the quota of each second. -/
theorem Answers.grants {limit : ℕ} {calls : List (Int × Bool)} {last : SimpleRateLimiter}
    {self : SimpleRateLimiter} (hself : SimpleRateLimiter.Tracks limit [] self)
    (h : Answers SimpleRateLimiter.takeRateSlotWithTime self calls last)
    (hlimit : 0 < limit) (hordered : (calls.map Prod.fst).Pairwise (· ≤ ·))
    (hnonneg : ∀ time ∈ calls.map Prod.fst, 0 ≤ time) :
    SimpleRateLimiter.Tracks limit (calls.map Prod.fst) last ∧
      calls.map Prod.snd = quota.grants limit [] (calls.map Prod.fst) := by
  induction h with
  | none => exact ⟨hself, rfl⟩
  | @call calls before h time ih =>
    rw [List.map_append, List.map_singleton] at hordered hnonneg ⊢
    obtain ⟨hearlier, _, hlast⟩ := List.pairwise_append.mp hordered
    obtain ⟨htracks, hanswers⟩ := ih hearlier fun earlier hmem =>
      hnonneg earlier (List.mem_append_left _ hmem)
    obtain ⟨hgranted, hnext⟩ := htracks.takeRateSlotWithTime hlimit
      (hnonneg time (List.mem_append_right _ (List.mem_singleton_self time)))
      fun earlier hmem => hlast earlier hmem time (List.mem_singleton_self time)
    refine ⟨hnext, ?_⟩
    rw [List.map_append, hanswers, quota.grants_append, List.nil_append]
    simp [quota.grants, hgranted]

/-- In every run with times that do not decrease: in each second, as many requests are started as
    the client asks for slots, up to the rate, which is at least one. -/
theorem startedPerSecond_of_run (ratePerSec : Int) {mem : Heap Request} {ops : List FlightOp}
    {last : Flight SimpleRateLimiter}
    (hrun : run (step SimpleRateLimiter.takeRateSlotWithTime env)
      (initialized mem (SimpleRateLimiter.new ratePerSec)) ops = some last)
    (hordered : ((slotCalls last.history).map Prod.fst).Pairwise (· ≤ ·))
    (hnonneg : ∀ time ∈ (slotCalls last.history).map Prod.fst, 0 ≤ time) (second : Int) :
    (((starts last.history).map Prod.fst).count second : Int) =
      min (((slotCalls last.history).map Prod.fst).count second : Int) (max 1 ratePerSec) := by
  obtain ⟨⟨events, hhistory, _, hanswers⟩, hslots⟩ := notes_of_run hrun
  have hevents : last.history = events := hhistory
  rw [← hevents] at hanswers
  obtain ⟨_, hgrants⟩ :=
    hanswers.grants (SimpleRateLimiter.Tracks.new ratePerSec) (by omega) hordered hnonneg
  have hgranted := quota.granted_grants (max 1 ratePerSec).toNat
    ((slotCalls last.history).map Prod.fst) second
  have hzip : ((slotCalls last.history).map Prod.fst).zip ((slotCalls last.history).map Prod.snd) =
      slotCalls last.history := by simp [List.zip_map']
  rw [← hgrants, quota.granted, hzip, ← (starts_of_follows hslots.inTurn).2 second,
    pendingTime_of_not hslots.used, List.count_nil, Nat.add_zero] at hgranted
  rw [hgranted]
  omega

/-- Three requests are scheduled, and there are calls in two seconds. -/
def threeFlights : List FlightOp :=
  [.act (.schedule 0 (some .crawler)), .act (.schedule 1 (some .crawler)),
    .act (.schedule 2 (some .crawler)), .startNewRequests (fun _ => 5) (fun _ => {}),
    .startNewRequests (fun _ => 6) (fun _ => {})]

theorem startedInOrder_of_run_threeFlights : ∃ last,
    run (step SimpleRateLimiter.takeRateSlotWithTime directEnv)
      (initialized ⟨[plainRequest, plainRequest, plainRequest]⟩ (SimpleRateLimiter.new 2))
      threeFlights = some last ∧ last.session.accepted = [0, 1, 2] ∧
      last.session.accepted =
        (starts last.history).map Prod.snd ++ last.session.client.scheduleQueue :=
  ⟨_, rfl, rfl, @startedInOrder_of_run _ _ directEnv ⟨[plainRequest, plainRequest, plainRequest]⟩
    (SimpleRateLimiter.new 2) threeFlights _ rfl⟩

theorem startedPerSecond_of_run_threeFlights : ∃ last,
    run (step SimpleRateLimiter.takeRateSlotWithTime directEnv)
      (initialized ⟨[plainRequest, plainRequest, plainRequest]⟩ (SimpleRateLimiter.new 2))
      threeFlights = some last ∧
      starts last.history = [(5, 0), (5, 1), (6, 2)] ∧
      (((starts last.history).map Prod.fst).count 5 : Int) =
        min (((slotCalls last.history).map Prod.fst).count 5 : Int) (max 1 2) :=
  ⟨_, rfl, by decide, @startedPerSecond_of_run directEnv 2
    ⟨[plainRequest, plainRequest, plainRequest]⟩ threeFlights _ rfl (by decide) (by decide) 5⟩

end Flight

end plusfish

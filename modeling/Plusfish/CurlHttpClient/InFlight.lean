import Plusfish.CurlHttpClient.Protocol
import Plusfish.Library.History
import Plusfish.SimpleRateLimiter

open history memory transition

namespace plusfish

/-- What the client does about transfers. A transfer that is added and a call of `MultiPerform`
    are noted with the number of transfers that are running then. -/
inductive FlightEvent where
  | slot (time : Int) (granted : Bool)
  | popped (req : Nat)
  | added (req : Nat) (running : ℕ)
  | performed (reported : Int) (running : ℕ) (fails : Bool)

/-- The client with its rate limiter. -/
structure Flight (Limiter : Type) where
  session : CurlSession
  limiter : Limiter
  history : List FlightEvent := []

/-- A call of the client, something that the code around it does, or something that happens to a
    transfer. The calls of `StartNewRequests` are given the time and libcurl's answers for each
    slot that is left. -/
inductive FlightOp where
  | enable
  | disable
  | registerDefaultHeader (domain name value : Bytes)
  | act (action : HandlerAction)
  | transfer (event : TransferEvent)
  | startNewRequests (times : ℕ → Int) (curls : ℕ → CurlStart)
  | poll (input : PollInput)

namespace Flight

open CurlHttpClient

variable {Limiter : Type} (takeRateSlot : Limiter → Int → Bool × Limiter) (env : CurlEnv)

/-- The number of transfers that are running. -/
def running (self : Flight Limiter) : ℕ := self.session.multi.transfers.length

def takeSlot (self : Flight Limiter) (time : Int) : Bool × Flight Limiter :=
  let (granted, limiter) := takeRateSlot self.limiter time
  (granted, { self with limiter, history := self.history ++ [.slot time granted] })

def popRequest (self : Flight Limiter) (req : Nat) : Flight Limiter :=
  { self with session := self.session.popRequest, history := self.history ++ [.popped req] }

def multiAddHandle (self : Flight Limiter) (handle : CurlHandleData) : Flight Limiter :=
  let session := self.session.multiAddHandle handle
  { self with
    session
    history := self.history ++ [.added handle.request session.multi.transfers.length] }

def multiPerform (self : Flight Limiter) (perform : CurlPerform) : Flight Limiter :=
  let session := self.session.multiPerform env perform
  { self with
    session
    history := self.history ++
      [.performed perform.runningHandles session.multi.transfers.length perform.fails] }

/-- What the loop of `StartNewRequests` does for a request that it has taken from the queue:
    whether the loop goes on. -/
def startRequest (self : Flight Limiter) (curl : CurlStart) (req : Nat) : Bool × Flight Limiter :=
  if !newHandle env curl (deref self.session.mem req) then (false, self)
  else
    match self.session.client.setRequestHeaders curl (deref self.session.mem req) with
    | none => (false, self)
    | some headerList =>
      if curl.setOptFails .private || curl.multiAddHandleFails then (false, self)
      else
        let handle := self.session.handleFor req headerList
        let self := (self.multiAddHandle handle).multiPerform env curl.perform
        if curl.perform.fails then
          (false, { self with session := self.session.easyCleanup handle })
        else (true, { self with session := self.session.addRunningHandle handle })

/-- The loop of `StartNewRequests`. -/
def startLoop (times : ℕ → Int) (curls : ℕ → CurlStart) :
    (maxToAdd : ℕ) → Flight Limiter → Bool × Flight Limiter
  | 0, self => (true, self)
  | maxToAdd + 1, self =>
    match self.session.client.scheduleQueue with
    | [] => (true, self)
    | req :: _ =>
      match self.takeSlot takeRateSlot (times maxToAdd) with
      | (false, self) => (true, self)
      | (true, self) =>
        match (self.popRequest req).startRequest env (curls maxToAdd) req with
        | (false, self) => (false, self)
        | (true, self) => startLoop times curls maxToAdd self

def startNewRequests (self : Flight Limiter) (times : ℕ → Int) (curls : ℕ → CurlStart) :
    Bool × Flight Limiter :=
  if !self.session.client.enabled then (false, self)
  else if self.session.client.curlHandleCnt ≥ env.maxActiveHandlesAllowed then (true, self)
  else
    self.startLoop takeRateSlot env times curls
      (env.maxActiveHandlesAllowed - self.session.client.curlHandleCnt).toNat

/-- `Poll`, in which `MultiPerform` is called if there are handles and `Select` neither fails nor
    comes back with nothing. -/
def poll (self : Flight Limiter) (input : PollInput) : Option (Flight Limiter) :=
  let performs := !self.session.client.runningHandles.isEmpty && input.select != 0 &&
    input.select != -1
  (self.session.poll env input).map fun result =>
    { self with
      session := result.2
      history :=
        if performs then (self.multiPerform env input.perform).history else self.history }

def step (self : Flight Limiter) : FlightOp → Option (Flight Limiter)
  | .enable => (self.session.step env .enable).map ({ self with session := · })
  | .disable => (self.session.step env .disable).map ({ self with session := · })
  | .registerDefaultHeader domain name value =>
    (self.session.step env (.registerDefaultHeader domain name value)).map
      ({ self with session := · })
  | .act action => (self.session.step env (.act action)).map ({ self with session := · })
  | .transfer event => some { self with session := self.session.onEvent env event }
  | .startNewRequests times curls => some (self.startNewRequests takeRateSlot env times curls).2
  | .poll input => self.poll env input

/-- An initialized client that has done nothing yet. -/
def initialized (mem : Heap Request) (limiter : Limiter) : Flight Limiter :=
  { session := CurlSession.initialized mem, limiter }

end Flight

/-- A call of `MultiPerform` does not fail, and reports the number of transfers that are still
    running. -/
def FlightEvent.Reports : FlightEvent → Prop
  | .performed reported running fails => fails = false ∧ reported = running
  | _ => True

instance (event : FlightEvent) : Decidable event.Reports :=
  match event with
  | .performed _ _ _ => inferInstanceAs (Decidable (_ ∧ _))
  | .slot _ _ | .popped _ | .added _ _ => .isTrue trivial

/-- A slot was granted and is not used yet. -/
def SlotPending (history : List FlightEvent) : Prop :=
  ∃ time, history.getLast? = some (.slot time true)

/-- What may come after these events: a request is taken from the queue directly after a slot was
    granted for it, and a transfer is added directly after its request was taken. -/
def InTurn (past : List FlightEvent) : FlightEvent → Prop
  | .popped _ => SlotPending past
  | .added req _ => ∃ earlier time, past = earlier ++ [.slot time true, .popped req]
  | _ => ¬ SlotPending past

/-- Every granted slot is used for one request, and every request is started with one slot. -/
structure OneSlotEach (history : List FlightEvent) : Prop where
  inTurn : Follows InTurn [] history
  used : ¬ SlotPending history

namespace OneSlotEach

variable {history : List FlightEvent}

theorem slotPending_append_singleton {event : FlightEvent} :
    SlotPending (history ++ [event]) ↔ ∃ time, event = .slot time true := by
  simp [SlotPending]

/-- After an event that was in turn, and grants no slot, there is none to use. -/
theorem of_inTurn {event : FlightEvent} (hpast : Follows InTurn [] history)
    (hturn : InTurn history event) (hused : ∀ time, event ≠ .slot time true) :
    OneSlotEach (history ++ [event]) := by
  refine ⟨follows_append.mpr ⟨hpast, follows_singleton.mpr hturn⟩, ?_⟩
  rw [slotPending_append_singleton]
  rintro ⟨time, heq⟩
  exact hused time heq

theorem refused (h : OneSlotEach history) (time : Int) :
    OneSlotEach (history ++ [FlightEvent.slot time false]) :=
  of_inTurn h.inTurn h.used fun _ heq => by cases heq

theorem performed (h : OneSlotEach history) (reported : Int) (running : ℕ) (fails : Bool) :
    OneSlotEach (history ++ [FlightEvent.performed reported running fails]) :=
  of_inTurn h.inTurn h.used fun _ heq => by cases heq

theorem popped (h : OneSlotEach history) (time : Int) (req : Nat) :
    OneSlotEach (history ++ [FlightEvent.slot time true] ++ [FlightEvent.popped req]) := by
  have hgranted : Follows InTurn [] (history ++ [FlightEvent.slot time true]) :=
    follows_append.mpr ⟨h.inTurn, follows_singleton.mpr h.used⟩
  exact of_inTurn hgranted (slotPending_append_singleton.mpr ⟨time, rfl⟩) fun _ heq => by cases heq

theorem added {time : Int} {req : Nat}
    (h : OneSlotEach (history ++ [FlightEvent.slot time true] ++ [FlightEvent.popped req]))
    (running : ℕ) :
    OneSlotEach (history ++ [FlightEvent.slot time true] ++ [FlightEvent.popped req] ++
      [FlightEvent.added req running]) := by
  refine of_inTurn h.inTurn ⟨history, time, ?_⟩ fun _ heq => by cases heq
  rw [List.append_assoc]
  rfl

end OneSlotEach

namespace CurlSession

variable {env : CurlEnv} {self : CurlSession}

theorem onEvent_transfers_length (event : TransferEvent) :
    (self.onEvent env event).multi.transfers.length ≤ self.multi.transfers.length := by
  cases event with
  | data easyHandle buffer size multiplier =>
    simp only [onEvent]
    split <;> exact Nat.le_refl _
  | done easyHandle =>
    simp only [onEvent]
    split
    · exact Nat.le_refl _
    · exact List.length_filter_le _ _

/-- Performing transfers starts none. -/
theorem multiPerform_transfers_length (perform : CurlPerform) :
    (self.multiPerform env perform).multi.transfers.length ≤ self.multi.transfers.length := by
  have hevents (events : List TransferEvent) :
      (events.foldl (onEvent env) self).multi.transfers.length ≤ self.multi.transfers.length := by
    induction events generalizing self with
    | nil => exact Nat.le_refl _
    | cons event events ih => exact Nat.le_trans ih (onEvent_transfers_length event)
  exact hevents perform.events

theorem act_curlHandleCnt (action : HandlerAction) :
    (self.act action).client.curlHandleCnt = self.client.curlHandleCnt := by
  cases action with
  | schedule req handler =>
    cases handler with
    | none =>
      simp only [act, schedule]
      split <;> rfl
    | some handler =>
      simp only [act, scheduleWith, schedule]
      split <;> rfl
  | update f => rfl

theorem react_curlHandleCnt (actions : List HandlerAction) :
    (actions.foldl act self).client.curlHandleCnt = self.client.curlHandleCnt := by
  induction actions generalizing self with
  | nil => rfl
  | cons action actions ih => exact ih.trans (act_curlHandleCnt action)

/-- Finishing a transfer that is done leaves the others alone, and the count of them. -/
theorem finish_keeps {handle : CurlHandleData} {input : DoneInput} {next : CurlSession}
    (hnext : self.finish env handle input = some next) :
    next.multi = self.multi ∧ next.client.curlHandleCnt = self.client.curlHandleCnt := by
  obtain ⟨mem, heq, _⟩ := noteTransfer_eq env self handle input
  unfold finish at hnext
  rw [heq] at hnext
  dsimp only at hnext
  split at hnext
  · cases hnext
  · cases hnext
    exact ⟨rfl, rfl⟩
  · obtain ⟨handler, _, rfl⟩ := Option.map_eq_some_iff.mp hnext
    exact ⟨(SameTransfers.react _ _).multi, react_curlHandleCnt _⟩

theorem processMessages_keeps {messages : List CurlHandleData} {inputs : List DoneInput}
    {last : CurlSession} (hlast : processMessages env messages inputs self = some last) :
    last.multi = self.multi ∧ last.client.curlHandleCnt = self.client.curlHandleCnt := by
  induction messages generalizing self inputs with
  | nil =>
    cases hlast
    exact ⟨rfl, rfl⟩
  | cons handle messages ih =>
    obtain ⟨next, hnext, hrest⟩ := Option.bind_eq_some_iff.mp hlast
    obtain ⟨hmulti, hcount⟩ := finish_keeps hnext
    obtain ⟨hmulti', hcount'⟩ := ih hrest
    exact ⟨hmulti'.trans hmulti, hcount'.trans hcount⟩

end CurlSession

namespace Flight

open CurlSession

variable {Limiter : Type} {takeRateSlot : Limiter → Int → Bool × Limiter} {env : CurlEnv}
  {self next : Flight Limiter}

theorem takeSlot_eq {time : Int} {granted : Bool} {taken : Flight Limiter}
    (htake : self.takeSlot takeRateSlot time = (granted, taken)) :
    taken.session = self.session ∧ taken.history = self.history ++ [.slot time granted] := by
  obtain ⟨hgranted, htaken⟩ := Prod.ext_iff.mp htake
  dsimp only at hgranted htaken
  rw [← hgranted, ← htaken]
  exact ⟨rfl, rfl⟩

/-- The loop does what that of the client does with the slots that were granted. -/
theorem startLoop_session (takeRateSlot : Limiter → Int → Bool × Limiter) (env : CurlEnv)
    (self : Flight Limiter) (times : ℕ → Int) (curls : ℕ → CurlStart) (maxToAdd : ℕ) :
    ∃ starts, CurlSession.startLoop env starts maxToAdd self.session =
      ((self.startLoop takeRateSlot env times curls maxToAdd).1,
        (self.startLoop takeRateSlot env times curls maxToAdd).2.session) := by
  induction maxToAdd generalizing self with
  | zero => exact ⟨[], rfl⟩
  | succ maxToAdd ih =>
    rw [startLoop]
    split
    · exact ⟨[], rfl⟩
    · rename_i req _ hqueue
      split
      · rename_i htake
        exact ⟨[], by rw [(takeSlot_eq htake).1]; rfl⟩
      · rename_i taken htake
        have hsession : self.session.popRequest = (taken.popRequest req).session := by
          rw [← (takeSlot_eq htake).1]
          rfl
        have hroom : ¬ ((maxToAdd + 1 : ℕ) : Int) ≤ 0 := by omega
        have hnext : ((maxToAdd + 1 : ℕ) : Int) - 1 = maxToAdd := by omega
        obtain ⟨starts, hstarts⟩ :=
          ih ((taken.popRequest req).startRequest env (curls maxToAdd) req).2
        refine ⟨curls maxToAdd :: starts, ?_⟩
        rw [CurlSession.startLoop]
        simp only [hqueue, hroom, if_false, hsession, hnext]
        generalize taken.popRequest req = popped at hstarts
        unfold startRequest at hstarts ⊢
        split
        · rfl
        · rename_i hhandle
          rw [if_neg hhandle] at hstarts
          cases hheaders : popped.session.client.setRequestHeaders (curls maxToAdd)
              (deref popped.session.mem req) with
          | none => rfl
          | some headerList =>
            simp only [hheaders] at hstarts ⊢
            split
            · rfl
            · rename_i hadd
              rw [if_neg hadd] at hstarts
              cases hfails : (curls maxToAdd).perform.fails with
              | true => rfl
              | false =>
                simp only [hfails] at hstarts
                exact hstarts

/-- A step is a step of the client, or something that happens to a transfer. -/
theorem step_session {op : FlightOp} (hnext : self.step takeRateSlot env op = some next) :
    (∃ op', self.session.step env op' = some next.session) ∨
      ∃ event, next.session = self.session.onEvent env event := by
  cases op with
  | enable =>
    cases hnext
    exact .inl ⟨.enable, rfl⟩
  | disable =>
    cases hnext
    exact .inl ⟨.disable, rfl⟩
  | registerDefaultHeader domain name value =>
    cases hnext
    exact .inl ⟨.registerDefaultHeader domain name value, rfl⟩
  | act action =>
    cases hnext
    exact .inl ⟨.act action, rfl⟩
  | transfer event =>
    cases hnext
    exact .inr ⟨event, rfl⟩
  | startNewRequests times curls =>
    cases hnext
    obtain ⟨starts, hstarts⟩ := startLoop_session takeRateSlot env self times curls
      (env.maxActiveHandlesAllowed - self.session.client.curlHandleCnt).toNat
    refine .inl ⟨.startNewRequests starts, ?_⟩
    rw [CurlSession.step, CurlSession.startNewRequests, startNewRequests]
    split
    · rfl
    · split
      · rfl
      · rename_i hroom
        rw [Int.toNat_of_nonneg (by omega)] at hstarts
        rw [hstarts]
  | poll input =>
    obtain ⟨⟨count, last⟩, hpoll, rfl⟩ := Option.map_eq_some_iff.mp hnext
    refine .inl ⟨.poll input, ?_⟩
    rw [CurlSession.step, hpoll]
    rfl

/-- No more transfers are running than before, and the client has counted none and noted nothing
    in between. -/
structure NoMore (before after : Flight Limiter) : Prop where
  running : after.running ≤ before.running
  curlHandleCnt : after.session.client.curlHandleCnt = before.session.client.curlHandleCnt
  history : after.history = before.history

theorem poll_noMore {input : PollInput} (hnext : self.poll env input = some next) :
    NoMore self next ∨ NoMore (self.multiPerform env input.perform) next := by
  obtain ⟨⟨count, last⟩, hpoll, rfl⟩ := Option.map_eq_some_iff.mp hnext
  unfold CurlSession.poll at hpoll
  by_cases hempty : self.session.client.runningHandles.isEmpty = true
  · rw [if_pos hempty] at hpoll
    cases hpoll
    exact .inl ⟨Nat.le_refl _, rfl, by simp [hempty]⟩
  rw [if_neg hempty] at hpoll
  by_cases hnothing : input.select = 0
  · rw [if_pos hnothing] at hpoll
    cases hpoll
    exact .inl ⟨Nat.le_refl _, rfl, by simp [hnothing]⟩
  rw [if_neg hnothing] at hpoll
  obtain ⟨_, hprocess, heq⟩ := Option.map_eq_some_iff.mp hpoll
  cases heq
  obtain ⟨hmulti, hcount⟩ := processMessages_keeps hprocess
  have hrunning : last.multi.transfers.length =
      (self.session.pollMessages env input).2.multi.transfers.length :=
    congrArg (·.transfers.length) hmulti
  replace hcount : last.client.curlHandleCnt =
      (self.session.pollMessages env input).2.client.curlHandleCnt := hcount
  unfold pollMessages at hrunning hcount
  by_cases herror : input.select = -1
  · rw [if_pos herror] at hrunning hcount
    exact .inl ⟨hrunning.le, hcount, by simp [herror]⟩
  · rw [if_neg herror] at hrunning hcount
    exact .inr ⟨hrunning.le, hcount, if_pos (by simpa [hnothing, herror] using hempty)⟩

/-- A request is not started, or its transfer is added and `MultiPerform` is called once. -/
theorem startRequest_noMore (env : CurlEnv) (self : Flight Limiter) (curl : CurlStart)
    (req : Nat) :
    (self.startRequest env curl req).2 = self ∨ ∃ handle, handle.request = req ∧
      NoMore ((self.multiAddHandle handle).multiPerform env curl.perform)
        (self.startRequest env curl req).2 := by
  unfold startRequest
  split
  · exact .inl rfl
  · split
    · exact .inl rfl
    · rename_i headerList _
      split
      · exact .inl rfl
      · refine .inr ⟨self.session.handleFor req headerList, rfl, ?_⟩
        dsimp only
        split
        · exact ⟨List.length_filter_le _ _, rfl, rfl⟩
        · exact ⟨Nat.le_refl _, rfl, rfl⟩

/-- Every call of `MultiPerform` reported what was running. -/
def Reported (history : List FlightEvent) : Prop := ∀ event ∈ history, event.Reports

theorem Reported.of_append {first second : List FlightEvent} (h : Reported (first ++ second)) :
    Reported first ∧ Reported second :=
  List.forall_mem_append.mp h

/-- There is room for some transfers more, and there was room for every one that was added. -/
structure Capped (maxActive : Int) (room : ℕ) (flight : Flight Limiter) : Prop where
  room : (flight.running : Int) + room ≤ maxActive
  added : ∀ req (running : ℕ), .added req running ∈ flight.history → (running : Int) ≤ maxActive

/-- What holds between two calls of `MultiPerform`, as far as they reported what was running. -/
structure InFlight (maxActive : Int) (room : ℕ) (flight : Flight Limiter) : Prop where
  slots : OneSlotEach flight.history
  counted : Reported flight.history → (flight.running : Int) ≤ flight.session.client.curlHandleCnt
  capped : Reported flight.history → Capped maxActive room flight

variable {maxActive : Int} {room : ℕ}

theorem InFlight.of_noMore (h : InFlight maxActive room self) (hless : NoMore self next) :
    InFlight maxActive room next := by
  have hrunning := hless.running
  refine ⟨hless.history ▸ h.slots, fun hreported => ?_, fun hreported => ⟨?_, ?_⟩⟩
  · have hcounted := h.counted (hless.history ▸ hreported)
    rw [hless.curlHandleCnt]
    omega
  · have hroom := (h.capped (hless.history ▸ hreported)).room
    omega
  · rw [hless.history] at hreported ⊢
    exact (h.capped hreported).added

theorem InFlight.room_le (h : InFlight maxActive room self) {less : ℕ} (hless : less ≤ room) :
    InFlight maxActive less self := by
  refine ⟨h.slots, h.counted, fun hreported => ⟨?_, (h.capped hreported).added⟩⟩
  have hroom := (h.capped hreported).room
  omega

/-- A call of `MultiPerform` that reports what is running makes the count right. -/
theorem multiPerform_inFlight (hslots : OneSlotEach self.history)
    (hcapped : Reported self.history → Capped maxActive room self) (perform : CurlPerform) :
    InFlight maxActive room (self.multiPerform env perform) := by
  refine ⟨hslots.performed _ _ _, fun hreported => ?_, fun hreported => ⟨?_, ?_⟩⟩
  · obtain ⟨_, heq⟩ := hreported.of_append.2 _ (List.mem_singleton_self _)
    exact Int.le_of_eq heq.symm
  · have hroom := (hcapped hreported.of_append.1).room
    have hrunning : (self.multiPerform env perform).running ≤ self.running :=
      multiPerform_transfers_length perform
    omega
  · intro req running hmem
    rcases List.mem_append.mp hmem with hold | hnew
    · exact (hcapped hreported.of_append.1).added req running hold
    · cases List.mem_singleton.mp hnew

theorem Capped.multiAddHandle (h : Capped maxActive (room + 1) self) (handle : CurlHandleData) :
    Capped maxActive room (self.multiAddHandle handle) := by
  have hroom := h.room
  have hrunning : (self.multiAddHandle handle).running = self.running + 1 :=
    List.length_append
  refine ⟨by omega, fun req running hmem => ?_⟩
  rcases List.mem_append.mp hmem with hold | hnew
  · exact h.added req running hold
  · cases List.mem_singleton.mp hnew
    change ((self.multiAddHandle handle).running : Int) ≤ maxActive
    omega

/-- A slot that is refused ends the loop. -/
theorem InFlight.takeSlot_refused (h : InFlight maxActive room self) {time : Int}
    {taken : Flight Limiter} (htake : self.takeSlot takeRateSlot time = (false, taken)) :
    InFlight maxActive room taken := by
  obtain ⟨hsession, hhistory⟩ := takeSlot_eq htake
  have hrunning : taken.running = self.running := congrArg (·.multi.transfers.length) hsession
  refine ⟨hhistory ▸ h.slots.refused time, fun hreported => ?_, fun hreported => ⟨?_, ?_⟩⟩ <;>
    rw [hhistory] at hreported
  · rw [hrunning, hsession]
    exact h.counted hreported.of_append.1
  · rw [hrunning]
    exact (h.capped hreported.of_append.1).room
  · intro req running hmem
    refine (h.capped hreported.of_append.1).added req running ?_
    simpa [hhistory] using hmem

/-- A slot that is granted is used for one request. -/
theorem InFlight.startRequest (env : CurlEnv) (h : InFlight maxActive (room + 1) self) {time : Int}
    {taken : Flight Limiter} (htake : self.takeSlot takeRateSlot time = (true, taken))
    (curl : CurlStart) (req : Nat) :
    InFlight maxActive room ((taken.popRequest req).startRequest env curl req).2 := by
  obtain ⟨hsession, htaken⟩ := takeSlot_eq htake
  have hhistory : (taken.popRequest req).history =
      self.history ++ [.slot time true] ++ [.popped req] := by
    rw [← htaken]
    rfl
  have hrunning : (taken.popRequest req).running = self.running :=
    congrArg (·.multi.transfers.length) hsession
  have hslots := h.slots.popped time req
  rw [← hhistory] at hslots
  have hbefore (hreported : Reported (taken.popRequest req).history) : Reported self.history := by
    rw [hhistory] at hreported
    exact hreported.of_append.1.of_append.1
  have hcapped (hreported : Reported (taken.popRequest req).history) :
      Capped maxActive (room + 1) (taken.popRequest req) := by
    refine ⟨?_, fun other running hmem => ?_⟩
    · rw [hrunning]
      exact (h.capped (hbefore hreported)).room
    · refine (h.capped (hbefore hreported)).added other running ?_
      simpa [hhistory] using hmem
  rcases startRequest_noMore env (taken.popRequest req) curl req with
    hnone | ⟨handle, rfl, hless⟩
  · rw [hnone]
    have hpopped : InFlight maxActive (room + 1) (taken.popRequest req) := by
      refine ⟨hslots, fun hreported => ?_, hcapped⟩
      have hcounted := h.counted (hbefore hreported)
      rw [← hrunning, ← hsession] at hcounted
      exact hcounted
    exact hpopped.room_le (Nat.le_succ room)
  · refine (multiPerform_inFlight ?_ (fun hreported => ?_) curl.perform).of_noMore hless
    · have hadded := (h.slots.popped time handle.request).added
      rw [← hhistory] at hadded
      exact hadded _
    · exact (hcapped hreported.of_append.1).multiAddHandle handle

theorem InFlight.startLoop (h : InFlight maxActive room self) (times : ℕ → Int)
    (curls : ℕ → CurlStart) :
    InFlight maxActive 0 (self.startLoop takeRateSlot env times curls room).2 := by
  induction room generalizing self with
  | zero => exact h
  | succ room ih =>
    rw [Flight.startLoop]
    split
    · exact h.room_le (Nat.zero_le _)
    · rename_i req _ _
      split
      · rename_i htake
        exact (h.takeSlot_refused htake).room_le (Nat.zero_le _)
      · rename_i taken htake
        have hstarted := h.startRequest env htake (curls room) req
        split
        · rename_i hstart
          rw [hstart] at hstarted
          exact hstarted.room_le (Nat.zero_le _)
        · rename_i hstart
          rw [hstart] at hstarted
          exact ih hstarted

theorem InFlight.startNewRequests (h : InFlight env.maxActiveHandlesAllowed 0 self)
    (times : ℕ → Int) (curls : ℕ → CurlStart) :
    InFlight env.maxActiveHandlesAllowed 0
      (self.startNewRequests takeRateSlot env times curls).2 := by
  unfold Flight.startNewRequests
  split
  · exact h
  · split
    · exact h
    · -- The count is at least what is running, so that the room it leaves is there.
      refine InFlight.startLoop ⟨h.slots, h.counted, fun hreported => ⟨?_, ?_⟩⟩ times curls
      · have hcounted := h.counted hreported
        omega
      · exact (h.capped hreported).added

theorem InFlight.poll (h : InFlight maxActive 0 self) {input : PollInput}
    (hnext : self.poll env input = some next) : InFlight maxActive 0 next := by
  rcases poll_noMore hnext with hless | hless
  · exact h.of_noMore hless
  · exact (multiPerform_inFlight h.slots h.capped input.perform).of_noMore hless

theorem InFlight.step {op : FlightOp} (h : InFlight env.maxActiveHandlesAllowed 0 self)
    (hnext : self.step takeRateSlot env op = some next) :
    InFlight env.maxActiveHandlesAllowed 0 next := by
  cases op with
  | enable =>
    cases hnext
    exact h.of_noMore ⟨Nat.le_refl _, rfl, rfl⟩
  | disable =>
    cases hnext
    exact h.of_noMore ⟨Nat.le_refl _, rfl, rfl⟩
  | registerDefaultHeader domain name value =>
    cases hnext
    refine h.of_noMore ⟨Nat.le_refl _, ?_, rfl⟩
    unfold CurlHttpClient.registerDefaultHeader
    split <;> rfl
  | act action =>
    cases hnext
    refine h.of_noMore ⟨?_, act_curlHandleCnt action, rfl⟩
    exact (congrArg (·.transfers.length) (SameTransfers.act self.session action).multi).le
  | transfer event =>
    cases hnext
    refine h.of_noMore ⟨onEvent_transfers_length event, ?_, rfl⟩
    obtain ⟨mem, multi, heq⟩ := onEvent_eq env self.session event
    exact congrArg (·.client.curlHandleCnt) heq
  | startNewRequests times curls =>
    cases hnext
    exact h.startNewRequests times curls
  | poll input => exact h.poll hnext

/-- In every run in which `MultiPerform` does not fail and reports what is running: no more
    transfers are ever running than are allowed, and every request is started with one slot of
    the rate limiter. -/
theorem inFlight_of_run {mem : Heap Request} {limiter : Limiter} {ops : List FlightOp}
    {last : Flight Limiter} (hallowed : 0 ≤ env.maxActiveHandlesAllowed)
    (hrun : run (step takeRateSlot env) (initialized mem limiter) ops = some last)
    (hreported : Reported last.history) :
    (last.running : Int) ≤ env.maxActiveHandlesAllowed ∧
      (∀ req (running : ℕ), .added req running ∈ last.history →
        (running : Int) ≤ env.maxActiveHandlesAllowed) ∧
      OneSlotEach last.history := by
  have hstart : InFlight env.maxActiveHandlesAllowed 0 (initialized mem limiter) := by
    refine ⟨⟨trivial, fun ⟨_, h⟩ => by cases h⟩, fun _ => Int.le_refl 0, fun _ => ⟨hallowed, ?_⟩⟩
    intro req running hmem
    cases hmem
  have hlast : InFlight env.maxActiveHandlesAllowed 0 last :=
    run_preserves (fun _ _ _ h hstep => h.step hstep) hstart hrun
  have hcapped := hlast.capped hreported
  exact ⟨by simpa using hcapped.room, hcapped.added, hlast.slots⟩

/-- Three requests are scheduled where two transfers may run at a time. The third one is started
    when the first one is done. -/
def cappedFlights : List FlightOp :=
  [.act (.schedule 0 (some .crawler)), .act (.schedule 1 (some .crawler)),
    .act (.schedule 2 (some .crawler)),
    .startNewRequests (fun _ => 5)
      (fun maxToAdd => { perform := { runningHandles := 2 - maxToAdd } }),
    .startNewRequests (fun _ => 5) (fun _ => {}), .transfer (.done 0),
    .poll { select := 1, perform := { runningHandles := 1 } },
    .startNewRequests (fun _ => 5) (fun _ => { perform := { runningHandles := 2 } })]

theorem inFlight_of_run_cappedFlights : ∃ last,
    run (step SimpleRateLimiter.takeRateSlotWithTime
        { directEnv with maxActiveHandlesAllowed := 2 })
      (initialized ⟨[plainRequest, plainRequest, plainRequest]⟩ (SimpleRateLimiter.new 3))
      cappedFlights = some last ∧
    last.history =
      [.slot 5 true, .popped 0, .added 0 1, .performed 1 1 false,
        .slot 5 true, .popped 1, .added 1 2, .performed 2 2 false, .performed 1 1 false,
        .slot 5 true, .popped 2, .added 2 2, .performed 2 2 false] ∧
    last.running = 2 ∧ (last.running : Int) ≤ 2 ∧ OneSlotEach last.history := by
  refine ⟨_, rfl, rfl, rfl, ?_⟩
  obtain ⟨hrunning, _, hslots⟩ := @inFlight_of_run _ SimpleRateLimiter.takeRateSlotWithTime
    { directEnv with maxActiveHandlesAllowed := 2 } ⟨[plainRequest, plainRequest, plainRequest]⟩
    (SimpleRateLimiter.new 3) cappedFlights _ (by decide) rfl (by unfold Reported; decide)
  exact ⟨hrunning, hslots⟩

end Flight

end plusfish

import Plusfish.CurlHttpClient.Pacing

open memory transition

namespace plusfish

namespace CurlSession

variable {env : CurlEnv} {starting processing : List CurlHandleData} {self next : CurlSession}

/-- The session as it were had the handlers of these requests been called back too. -/
def withLost (self : CurlSession) (lost : List Nat) : CurlSession :=
  { self with callbacks := lost.map (·, RequestHandler.crawler) ++ self.callbacks }

/-- Every accepted request is queued, on the wire, called back or lost. -/
def Accounted (starting processing : List CurlHandleData) (self : CurlSession) : Prop :=
  ∃ lost, Tracked starting processing (self.withLost lost)

theorem onEvent_withLost (lost : List Nat) (event : TransferEvent) :
    (self.withLost lost).onEvent env event = (self.onEvent env event).withLost lost := by
  cases event with
  | data easyHandle =>
    simp only [onEvent, withLost]
    cases self.multi.transfers.find? (·.easyHandle == easyHandle) <;> rfl
  | done easyHandle =>
    simp only [onEvent, withLost]
    cases self.multi.transfers.find? (·.easyHandle == easyHandle) <;> rfl

theorem SameTransfers.withLost (h : SameTransfers self next) (lost : List Nat) :
    SameTransfers (self.withLost lost) (next.withLost lost) :=
  ⟨h.running, h.multi, congrArg (lost.map (·, RequestHandler.crawler) ++ ·) h.callbacks, h.requests⟩

/-- One more request is lost. -/
theorem Tracked.lose {lost : List Nat} {req : Nat}
    (h : Tracked starting processing { self with
      callbacks := (self.withLost lost).callbacks ++ [(req, .crawler)] }) :
    Tracked starting processing (self.withLost (req :: lost)) := by
  refine ⟨fun other => ?_, h.handles, h.distinct, h.bound⟩
  have hcount := h.requests other
  simp only [accepted, withLost, List.countP_append, List.map_cons, List.countP_cons,
    List.countP_nil]
    at hcount ⊢
  omega

namespace Accounted

theorem onEvent (h : Accounted starting processing self) (event : TransferEvent) :
    Accounted starting processing (self.onEvent env event) := by
  obtain ⟨lost, htracked⟩ := h
  refine ⟨lost, ?_⟩
  rw [← onEvent_withLost]
  exact htracked.onEvent event

theorem multiPerform (h : Accounted starting processing self) (perform : CurlPerform) :
    Accounted starting processing (self.multiPerform env perform) := by
  have hevents (events : List TransferEvent) :
      Accounted starting processing (events.foldl (CurlSession.onEvent env) self) := by
    induction events generalizing self with
    | nil => exact h
    | cons event events ih => exact ih (h.onEvent event)
  obtain ⟨lost, htracked⟩ := hevents perform.events
  exact ⟨lost, htracked.requests, htracked.handles, htracked.distinct, htracked.bound⟩

/-- A request that is taken from the queue and not started is lost. -/
theorem popRequest (h : Accounted [] [] self) {req : Nat} {queue : List Nat}
    (hqueue : self.client.scheduleQueue = req :: queue) : Accounted [] [] self.popRequest := by
  obtain ⟨lost, htracked⟩ := h
  refine ⟨req :: lost, Tracked.lose
    ⟨fun other => ?_, htracked.handles, htracked.distinct, htracked.bound⟩⟩
  have hcount := htracked.requests other
  simp only [accepted, withLost, CurlSession.popRequest, hqueue, List.tail_cons, List.count_cons,
    List.countP_append, List.countP_cons, List.countP_nil] at hcount ⊢
  omega

theorem multiAddHandle (h : Accounted [] [] self) {req : Nat} {queue : List Nat}
    (hqueue : self.client.scheduleQueue = req :: queue) (headerList : List Bytes) :
    Accounted [self.handleFor req headerList] []
      (self.popRequest.multiAddHandle (self.handleFor req headerList)) := by
  obtain ⟨lost, htracked⟩ := h
  exact ⟨lost, htracked.multiAddHandle hqueue headerList⟩

theorem addRunningHandle {handle : CurlHandleData} (h : Accounted [handle] processing self) :
    Accounted [] processing (self.addRunningHandle handle) := by
  obtain ⟨lost, htracked⟩ := h
  exact ⟨lost, htracked.addRunningHandle⟩

/-- A handle that is not to run after all is destroyed, and libcurl forgets it. -/
theorem easyCleanup {handle : CurlHandleData} (h : Accounted [handle] [] self) :
    Accounted [] [] (self.easyCleanup handle) := by
  obtain ⟨lost, htracked⟩ := h
  have hhandles := htracked.handles
  have hdistinct := htracked.distinct
  rw [List.append_nil] at hhandles
  have hsplit := keyed.perm_cons_filter hdistinct
    (List.mem_append_right self.client.runningHandles (List.mem_singleton_self handle))
  have hrunning : self.client.runningHandles.Perm
      ((self.client.runningHandles ++ [handle]).filter (·.easyHandle != handle.easyHandle)) :=
    ((List.perm_append_singleton handle _).symm.trans hsplit).cons_inv
  refine ⟨handle.request :: lost, Tracked.lose ⟨fun other => ?_, ?_, ?_, ?_⟩⟩
  · have hcount := htracked.requests other
    simp only [accepted, withLost, CurlSession.easyCleanup, List.append_nil, List.countP_append,
      List.countP_cons, List.countP_nil] at hcount ⊢
    omega
  · have hrest := hrunning.trans (hhandles.filter (·.easyHandle != handle.easyHandle))
    rw [List.filter_append] at hrest
    simp only [CurlSession.easyCleanup, List.append_nil]
    exact hrest
  · rw [List.append_nil]
    rw [List.map_append] at hdistinct
    exact hdistinct.of_append_left
  · intro other hother
    rw [List.append_nil] at hother
    exact htracked.bound other (List.mem_append_left _ hother)

/-- A request whose transfer is done is called back, or lost. -/
theorem finish {handle : CurlHandleData} {messages : List CurlHandleData} {input : DoneInput}
    (h : Accounted [] (handle :: messages) self)
    (hnext : self.finish env handle input = some next) : Accounted [] messages next := by
  obtain ⟨lost, htracked⟩ := h
  obtain ⟨mem, heq, _⟩ := noteTransfer_eq env self handle input
  unfold CurlSession.finish at hnext
  rw [heq] at hnext
  dsimp only at hnext
  split at hnext
  · cases hnext
  · rename_i done _
    cases hnext
    refine ⟨handle.request :: lost, Tracked.lose ?_⟩
    exact htracked.finish (mem.modify handle.request fun _ => done) .crawler
      (.of_mem _ (mem.modify handle.request fun _ => done))
  · rename_i done _
    obtain ⟨handler, _, rfl⟩ := Option.map_eq_some_iff.mp hnext
    let mem' := mem.modify handle.request fun _ => done
    let answered : CurlSession :=
      { self with mem := mem', callbacks := self.callbacks ++ [(handle.request, handler)] }
    have hreacted := (SameTransfers.react answered input.reaction).withLost lost
    have hanswered : answered.withLost lost = { self.withLost lost with
        mem := mem'
        callbacks := (self.withLost lost).callbacks ++ [(handle.request, handler)] } := by
      simp only [answered, withLost, List.append_assoc]
    rw [hanswered] at hreacted
    exact ⟨lost, htracked.finish mem' handler hreacted⟩

theorem processMessages {messages : List CurlHandleData} {inputs : List DoneInput}
    (h : Accounted [] messages self)
    (hnext : CurlSession.processMessages env messages inputs self = some next) :
    Accounted [] [] next := by
  induction messages generalizing self inputs with
  | nil =>
    cases hnext
    exact h
  | cons handle messages ih =>
    obtain ⟨middle, hfinish, hrest⟩ := Option.bind_eq_some_iff.mp hnext
    exact ih (h.finish hfinish) hrest

theorem pollMessages (h : Accounted [] [] self) (input : PollInput) :
    Accounted [] (self.pollMessages env input).1 (self.pollMessages env input).2 := by
  have htaken (session : CurlSession) (h : Accounted [] [] session) :
      Accounted [] session.multi.messages
        { session with multi := { session.multi with messages := [] } } := by
    obtain ⟨lost, htracked⟩ := h
    exact ⟨lost, htracked.requests, by simpa [withLost] using htracked.handles, htracked.distinct,
      htracked.bound⟩
  unfold CurlSession.pollMessages
  split
  · exact htaken _ h
  · exact htaken _ (h.multiPerform input.perform)

theorem startLoop (h : Accounted [] [] self) (curls : List CurlStart) (maxToAdd : Int) :
    Accounted [] [] (self.startLoop env curls maxToAdd).2 := by
  induction curls generalizing self maxToAdd with
  | nil => exact h
  | cons curl curls ih =>
    rw [CurlSession.startLoop]
    split
    · exact h
    · rename_i req queue hqueue
      split
      · exact h
      · dsimp only
        split
        · exact h.popRequest hqueue
        · split
          · exact h.popRequest hqueue
          · rename_i headerList _
            split
            · exact h.popRequest hqueue
            · have hadded : Accounted [self.handleFor req headerList] []
                  ((self.popRequest.multiAddHandle (self.handleFor req headerList)).multiPerform env
                    curl.perform) := (h.multiAddHandle hqueue headerList).multiPerform curl.perform
              split
              · exact hadded.easyCleanup
              · exact ih hadded.addRunningHandle (maxToAdd - 1)

theorem of_sameTransfers (h : Accounted starting processing self)
    (hsame : SameTransfers self next) : Accounted starting processing next := by
  obtain ⟨lost, htracked⟩ := h
  exact ⟨lost, htracked.of_sameTransfers (hsame.withLost lost)⟩

theorem step {op : ClientOp} (h : Accounted [] [] self) (hnext : self.step env op = some next) :
    Accounted [] [] next := by
  cases op with
  | enable =>
    cases hnext
    exact h.of_sameTransfers ⟨rfl, rfl, rfl, fun _ => rfl⟩
  | disable =>
    cases hnext
    exact h.of_sameTransfers ⟨rfl, rfl, rfl, fun _ => rfl⟩
  | registerDefaultHeader domain name value =>
    cases hnext
    unfold CurlHttpClient.registerDefaultHeader
    split
    · exact h
    · exact h.of_sameTransfers ⟨rfl, rfl, rfl, fun _ => rfl⟩
  | act action =>
    cases hnext
    exact h.of_sameTransfers (.act self action)
  | startNewRequests curls =>
    cases hnext
    unfold CurlSession.startNewRequests
    split
    · exact h
    · split
      · exact h
      · exact h.startLoop curls _
  | poll input =>
    obtain ⟨result, hpoll, rfl⟩ := Option.map_eq_some_iff.mp hnext
    unfold CurlSession.poll at hpoll
    split at hpoll
    · cases hpoll
      exact h
    · split at hpoll
      · cases hpoll
        exact h
      · obtain ⟨last, hprocess, rfl⟩ := Option.map_eq_some_iff.mp hpoll
        exact (h.pollMessages input).processMessages hprocess

end Accounted

end CurlSession

/-- The easy handle that something happens to. -/
def TransferEvent.easyHandle : TransferEvent → Nat
  | .data easyHandle _ _ _ => easyHandle
  | .done easyHandle => easyHandle

/-- A request with its transfers. -/
structure TransferView where
  request : Option Request
  transfers : List CurlHandleData

/-- What an event does to a request, as far as its own transfers tell. -/
def TransferView.onEvent (env : CurlEnv) (self : TransferView) (event : TransferEvent) :
    TransferView :=
  if self.transfers.any (·.easyHandle == event.easyHandle) then
    match event with
    | .data _ buffer size multiplier =>
      { self with
        request := self.request.map fun request =>
          ((curlCallback env buffer size multiplier request).map (·.2)).getD request }
    | .done easyHandle =>
      { self with transfers := self.transfers.filter (·.easyHandle != easyHandle) }
  else self

namespace CurlSession

variable {env : CurlEnv} {self : CurlSession}

def view (self : CurlSession) (req : Nat) : TransferView :=
  ⟨self.mem.get? req, self.multi.transfers.filter (·.request == req)⟩

/-- The easy handles of the transfers of a request. -/
def handlesOf (self : CurlSession) (req : Nat) : List Nat :=
  (self.multi.transfers.filter (·.request == req)).map (·.easyHandle)

/-- A request sees only what happens to its own transfers. -/
theorem view_onEvent (hdistinct : (self.multi.transfers.map (·.easyHandle)).Nodup)
    (event : TransferEvent) (req : Nat) :
    (self.onEvent env event).view req = (self.view req).onEvent env event := by
  have hown : (self.view req).transfers.any (·.easyHandle == event.easyHandle) = true ↔
      ∃ handle, self.multi.transfers.find? (·.easyHandle == event.easyHandle) = some handle ∧
        handle.request = req := by
    simp only [keyed.find?_eq_some_iff hdistinct, List.any_eq_true, view, List.mem_filter,
      beq_iff_eq]
    constructor
    · rintro ⟨handle, ⟨hmem, hreq⟩, hkey⟩
      exact ⟨handle, ⟨hmem, hkey⟩, hreq⟩
    · rintro ⟨handle, ⟨hmem, hkey⟩, hreq⟩
      exact ⟨handle, ⟨hmem, hreq⟩, hkey⟩
  unfold TransferView.onEvent
  cases event with
  | data easyHandle buffer size multiplier =>
    simp only [TransferEvent.easyHandle] at hown
    simp only [onEvent, TransferEvent.easyHandle, hown]
    cases hfind : self.multi.transfers.find? (·.easyHandle == easyHandle) with
    | none => simp
    | some handle =>
      by_cases hreq : handle.request = req
      · simp [hreq, view, Heap.get?_modify]
      · simp [hreq, view, Heap.get?_modify]
  | done easyHandle =>
    have hrest : (self.onEvent env (.done easyHandle)).view req =
        ⟨self.mem.get? req, (self.multi.transfers.filter (·.request == req)).filter
          (·.easyHandle != easyHandle)⟩ := by
      simp only [onEvent]
      cases hfind : self.multi.transfers.find? (·.easyHandle == easyHandle) with
      | none =>
        have hothers := List.find?_eq_none.mp hfind
        have hkeep : (self.multi.transfers.filter (·.request == req)).filter
            (·.easyHandle != easyHandle) = self.multi.transfers.filter (·.request == req) := by
          refine List.filter_eq_self.mpr fun handle hmem => ?_
          simpa using hothers handle (List.mem_of_mem_filter hmem)
        rw [hkeep]
        rfl
      | some handle =>
        simp only [view, List.filter_filter, Bool.and_comm]
    rw [hrest]
    split
    · rfl
    · rename_i hnone
      have hkeep : (self.multi.transfers.filter (·.request == req)).filter
          (·.easyHandle != easyHandle) = self.multi.transfers.filter (·.request == req) := by
        refine List.filter_eq_self.mpr fun handle hmem => ?_
        simp only [List.any_eq_true, not_exists, not_and] at hnone
        have hother : ¬ (handle.easyHandle == easyHandle) = true := hnone handle hmem
        simpa using hother
      rw [hkeep]
      rfl

theorem onEvent_distinct (hdistinct : (self.multi.transfers.map (·.easyHandle)).Nodup)
    (event : TransferEvent) :
    ((self.onEvent env event).multi.transfers.map (·.easyHandle)).Nodup := by
  cases event with
  | data easyHandle =>
    simp only [onEvent]
    split <;> exact hdistinct
  | done easyHandle =>
    simp only [onEvent]
    split
    · exact hdistinct
    · exact hdistinct.sublist (List.filter_sublist.map _)

theorem view_foldl_onEvent (hdistinct : (self.multi.transfers.map (·.easyHandle)).Nodup)
    (events : List TransferEvent) (req : Nat) :
    (events.foldl (onEvent env) self).view req =
      events.foldl (TransferView.onEvent env) (self.view req) := by
  induction events generalizing self with
  | nil => rfl
  | cons event events ih =>
    rw [List.foldl_cons, List.foldl_cons, ih (onEvent_distinct hdistinct event),
      view_onEvent hdistinct]

end CurlSession

namespace TransferView

/-- The events of transfers that the request does not have change nothing for it. -/
theorem foldl_onEvent_filter (env : CurlEnv) {handles : List Nat} (events : List TransferEvent)
    {self : TransferView} (hhandles : ∀ handle ∈ self.transfers, handle.easyHandle ∈ handles) :
    events.foldl (onEvent env) self =
      (events.filter (handles.contains ·.easyHandle)).foldl (onEvent env) self := by
  induction events generalizing self with
  | nil => rfl
  | cons event events ih =>
    have hnext : ∀ handle ∈ (self.onEvent env event).transfers, handle.easyHandle ∈ handles := by
      intro handle hmem
      unfold onEvent at hmem
      split at hmem
      · cases event with
        | data => exact hhandles handle hmem
        | done => exact hhandles handle (List.mem_of_mem_filter hmem)
      · exact hhandles handle hmem
    by_cases hown : event.easyHandle ∈ handles
    · rw [List.filter_cons_of_pos (by simpa using hown), List.foldl_cons, List.foldl_cons, ih hnext]
    · have hsame : self.onEvent env event = self := by
        unfold onEvent
        rw [if_neg]
        simp only [List.any_eq_true, beq_iff_eq, not_exists, not_and]
        exact fun handle hmem heq => hown (heq ▸ hhandles handle hmem)
      rw [List.filter_cons_of_neg (by simpa using hown), List.foldl_cons, hsame]
      exact ih hhandles

end TransferView

namespace Flight

open CurlSession

variable {Limiter : Type} {takeRateSlot : Limiter → Int → Bool × Limiter} {env : CurlEnv}

theorem accounted_of_run {mem : Heap Request} {limiter : Limiter} {ops : List FlightOp}
    {last : Flight Limiter}
    (hrun : run (step takeRateSlot env) (initialized mem limiter) ops = some last) :
    Accounted [] [] last.session := by
  refine run_preserves (P := fun flight => Accounted [] [] flight.session)
    (fun flight op next hflight hstep => ?_) ?_ hrun
  · rcases step_session hstep with ⟨op', hop⟩ | ⟨event, heq⟩
    · exact hflight.step hop
    · rw [heq]
      exact hflight.onEvent event
  · exact ⟨[], fun _ => rfl, List.Perm.refl _, List.nodup_nil, fun _ h => by cases h⟩

/-- In every run, whatever fails: libcurl has exactly the handles that are running, each of them
    once. -/
theorem handlesKept_of_run {mem : Heap Request} {limiter : Limiter} {ops : List FlightOp}
    {last : Flight Limiter}
    (hrun : run (step takeRateSlot env) (initialized mem limiter) ops = some last) :
    last.session.client.runningHandles.Perm
        (last.session.multi.transfers ++ last.session.multi.messages) ∧
      (last.session.client.runningHandles.map (·.easyHandle)).Nodup := by
  obtain ⟨lost, htracked⟩ := accounted_of_run hrun
  obtain ⟨hhandles, hdistinct, _⟩ := htracked.running
  rw [List.append_nil] at hhandles
  exact ⟨hhandles, hdistinct⟩

/-- In every state of every run: whatever else happens to transfers, and in whatever order, the
    events of its own transfers decide what a request gets. -/
theorem interleavings_agree_of_run {mem : Heap Request} {limiter : Limiter} {ops : List FlightOp}
    {last : Flight Limiter}
    (hrun : run (step takeRateSlot env) (initialized mem limiter) ops = some last) (req : Nat)
    {events events' : List TransferEvent}
    (hown : events.filter ((last.session.handlesOf req).contains ·.easyHandle) =
      events'.filter ((last.session.handlesOf req).contains ·.easyHandle)) :
    (events.foldl (onEvent env) last.session).mem.get? req =
      (events'.foldl (onEvent env) last.session).mem.get? req := by
  obtain ⟨lost, htracked⟩ := accounted_of_run hrun
  obtain ⟨hhandles, hdistinct, _⟩ := htracked.running
  have htransfers : (last.session.multi.transfers.map (·.easyHandle)).Nodup := by
    have hall := (hhandles.map (·.easyHandle)).nodup_iff.mp hdistinct
    rw [List.append_nil, List.map_append] at hall
    exact hall.of_append_left
  have hhandlesOf : ∀ handle ∈ (last.session.view req).transfers,
      handle.easyHandle ∈ last.session.handlesOf req := fun _ hmem => List.mem_map_of_mem hmem
  suffices hview : (events.foldl (onEvent env) last.session).view req =
      (events'.foldl (onEvent env) last.session).view req from
    congrArg TransferView.request hview
  rw [view_foldl_onEvent htransfers, view_foldl_onEvent htransfers,
    TransferView.foldl_onEvent_filter env events hhandlesOf, hown,
    ← TransferView.foldl_onEvent_filter env events' hhandlesOf]

/-- Two requests are scheduled and started. -/
def twoFlights : List FlightOp :=
  [.act (.schedule 0 (some .crawler)), .act (.schedule 1 (some .crawler)),
    .startNewRequests (fun _ => 5) (fun _ => { perform := { runningHandles := 1 } })]

theorem handlesKept_of_run_twoFlights : ∃ last,
    run (step SimpleRateLimiter.takeRateSlotWithTime directEnv)
      (initialized ⟨[plainRequest, plainRequest]⟩ (SimpleRateLimiter.new 5)) twoFlights =
        some last ∧ last.session.client.runningHandles.map (·.easyHandle) = [0, 1] ∧
      last.session.client.runningHandles.Perm
        (last.session.multi.transfers ++ last.session.multi.messages) := by
  obtain ⟨last, hrun, hrunning⟩ : ∃ last,
      run (step SimpleRateLimiter.takeRateSlotWithTime directEnv)
        (initialized ⟨[plainRequest, plainRequest]⟩ (SimpleRateLimiter.new 5)) twoFlights =
          some last ∧ last.session.client.runningHandles.map (·.easyHandle) = [0, 1] :=
    ⟨_, rfl, rfl⟩
  exact ⟨last, hrun, hrunning, (handlesKept_of_run hrun).1⟩

/-- The data of the two transfers may arrive in either order. -/
theorem interleavings_agree_of_run_twoFlights : ∃ last,
    run (step SimpleRateLimiter.takeRateSlotWithTime directEnv)
      (initialized ⟨[plainRequest, plainRequest]⟩ (SimpleRateLimiter.new 5)) twoFlights =
        some last ∧ last.session.handlesOf 1 = [1] ∧
      ([.data 0 okResponse 1 19, .data 1 [65] 1 1, .done 0, .data 1 [66] 1 1].foldl
        (onEvent directEnv) last.session).mem.get? 1 =
      ([.data 1 [65] 1 1, .data 1 [66] 1 1].foldl (onEvent directEnv) last.session).mem.get? 1 :=
  ⟨_, rfl, rfl, @interleavings_agree_of_run _ _ directEnv ⟨[plainRequest, plainRequest]⟩
    (SimpleRateLimiter.new 5) twoFlights _ rfl 1 _ _ rfl⟩

end Flight

end plusfish

import Plusfish.CurlHttpClient.Handles
import Plusfish.Library.Loans

open memory transition

namespace plusfish

namespace CurlSession

/-- The requests that the client holds: those in its queue, and those of handles. -/
def held (handles : List CurlHandleData) (self : CurlSession) : Multiset Nat :=
  ↑self.client.scheduleQueue + ↑(handles.map (·.request))

/-- To others, what the client does to requests that it holds comes to these events: a request is
    lent to the client when it is accepted, and is given back when its handler is called. -/
structure Serves (events : List (loan.Event Nat)) (before after : Multiset Nat)
    (session next : CurlSession) : Prop where
  run : run loan.step before events = some after
  accepted : next.accepted = session.accepted ++ loan.lent events
  callbacks : next.callbacks.map Prod.fst =
    session.callbacks.map Prod.fst ++ loan.givenBack events

section
variable {env : CurlEnv} {self next : CurlSession} {before after : Multiset Nat}

namespace Serves

theorem of_eq (hheld : after = before) (haccepted : next.accepted = self.accepted)
    (hcallbacks : next.callbacks = self.callbacks) : Serves [] before after self next :=
  ⟨by rw [hheld]; rfl, by rw [haccepted]; exact (List.append_nil _).symm,
    by rw [hcallbacks]; exact (List.append_nil _).symm⟩

theorem refl (held : Multiset Nat) (self : CurlSession) : Serves [] held held self self :=
  of_eq rfl rfl rfl

theorem trans {first second : List (loan.Event Nat)} {middle : Multiset Nat} {a b c : CurlSession}
    (hab : Serves first before middle a b) (hbc : Serves second middle after b c) :
    Serves (first ++ second) before after a c where
  run := run_append_eq_some.mpr ⟨middle, hab.run, hbc.run⟩
  accepted := by rw [hbc.accepted, hab.accepted, loan.lent_append, List.append_assoc]
  callbacks := by rw [hbc.callbacks, hab.callbacks, loan.givenBack_append, List.append_assoc]

/-- Only the history of the client counts. -/
theorem congr {events : List (loan.Event Nat)} {self' next' : CurlSession}
    (h : Serves events before after self next) (haccepted : self'.accepted = self.accepted)
    (hcallbacks : self'.callbacks = self.callbacks) (haccepted' : next'.accepted = next.accepted)
    (hcallbacks' : next'.callbacks = next.callbacks) : Serves events before after self' next' :=
  ⟨h.run, by rw [haccepted, haccepted', h.accepted], by rw [hcallbacks, hcallbacks', h.callbacks]⟩

/-- A request that the client holds is not heard of again. -/
theorem lose {req : Nat} (hheld : before = req ::ₘ after)
    (haccepted : next.accepted = self.accepted)
    (hcallbacks : next.callbacks = self.callbacks) :
    Serves [.lose req] before after self next :=
  ⟨hheld ▸ loan.run_lose after req, by rw [haccepted]; exact (List.append_nil _).symm,
    by rw [hcallbacks]; exact (List.append_nil _).symm⟩

theorem schedule (self : CurlSession) (req : Nat) (rest : Multiset Nat) : ∃ events,
    Serves events (↑self.client.scheduleQueue + rest)
      (↑(self.schedule req).2.client.scheduleQueue + rest) self (self.schedule req).2 := by
  unfold CurlSession.schedule
  split
  · exact ⟨[], refl _ self⟩
  · have haccepted : (self.acceptances ++ [(req, (deref self.mem req).requestHandler)]).map
        (·.1) = self.accepted ++ [req] := List.map_append
    refine ⟨[.lend req], loan.run_add ?_ rest, haccepted, (List.append_nil _).symm⟩
    rw [loan.run_lend, ← Multiset.coe_add, Multiset.coe_singleton, Multiset.add_comm,
      Multiset.singleton_add]

theorem act (self : CurlSession) (action : HandlerAction) (rest : Multiset Nat) : ∃ events,
    Serves events (↑self.client.scheduleQueue + rest)
      (↑(self.act action).client.scheduleQueue + rest) self (self.act action) := by
  cases action with
  | schedule req handler =>
    cases handler with
    | none => exact schedule self req rest
    | some handler =>
      obtain ⟨events, hserves⟩ := schedule { self with
        mem := self.mem.modify req ({ · with requestHandler := some handler }) } req rest
      exact ⟨events, hserves.congr rfl rfl rfl rfl⟩
  | update f => exact ⟨[], of_eq rfl rfl rfl⟩

theorem react (self : CurlSession) (actions : List HandlerAction) (rest : Multiset Nat) : ∃ events,
    Serves events (↑self.client.scheduleQueue + rest)
      (↑(actions.foldl CurlSession.act self).client.scheduleQueue + rest) self
        (actions.foldl CurlSession.act self) := by
  induction actions generalizing self with
  | nil => exact ⟨[], refl _ self⟩
  | cons action actions ih =>
    obtain ⟨first, hfirst⟩ := act self action rest
    obtain ⟨second, hsecond⟩ := ih (self.act action)
    exact ⟨first ++ second, hfirst.trans hsecond⟩

end Serves

/-- libcurl alone does not change what the client holds. -/
theorem multiPerform_kept (env : CurlEnv) (self : CurlSession) (perform : CurlPerform) :
    (self.multiPerform env perform).client.scheduleQueue = self.client.scheduleQueue ∧
      (self.multiPerform env perform).client.runningHandles = self.client.runningHandles ∧
      (self.multiPerform env perform).accepted = self.accepted ∧
      (self.multiPerform env perform).callbacks = self.callbacks := by
  obtain ⟨mem, multi, heq⟩ := multiPerform_eq env self perform
  rw [heq]
  exact ⟨rfl, rfl, rfl, rfl⟩

theorem pollMessages_kept (env : CurlEnv) (self : CurlSession) (input : PollInput) :
    (self.pollMessages env input).2.client.scheduleQueue = self.client.scheduleQueue ∧
      (self.pollMessages env input).2.client.runningHandles = self.client.runningHandles ∧
      (self.pollMessages env input).2.accepted = self.accepted ∧
      (self.pollMessages env input).2.callbacks = self.callbacks := by
  unfold CurlSession.pollMessages
  split
  · exact ⟨rfl, rfl, rfl, rfl⟩
  · exact self.multiPerform_kept env input.perform

theorem held_of_perm {handles rest : List CurlHandleData} {handle : CurlHandleData}
    (hperm : handles.Perm (handle :: rest)) (self : CurlSession) :
    self.held handles = handle.request ::ₘ self.held rest := by
  have hrequests : (↑(handles.map (·.request)) : Multiset Nat) =
      handle.request ::ₘ ↑(rest.map (·.request)) := Multiset.coe_eq_coe.mpr (hperm.map _)
  rw [held, hrequests, Multiset.add_cons, held]

/-- A request whose transfer is done is given back before its handler reacts, or lost. -/
theorem finish_serves {handle : CurlHandleData} {messages : List CurlHandleData}
    {input : DoneInput} (h : Accounted [] (handle :: messages) self)
    (hnext : self.finish env handle input = some next) : ∃ events, Serves events
      (self.held self.client.runningHandles) (next.held next.client.runningHandles) self next := by
  obtain ⟨lost, htracked⟩ := h
  obtain ⟨hhandles, hdistinct, _⟩ := htracked.running
  have hmem : handle ∈ self.client.runningHandles :=
    hhandles.mem_iff.mpr (List.mem_append_right _ List.mem_cons_self)
  have hsplit := keyed.perm_cons_filter hdistinct hmem
  rw [← keyed.eraseP_eq_filter hdistinct] at hsplit
  have hheld := held_of_perm hsplit self
  obtain ⟨mem, heq, _⟩ := noteTransfer_eq env self handle input
  unfold CurlSession.finish at hnext
  rw [heq] at hnext
  dsimp only at hnext
  split at hnext
  · cases hnext
  · cases hnext
    exact ⟨_, .lose hheld rfl rfl⟩
  · rename_i done _
    obtain ⟨handler, _, rfl⟩ := Option.map_eq_some_iff.mp hnext
    let answered : CurlSession :=
      { self with
        mem := mem.modify handle.request fun _ => done
        callbacks := self.callbacks ++ [(handle.request, handler)] }
    have hcalled : Serves [.giveBack handle.request] (self.held self.client.runningHandles)
        (self.held (self.client.runningHandles.eraseP (·.easyHandle == handle.easyHandle))) self
          answered := by
      refine ⟨hheld ▸ loan.run_giveBack _ _, (List.append_nil _).symm, ?_⟩
      simp [answered, loan.givenBack, loan.Event.givenBack]
    obtain ⟨events, hreacted⟩ := Serves.react answered input.reaction
      ↑((self.client.runningHandles.eraseP (·.easyHandle == handle.easyHandle)).map (·.request))
    have hrunning : (input.reaction.foldl CurlSession.act answered).client.runningHandles =
        self.client.runningHandles := (SameTransfers.react answered input.reaction).running
    have hafter : ((input.reaction.foldl CurlSession.act answered).cleanupCurlHandleData
        handle).held
        ((input.reaction.foldl CurlSession.act answered).cleanupCurlHandleData
          handle).client.runningHandles =
        ↑(input.reaction.foldl CurlSession.act answered).client.scheduleQueue +
          ↑((self.client.runningHandles.eraseP (·.easyHandle == handle.easyHandle)).map
            (·.request)) := by
      simp only [held, cleanupCurlHandleData, hrunning]
    refine ⟨[.giveBack handle.request] ++ events, hcalled.trans ?_⟩
    rw [hafter]
    exact hreacted.congr rfl rfl rfl rfl

theorem processMessages_serves {messages : List CurlHandleData} {inputs : List DoneInput}
    (h : Accounted [] messages self)
    (hnext : CurlSession.processMessages env messages inputs self = some next) :
    ∃ events, Serves events (self.held self.client.runningHandles)
      (next.held next.client.runningHandles) self next := by
  induction messages generalizing self inputs with
  | nil =>
    cases hnext
    exact ⟨[], .refl _ _⟩
  | cons handle messages ih =>
    obtain ⟨middle, hfinish, hrest⟩ := Option.bind_eq_some_iff.mp hnext
    obtain ⟨first, hfirst⟩ := finish_serves h hfinish
    obtain ⟨second, hsecond⟩ := ih (h.finish hfinish) hrest
    exact ⟨first ++ second, hfirst.trans hsecond⟩

/-- A request that is taken from the queue gets a handle that runs, or is lost. -/
theorem startLoop_serves (h : Accounted [] [] self) (curls : List CurlStart) (maxToAdd : Int) :
    ∃ events, Serves events (self.held self.client.runningHandles)
      ((self.startLoop env curls maxToAdd).2.held
        (self.startLoop env curls maxToAdd).2.client.runningHandles) self
          (self.startLoop env curls maxToAdd).2 := by
  induction curls generalizing self maxToAdd with
  | nil => exact ⟨[], .refl _ self⟩
  | cons curl curls ih =>
    rw [CurlSession.startLoop]
    split
    · exact ⟨[], .refl _ self⟩
    · rename_i req queue hqueue
      have hpopped : self.held self.client.runningHandles = req ::ₘ
          self.popRequest.held self.client.runningHandles := by
        simp only [held, popRequest, hqueue, List.tail_cons, ← Multiset.cons_coe,
          Multiset.cons_add]
      split
      · exact ⟨[], .refl _ self⟩
      · dsimp only
        split
        · exact ⟨_, .lose hpopped rfl rfl⟩
        · split
          · exact ⟨_, .lose hpopped rfl rfl⟩
          · rename_i headerList _
            split
            · exact ⟨_, .lose hpopped rfl rfl⟩
            · let handle := self.popRequest.handleFor req headerList
              let added := self.popRequest.multiAddHandle handle
              have hadded : Accounted [handle] []
                  (added.multiPerform env curl.perform) :=
                (h.multiAddHandle hqueue headerList).multiPerform curl.perform
              obtain ⟨hkept, hrunning, haccepted, hcallbacks⟩ :=
                added.multiPerform_kept env curl.perform
              split
              · refine ⟨[.lose req], .lose (hpopped.trans ?_) haccepted hcallbacks⟩
                have hcleaned : ((added.multiPerform env curl.perform).easyCleanup handle).held
                    (added.multiPerform env curl.perform).client.runningHandles =
                    self.popRequest.held self.client.runningHandles := by
                  simp only [held, easyCleanup]
                  rw [hkept, hrunning]
                  rfl
                exact congrArg (req ::ₘ ·) hcleaned.symm
              · obtain ⟨events, hrest⟩ := ih hadded.addRunningHandle (maxToAdd - 1)
                have hstarted : ((added.multiPerform env curl.perform).addRunningHandle handle).held
                    ((added.multiPerform env curl.perform).addRunningHandle
                      handle).client.runningHandles =
                    req ::ₘ self.popRequest.held self.client.runningHandles := by
                  simp only [held, addRunningHandle]
                  rw [hkept, hrunning, List.map_append, ← Multiset.coe_add, ← Multiset.add_assoc,
                    Multiset.add_comm]
                  rfl
                have hbegun : Serves [] (self.held self.client.runningHandles) _ self
                    ((added.multiPerform env curl.perform).addRunningHandle handle) :=
                  .of_eq (hstarted.trans hpopped.symm) haccepted hcallbacks
                exact ⟨[] ++ events, hbegun.trans hrest⟩

theorem step_serves {op : ClientOp} (h : Accounted [] [] self)
    (hnext : self.step env op = some next) : ∃ events,
      Serves events (self.held self.client.runningHandles) (next.held next.client.runningHandles)
        self next := by
  cases op with
  | enable =>
    cases hnext
    exact ⟨[], .of_eq rfl rfl rfl⟩
  | disable =>
    cases hnext
    exact ⟨[], .of_eq rfl rfl rfl⟩
  | registerDefaultHeader domain name value =>
    cases hnext
    unfold CurlHttpClient.registerDefaultHeader
    split <;> exact ⟨[], .of_eq rfl rfl rfl⟩
  | act action =>
    cases hnext
    have hrunning : (self.act action).client.runningHandles = self.client.runningHandles :=
      (SameTransfers.act self action).running
    rw [hrunning]
    exact Serves.act self action _
  | startNewRequests curls =>
    cases hnext
    unfold CurlSession.startNewRequests
    split
    · exact ⟨[], .refl _ self⟩
    · split
      · exact ⟨[], .refl _ self⟩
      · exact startLoop_serves h curls _
  | poll input =>
    obtain ⟨result, hpoll, rfl⟩ := Option.map_eq_some_iff.mp hnext
    unfold CurlSession.poll at hpoll
    split at hpoll
    · cases hpoll
      exact ⟨[], .refl _ self⟩
    · split at hpoll
      · cases hpoll
        exact ⟨[], .refl _ self⟩
      · obtain ⟨last, hprocess, rfl⟩ := Option.map_eq_some_iff.mp hpoll
        obtain ⟨hqueue, hrunning, haccepted, hcallbacks⟩ := pollMessages_kept env self input
        obtain ⟨events, hserves⟩ := processMessages_serves (h.pollMessages input) hprocess
        rw [held, hqueue, hrunning] at hserves
        exact ⟨events, hserves.congr haccepted.symm hcallbacks.symm rfl rfl⟩

end

end CurlSession

namespace Flight

open CurlSession

variable {Limiter : Type} {takeRateSlot : Limiter → Int → Bool × Limiter} {env : CurlEnv}

/-- In every run, whatever fails: to others, the client only borrows requests. It borrows a request
    each time it accepts it, gives it back each time it calls its handler, and never gives back
    what it does not have: it has the requests in its queue and those of its handles. -/
theorem borrows_of_run {mem : Heap Request} {limiter : Limiter} {ops : List FlightOp}
    {last : Flight Limiter}
    (hrun : run (step takeRateSlot env) (initialized mem limiter) ops = some last) :
    ∃ events, run loan.step 0 events =
        some (last.session.held last.session.client.runningHandles) ∧
      last.session.accepted = loan.lent events ∧
      last.session.callbacks.map Prod.fst = loan.givenBack events := by
  let start := initialized mem limiter
  have hserved : Accounted [] [] last.session ∧ ∃ events, Serves events 0
      (last.session.held last.session.client.runningHandles) start.session last.session := by
    refine run_preserves (P := fun flight => Accounted [] [] flight.session ∧ ∃ events,
      Serves events 0 (flight.session.held flight.session.client.runningHandles) start.session
        flight.session) (fun flight op next hflight hstep => ?_) ?_ hrun
    · obtain ⟨haccounted, past, hpast⟩ := hflight
      rcases step_session hstep with ⟨op', hop⟩ | ⟨event, heq⟩
      · obtain ⟨events, hserves⟩ := step_serves haccounted hop
        exact ⟨haccounted.step hop, past ++ events, hpast.trans hserves⟩
      · obtain ⟨mem, multi, hevent⟩ := onEvent_eq env flight.session event
        have haccounted' : Accounted [] [] (flight.session.onEvent env event) :=
          haccounted.onEvent event
        rw [heq]
        rw [hevent] at haccounted' ⊢
        exact ⟨haccounted', past ++ [], hpast.trans (.of_eq rfl rfl rfl)⟩
    · exact ⟨⟨[], fun _ => rfl, List.Perm.refl _, List.nodup_nil, fun _ h => by cases h⟩, [],
        .refl _ _⟩
  obtain ⟨_, events, hserves⟩ := hserved
  exact ⟨events, hserves.run, hserves.accepted, hserves.callbacks⟩

/-- One request is started, and its transfer ends while nothing is called. -/
def oneFlight : List FlightOp :=
  [.act (.schedule 0 (some .crawler)),
    .startNewRequests (fun _ => 5) (fun _ => { perform := { runningHandles := 1 } }),
    .transfer (.data 0 okResponse 1 okResponse.length), .transfer (.done 0),
    .poll { select := 1 }]

theorem borrows_of_run_oneFlight : ∃ last events,
    run (step SimpleRateLimiter.takeRateSlotWithTime directEnv)
      (initialized ⟨[plainRequest]⟩ (SimpleRateLimiter.new 1)) oneFlight = some last ∧
      last.session.callbacks = [(0, .crawler)] ∧ run loan.step 0 events = some 0 ∧
      last.session.accepted = loan.lent events ∧ loan.givenBack events = [0] := by
  obtain ⟨last, hrun, hcallbacks, hheld⟩ : ∃ last,
      run (step SimpleRateLimiter.takeRateSlotWithTime directEnv)
        (initialized ⟨[plainRequest]⟩ (SimpleRateLimiter.new 1)) oneFlight = some last ∧
        last.session.callbacks = [(0, .crawler)] ∧
        last.session.held last.session.client.runningHandles = 0 := ⟨_, rfl, rfl, rfl⟩
  obtain ⟨events, hevents, haccepted, hgiven⟩ := borrows_of_run hrun
  rw [hheld] at hevents
  rw [hcallbacks] at hgiven
  exact ⟨last, events, hrun, hcallbacks, hevents, haccepted, hgiven.symm⟩

end Flight

end plusfish

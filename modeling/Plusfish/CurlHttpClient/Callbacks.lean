import Plusfish.CurlHttpClient.Protocol

open memory transition

namespace plusfish

theorem Request.doneCb_requestHandler {request done : Request} {called : Bool}
    (h : request.doneCb = some (called, done)) : done.requestHandler = request.requestHandler := by
  unfold doneCb at h
  split at h
  · cases h
    rfl
  · split at h
    all_goals
      cases h
      try rfl

/-- A request is replaced by one with the same value of a field. -/
theorem deref_replace_keeps {β : Type} (field : Request → β) {mem : Heap Request} {p : Nat}
    {request : Request} (hsame : field request = field (deref mem p)) (q : Nat) :
    field (deref (mem.modify p fun _ => request) q) = field (deref mem q) := by
  unfold deref
  rw [Heap.get?_modify]
  by_cases hq : p = q
  · subst hq
    cases hget : mem.get? p with
    | none => simp
    | some old =>
      rw [deref_of_get? hget] at hsame
      simpa using hsame
  · rw [if_neg hq]

namespace CurlSession

/-- The requests that are queued or on the wire. -/
def underWay (self : CurlSession) : List Nat :=
  self.client.scheduleQueue ++ self.client.runningHandles.map (·.request)

/-- The requests that are under way keep their handlers. -/
def KeepsHandlers (self : CurlSession) (action : HandlerAction) : Prop :=
  ∀ req ∈ self.underWay,
    (deref (self.act action).mem req).requestHandler = (deref self.mem req).requestHandler

instance (self : CurlSession) (action : HandlerAction) : Decidable (self.KeepsHandlers action) :=
  inferInstanceAs (Decidable (∀ req ∈ self.underWay, _))

/-- The same for actions that follow each other. -/
def AllKeepHandlers : List HandlerAction → CurlSession → Prop
  | [], _ => True
  | action :: actions, self => self.KeepsHandlers action ∧ AllKeepHandlers actions (self.act action)

instance decidableAllKeepHandlers : (actions : List HandlerAction) → (self : CurlSession) →
    Decidable (AllKeepHandlers actions self)
  | [], _ => .isTrue trivial
  | action :: actions, self =>
    have := decidableAllKeepHandlers actions (self.act action)
    inferInstanceAs (Decidable (_ ∧ _))

variable (env : CurlEnv)

/-- The session in which the handler of a request reacts, where the handle no longer counts. -/
def reacting (self : CurlSession) (handle : CurlHandleData) (input : DoneInput) (done : Request)
    (handler : RequestHandler) : CurlSession :=
  let noted := self.noteTransfer env handle input
  cleanupCurlHandleData
    { noted with
      mem := noted.mem.modify handle.request fun _ => done
      callbacks := noted.callbacks ++ [(handle.request, handler)] } handle

/-- For every message that `Poll` processes, the request has a response that can be
    parsed when its turn comes, and its handler leaves the handlers of the others alone. -/
def AllAnswered : List CurlHandleData → List DoneInput → CurlSession → Prop
  | [], _, _ => True
  | handle :: messages, inputs, self =>
    (deref self.mem handle.request).hasParsableResponse = true ∧
      (∀ done ∈ (deref (self.noteTransfer env handle (inputs.headD {})).mem handle.request).doneCb,
        ∀ handler ∈ done.2.requestHandler,
          AllKeepHandlers (inputs.headD {}).reaction
            (self.reacting env handle (inputs.headD {}) done.2 handler)) ∧
      ∀ next ∈ self.finish env handle (inputs.headD {}), AllAnswered messages inputs.tail next

instance decidableAllAnswered : (messages : List CurlHandleData) → (inputs : List DoneInput) →
    (self : CurlSession) → Decidable (AllAnswered env messages inputs self)
  | [], _, _ => .isTrue trivial
  | _ :: messages, inputs, _ =>
    have (next : CurlSession) := decidableAllAnswered messages inputs.tail next
    inferInstanceAs (Decidable (_ ∧ _ ∧ _))

/-- The step loses no callback: every request it starts can be set up, every request it
    finishes has a response that can be parsed, and no request that is under way is given
    another handler. -/
def Delivers (self : CurlSession) : ClientOp → Prop
  | .act action => self.KeepsHandlers action
  | .startNewRequests curls => self.client.enabled = true →
    ∀ start ∈ (curls.zip self.client.scheduleQueue).take
        (env.maxActiveHandlesAllowed - self.client.curlHandleCnt).toNat,
      start.1.setsUp env self.client (deref self.mem start.2) = true
  | .poll input => self.client.runningHandles ≠ [] → input.select ≠ 0 →
    AllAnswered env (self.pollMessages env input).1 input.done (self.pollMessages env input).2
  | _ => True

instance (self : CurlSession) : (op : ClientOp) → Decidable (self.Delivers env op)
  | .act action => inferInstanceAs (Decidable (self.KeepsHandlers action))
  | .startNewRequests _ => inferInstanceAs (Decidable (_ → ∀ _ ∈ _, _))
  | .poll _ => inferInstanceAs (Decidable (_ → _ → AllAnswered ..))
  | .enable | .disable | .registerDefaultHeader .. => .isTrue trivial

/-- A request with its handler. -/
def addressed (self : CurlSession) (req : Nat) : Nat × Option RequestHandler :=
  (req, (deref self.mem req).requestHandler)

/-- Each request that is under way has the handler that it had when it was accepted, and all
    others have been called back with theirs. -/
def Addressed (self : CurlSession) : Prop :=
  (self.callbacks.map (fun call => (call.1, some call.2)) ++
    self.underWay.map self.addressed).Perm self.acceptances

namespace Addressed

variable {env} {self next : CurlSession}

/-- What leaves the history and the handlers of the requests that are under way alone. -/
theorem of_underWay (h : self.Addressed) (hacceptances : next.acceptances = self.acceptances)
    (hcallbacks : next.callbacks = self.callbacks) (hunderWay : next.underWay.Perm self.underWay)
    (hhandlers : ∀ req ∈ self.underWay,
      (deref next.mem req).requestHandler = (deref self.mem req).requestHandler) :
    next.Addressed := by
  have hsame : self.underWay.map next.addressed = self.underWay.map self.addressed :=
    List.map_congr_left fun req hreq => congrArg (req, ·) (hhandlers req hreq)
  unfold Addressed
  rw [hacceptances, hcallbacks]
  exact ((hunderWay.map next.addressed).append_left _).trans (by rwa [hsame])

theorem schedule (h : self.Addressed) (req : Nat) : (self.schedule req).2.Addressed := by
  unfold CurlSession.schedule
  split
  · exact h
  · refine List.Perm.trans ?_ (h.append_right [self.addressed req])
    simp only [underWay, List.map_append, List.append_assoc]
    refine List.Perm.append_left _ (List.Perm.append_left _ ?_)
    exact List.perm_append_comm

theorem act (h : self.Addressed) {action : HandlerAction} (hkeeps : self.KeepsHandlers action) :
    (self.act action).Addressed := by
  cases action with
  | schedule req handler =>
    cases handler with
    | none => exact h.schedule req
    | some handler =>
      let changed : CurlSession :=
        { self with mem := self.mem.modify req ({ · with requestHandler := some handler }) }
      have hmem : (self.act (.schedule req (some handler))).mem = changed.mem := by
        simp only [CurlSession.act, scheduleWith, CurlSession.schedule]
        split <;> rfl
      have hchanged : changed.Addressed :=
        h.of_underWay rfl rfl (List.Perm.refl _) fun other hother => hmem ▸ hkeeps other hother
      exact hchanged.schedule req
  | update f => exact h.of_underWay rfl rfl (List.Perm.refl _) hkeeps

theorem react (h : self.Addressed) {actions : List HandlerAction}
    (hkeeps : AllKeepHandlers actions self) : (actions.foldl CurlSession.act self).Addressed := by
  induction actions generalizing self with
  | nil => exact h
  | cons action actions ih => exact ih (h.act hkeeps.1) hkeeps.2

theorem started (h : self.Addressed) {req : Nat} {queue : List Nat}
    (hqueue : self.client.scheduleQueue = req :: queue) (curl : CurlStart)
    (headerList : List Bytes) : (self.started env curl req headerList).Addressed := by
  let added := self.popRequest.multiAddHandle (self.handleFor req headerList)
  obtain ⟨mem, multi, heq⟩ := multiPerform_eq env added curl.perform
  obtain ⟨hqueue', _, hrunning⟩ := started_client env self curl req headerList
  have hhandlers : ∀ other ∈ self.underWay,
      (deref (added.multiPerform env curl.perform).mem other).requestHandler =
        (deref added.mem other).requestHandler :=
    fun other _ => multiPerform_field (fun _ _ => rfl) curl.perform other
  refine h.of_underWay ?_ ?_ ?_ hhandlers
  · exact congrArg (·.acceptances) heq
  · exact congrArg (·.callbacks) heq
  · rw [underWay, underWay, hqueue', hrunning, hqueue, List.map_append, ← List.append_assoc]
    exact List.perm_append_singleton req _

theorem pollMessages (h : self.Addressed) (input : PollInput) :
    (self.pollMessages env input).2.Addressed := by
  unfold CurlSession.pollMessages
  split
  · exact h
  · obtain ⟨mem, multi, heq⟩ := multiPerform_eq env self input.perform
    have hhandlers (req : Nat) :
        (deref (self.multiPerform env input.perform).mem req).requestHandler =
          (deref self.mem req).requestHandler :=
      multiPerform_field (fun _ _ => rfl) input.perform req
    rw [heq] at hhandlers ⊢
    exact h.of_underWay rfl rfl (List.Perm.refl _) fun req _ => hhandlers req

end Addressed

variable {env} {self next : CurlSession}

theorem react_cleanup (self : CurlSession) (handle : CurlHandleData)
    (actions : List HandlerAction) :
    (actions.foldl act self).cleanupCurlHandleData handle =
      actions.foldl act (self.cleanupCurlHandleData handle) := by
  induction actions generalizing self with
  | nil => rfl
  | cons action actions ih =>
    have haction : (self.act action).cleanupCurlHandleData handle =
        (self.cleanupCurlHandleData handle).act action := by
      cases action with
      | schedule req handler =>
        cases henabled : self.client.enabled <;> cases handler <;>
          simp [act, scheduleWith, schedule, cleanupCurlHandleData, henabled]
      | update f => rfl
    rw [List.foldl_cons, ih, haction, ← List.foldl_cons]

/-- A message whose request has a response that can be parsed calls the handler of the request
    back and cleans the handle up. -/
theorem finish_of_hasParsableResponse {handle : CurlHandleData} {input : DoneInput}
    (hraw : (deref self.mem handle.request).hasParsableResponse = true)
    (hnext : self.finish env handle input = some next) : ∃ mem done handler,
      self.noteTransfer env handle input = { self with mem } ∧
      (deref mem handle.request).doneCb = some (true, done) ∧ done.requestHandler = some handler ∧
      (∀ p, (deref mem p).requestHandler = (deref self.mem p).requestHandler) ∧
      next = (input.reaction.foldl act
        { self with
          mem := mem.modify handle.request fun _ => done
          callbacks := self.callbacks ++ [(handle.request, handler)] }).cleanupCurlHandleData
            handle := by
  obtain ⟨mem, heq, hsame⟩ := noteTransfer_eq env self handle input
  have hraw' : (deref mem handle.request).hasParsableResponse = true := by
    simpa only [Request.hasParsableResponse, (hsame _).1] using hraw
  obtain ⟨done, hdone⟩ := Request.doneCb_of_hasParsableResponse hraw'
  unfold finish at hnext
  rw [heq] at hnext
  simp only [hdone, Option.map_eq_some_iff] at hnext
  obtain ⟨handler, hhandler, rfl⟩ := hnext
  exact ⟨mem, done, handler, heq, hdone, hhandler, fun p => (hsame p).2, rfl⟩

/-- The handler of a request that is done has been called. -/
theorem Addressed.called (h : self.Addressed) {handle : CurlHandleData}
    (hsplit : self.client.runningHandles.Perm
      (handle :: self.client.runningHandles.eraseP (·.easyHandle == handle.easyHandle)))
    {handler : RequestHandler}
    (hhandler : (deref self.mem handle.request).requestHandler = some handler) {mem : Heap Request}
    (hsame : ∀ p, (deref mem p).requestHandler = (deref self.mem p).requestHandler) :
    ({ self with
      mem
      callbacks := self.callbacks ++ [(handle.request, handler)] } : CurlSession)
        |>.cleanupCurlHandleData handle |>.Addressed := by
  have hrest : self.underWay.Perm (handle.request :: (self.client.scheduleQueue ++
      (self.client.runningHandles.eraseP (·.easyHandle == handle.easyHandle)).map (·.request))) :=
    ((hsplit.map (·.request)).append_left _).trans List.perm_middle
  have hown : self.addressed handle.request = (handle.request, some handler) :=
    congrArg (handle.request, ·) hhandler
  refine List.Perm.trans ?_ (((hrest.map self.addressed).append_left _).symm.trans h)
  have hrests (l : List Nat) : l.map (fun req => (req, (deref mem req).requestHandler)) =
      l.map self.addressed := List.map_congr_left fun req _ => congrArg (req, ·) (hsame req)
  apply List.Perm.of_eq
  rw [List.map_cons, hown, ← hrests]
  simp only [cleanupCurlHandleData, underWay, List.map_append, List.map_singleton,
    List.append_assoc, List.singleton_append]
  rfl

/-- One message, whose handle is running: what is under way is still addressed. -/
theorem Addressed.finish {handle : CurlHandleData} {messages : List CurlHandleData}
    {inputs : List DoneInput} (h : self.Addressed) (htracked : Tracked [] (handle :: messages) self)
    (hanswered : AllAnswered env (handle :: messages) inputs self)
    (hnext : self.finish env handle (inputs.headD {}) = some next) :
    Tracked [] messages next ∧ next.Addressed := by
  obtain ⟨hraw, hkeeps, _⟩ := hanswered
  obtain ⟨mem, done, handler, hnote, hdone, hhandler, hsame, rfl⟩ :=
    finish_of_hasParsableResponse hraw hnext
  refine ⟨htracked.finish (mem.modify handle.request fun _ => done) handler
    (SameTransfers.react _ _), ?_⟩
  have hreaction := hkeeps (true, done) (by rw [hnote]; exact hdone) handler hhandler
  rw [reacting, hnote] at hreaction
  rw [react_cleanup]
  obtain ⟨hhandles, hdistinct, _⟩ := htracked.running
  have hmem : handle ∈ self.client.runningHandles :=
    hhandles.mem_iff.mpr (List.mem_append_right _ List.mem_cons_self)
  have hsplit := keyed.perm_cons_filter hdistinct hmem
  rw [← keyed.eraseP_eq_filter hdistinct] at hsplit
  have hdoneHandler : done.requestHandler = (deref mem handle.request).requestHandler :=
    Request.doneCb_requestHandler hdone
  refine Addressed.react (h.called hsplit ?_ fun p => ?_) hreaction
  · rw [← hsame, ← hdoneHandler, hhandler]
  · exact (deref_replace_keeps (·.requestHandler) hdoneHandler p).trans (hsame p)

theorem Addressed.processMessages {messages : List CurlHandleData} {inputs : List DoneInput}
    {last : CurlSession} (h : self.Addressed) (htracked : Tracked [] messages self)
    (hanswered : AllAnswered env messages inputs self)
    (hlast : CurlSession.processMessages env messages inputs self = some last) :
    Tracked [] [] last ∧ last.Addressed := by
  induction messages generalizing self inputs with
  | nil =>
    cases hlast
    exact ⟨htracked, h⟩
  | cons handle messages ih =>
    obtain ⟨next, hnext, hrest⟩ := Option.bind_eq_some_iff.mp hlast
    obtain ⟨htracked', h'⟩ := h.finish htracked hanswered hnext
    exact ih h' htracked' (hanswered.2.2 _ hnext) hrest

theorem Addressed.step {op : ClientOp} (h : self.Addressed) (htracked : Tracked [] [] self)
    (hdelivers : self.Delivers env op) (hstep : self.step env op = some next) :
    Tracked [] [] next ∧ next.Addressed := by
  cases op with
  | enable =>
    cases hstep
    exact ⟨⟨htracked.requests, htracked.handles, htracked.distinct, htracked.bound⟩, h⟩
  | disable =>
    cases hstep
    exact ⟨⟨htracked.requests, htracked.handles, htracked.distinct, htracked.bound⟩, h⟩
  | registerDefaultHeader domain name value =>
    cases hstep
    unfold CurlHttpClient.registerDefaultHeader
    split
    · exact ⟨htracked, h⟩
    · exact ⟨⟨htracked.requests, htracked.handles, htracked.distinct, htracked.bound⟩, h⟩
  | act action =>
    cases hstep
    exact ⟨htracked.of_sameTransfers (.act self action), h.act hdelivers⟩
  | startNewRequests curls =>
    cases hstep
    unfold CurlSession.startNewRequests
    split
    · exact ⟨htracked, h⟩
    · rename_i henabled
      split
      · exact ⟨htracked, h⟩
      · have hstarted (session : CurlSession) (curl : CurlStart) (req : Nat) (queue : List Nat)
            (headerList : List Bytes) (hkept : Tracked [] [] session ∧ session.Addressed)
            (hqueue : session.client.scheduleQueue = req :: queue) :
            Tracked [] [] (session.started env curl req headerList) ∧
              (session.started env curl req headerList).Addressed :=
          ⟨hkept.1.started hqueue curl headerList, hkept.2.started hqueue curl headerList⟩
        exact startLoop_preserves (P := fun session => Tracked [] [] session ∧ session.Addressed)
          hstarted ⟨htracked, h⟩ (hdelivers (by simpa using henabled))
  | poll input =>
    obtain ⟨⟨count, last⟩, hpoll, rfl⟩ := Option.map_eq_some_iff.mp hstep
    unfold CurlSession.poll at hpoll
    split at hpoll
    · cases hpoll
      exact ⟨htracked, h⟩
    · rename_i hrunning
      split at hpoll
      · cases hpoll
        exact ⟨htracked, h⟩
      · rename_i hselect
        obtain ⟨last, hprocess, heq⟩ := Option.map_eq_some_iff.mp hpoll
        cases heq
        have hanswered := hdelivers (by simpa using hrunning) hselect
        exact (h.pollMessages input).processMessages (htracked.pollMessages input) hanswered
          hprocess

/-- In every run of steps that lose no callback: where nothing is queued and no handle is
    running, each time a request was accepted has had one callback, of the handler that the
    request had then, and there was no other callback. -/
theorem calledBack_of_run {mem : Heap Request} {ops : List ClientOp} {last : CurlSession}
    (hdelivers : Along (CurlSession.step env) (Delivers env) (initialized mem) ops)
    (hrun : run (CurlSession.step env) (initialized mem) ops = some last)
    (hqueue : last.client.scheduleQueue = []) (hrunning : last.client.runningHandles = []) :
    (last.callbacks.map fun call => (call.1, some call.2)).Perm last.acceptances := by
  have hstart : Tracked [] [] (initialized mem) ∧ (initialized mem).Addressed :=
    ⟨initialized_tracked mem, List.Perm.refl _⟩
  obtain ⟨_, hlast⟩ := run_preserves_along
    (P := fun session : CurlSession => Tracked [] [] session ∧ session.Addressed)
    (fun _ _ _ h hok hstep => h.2.step h.1 hok hstep) hstart hdelivers hrun
  rw [Addressed, underWay, hqueue, hrunning] at hlast
  simpa using hlast

/-- Two requests with handlers of their own are on the wire together and end in the other
    order. The handler of the one that ends first schedules it for a third handler. -/
def crossedTransfers : List ClientOp :=
  [.act (.schedule 0 (some .crawler)), .act (.schedule 1 (some .notFoundDetector)),
    .startNewRequests [{ perform := { runningHandles := 1 } },
      { perform := { runningHandles := 2 } }],
    .poll
      { select := 1
        perform :=
          { events := [.data 1 okResponse 1 okResponse.length, .done 1,
              .data 0 okResponse 1 okResponse.length, .done 0] }
        done := [{ reaction := [.schedule 1 (some .hiddenObjectsFinder)] }] },
    .startNewRequests [{ perform :=
      { events := [.data 2 okResponse 1 okResponse.length, .done 2] } }],
    .poll { select := 1 }]

theorem calledBack_of_run_crossedTransfers : ∃ last,
    run (step directEnv) (initialized ⟨[plainRequest, plainRequest]⟩) crossedTransfers =
        some last ∧
      last.acceptances =
        [(0, some .crawler), (1, some .notFoundDetector), (1, some .hiddenObjectsFinder)] ∧
      (last.callbacks.map fun call => (call.1, some call.2)).Perm last.acceptances := by
  have hdelivers : Along (step directEnv) (Delivers directEnv)
      (initialized ⟨[plainRequest, plainRequest]⟩) crossedTransfers := by decide +kernel
  exact ⟨_, rfl, rfl, calledBack_of_run hdelivers rfl rfl rfl⟩

/-- A request for which no bytes are received, one with a response that is not HTTP, and
    one for which libcurl fails to perform the transfer, are accepted, and nothing is
    left of them in the client, but no handler is called back. Where a request that is on the
    wire is scheduled for another handler, that one is called back for both. -/
theorem scheduled_not_calledBack :
    (∀ received ∈ [[], ascii "220 ready"], ∃ last,
      run (step directEnv) (initialized ⟨[plainRequest]⟩) (oneTransfer received) = some last ∧
        last.client.scheduleQueue = [] ∧ last.client.runningHandles = [] ∧
        last.acceptances = [(0, some .crawler)] ∧ last.callbacks = []) ∧
    (∃ last, run (step directEnv) (initialized ⟨[plainRequest]⟩)
        [.act (.schedule 0 (some .crawler)),
          .startNewRequests [{ perform := { fails := true } }]] = some last ∧
      last.client.scheduleQueue = [] ∧ last.client.runningHandles = [] ∧
      last.acceptances = [(0, some .crawler)] ∧ last.callbacks = []) ∧
    ∃ last, run (step directEnv) (initialized ⟨[plainRequest]⟩)
        [.act (.schedule 0 (some .crawler)),
          .startNewRequests [{ perform := { runningHandles := 1 } }],
          .act (.schedule 0 (some .notFoundDetector)),
          .startNewRequests [{ perform :=
            { events := [.data 0 okResponse 1 okResponse.length, .done 0] } }],
          .poll { select := 1 },
          .poll
            { select := 1
              perform := { events := [.data 1 okResponse 1 okResponse.length, .done 1] } }] =
        some last ∧
      last.client.scheduleQueue = [] ∧ last.client.runningHandles = [] ∧
      last.acceptances = [(0, some .crawler), (0, some .notFoundDetector)] ∧
      last.callbacks = [(0, .notFoundDetector), (0, .notFoundDetector)] := by
  refine ⟨?_, ⟨_, rfl, rfl, rfl, rfl, rfl⟩, _, rfl, rfl, rfl, rfl, rfl⟩
  intro received hreceived
  simp only [List.mem_cons, List.not_mem_nil, or_false] at hreceived
  rcases hreceived with rfl | rfl
  · exact ⟨_, rfl, rfl, rfl, rfl, rfl⟩
  · exact ⟨_, rfl, rfl, rfl, rfl, rfl⟩

end CurlSession

end plusfish

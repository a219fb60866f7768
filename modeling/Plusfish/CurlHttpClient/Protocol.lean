import Plusfish.CurlHttpClient
import Plusfish.Library.Keyed
import Plusfish.Library.Run

open memory transition

namespace plusfish

/-- A call of the client, or something that the code around it does to requests. -/
inductive ClientOp where
  | enable
  | disable
  | registerDefaultHeader (domain name value : Bytes)
  | act (action : HandlerAction)
  | startNewRequests (curls : List CurlStart)
  | poll (input : PollInput)

namespace CurlSession

def step (env : CurlEnv) (self : CurlSession) : ClientOp → Option CurlSession
  | .enable => some { self with client := { self.client with enabled := true } }
  | .disable => some { self with client := { self.client with enabled := false } }
  | .registerDefaultHeader domain name value =>
    some { self with client := (self.client.registerDefaultHeader domain name value).2 }
  | .act action => some (self.act action)
  | .startNewRequests curls => some (self.startNewRequests env curls).2
  | .poll input => (self.poll env input).map (·.2)

/-- Every request accepted is queued, on the wire or has been called back, as often as
    it was accepted. The handles on the wire are those in `running_handles_` and those
    being started; libcurl has each of them as a transfer or as a message, apart from
    the messages that are being processed. -/
structure Tracked (starting processing : List CurlHandleData) (session : CurlSession) : Prop where
  requests : ∀ req, session.accepted.count req = session.client.scheduleQueue.count req +
    (session.client.runningHandles ++ starting).countP (·.request == req) +
      session.callbacks.countP (·.1 == req)
  handles : (session.client.runningHandles ++ starting).Perm
    (session.multi.transfers ++ session.multi.messages ++ processing)
  distinct : ((session.client.runningHandles ++ starting).map (·.easyHandle)).Nodup
  bound : ∀ handle ∈ session.client.runningHandles ++ starting,
    handle.easyHandle < session.multi.nextHandle

/-- What a handler can do to the client: it leaves the transfers alone, and what it
    adds to the queue was accepted. -/
structure SameTransfers (session session' : CurlSession) : Prop where
  running : session'.client.runningHandles = session.client.runningHandles
  multi : session'.multi = session.multi
  callbacks : session'.callbacks = session.callbacks
  requests : ∀ req, session'.accepted.count req + session.client.scheduleQueue.count req =
    session.accepted.count req + session'.client.scheduleQueue.count req

namespace SameTransfers

theorem of_mem (self : CurlSession) (mem : Heap Request) :
    SameTransfers self { self with mem } :=
  ⟨rfl, rfl, rfl, fun _ => rfl⟩

theorem trans {a b c : CurlSession} (hab : SameTransfers a b) (hbc : SameTransfers b c) :
    SameTransfers a c := by
  refine ⟨hbc.running.trans hab.running, hbc.multi.trans hab.multi,
    hbc.callbacks.trans hab.callbacks, fun req => ?_⟩
  have hfirst := hab.requests req
  have hsecond := hbc.requests req
  omega

theorem schedule (self : CurlSession) (req : Nat) : SameTransfers self (self.schedule req).2 := by
  unfold CurlSession.schedule
  split
  · exact of_mem self self.mem
  · refine ⟨rfl, rfl, rfl, fun other => ?_⟩
    simp only [accepted, List.map_append, List.map_singleton, List.count_append]
    omega

theorem act (self : CurlSession) (action : HandlerAction) :
    SameTransfers self (self.act action) := by
  cases action with
  | schedule req handler =>
    cases handler with
    | none => exact schedule self req
    | some handler => exact (of_mem self _).trans (schedule _ req)
  | update f => exact of_mem self _

theorem react (self : CurlSession) (actions : List HandlerAction) :
    SameTransfers self (actions.foldl CurlSession.act self) := by
  induction actions generalizing self with
  | nil => exact of_mem self self.mem
  | cons action actions ih => exact (act self action).trans (ih _)

end SameTransfers

namespace Tracked

variable {env : CurlEnv} {starting processing : List CurlHandleData} {self : CurlSession}

theorem of_sameTransfers (h : Tracked starting processing self) {self' : CurlSession}
    (hsame : SameTransfers self self') : Tracked starting processing self' := by
  refine ⟨fun req => ?_, ?_, ?_, ?_⟩
  · have hbefore := h.requests req
    have hadded := hsame.requests req
    rw [hsame.running, hsame.callbacks]
    omega
  · rw [hsame.running, hsame.multi]
    exact h.handles
  · rw [hsame.running]
    exact h.distinct
  · rw [hsame.running, hsame.multi]
    exact h.bound

theorem of_mem (h : Tracked starting processing self) (mem : Heap Request) :
    Tracked starting processing { self with mem } :=
  h.of_sameTransfers (.of_mem self mem)

theorem onEvent (h : Tracked starting processing self) (event : TransferEvent) :
    Tracked starting processing (self.onEvent env event) := by
  cases event with
  | data easyHandle buffer size multiplier =>
    simp only [CurlSession.onEvent]
    split
    · exact h
    · exact h.of_mem _
  | done easyHandle =>
    simp only [CurlSession.onEvent]
    cases hfind : self.multi.transfers.find? (·.easyHandle == easyHandle) with
    | none => exact h
    | some handle =>
      have hmem := List.mem_of_find?_eq_some hfind
      have hkey : handle.easyHandle = easyHandle := by simpa using List.find?_some hfind
      have hdistinct : (self.multi.transfers.map (·.easyHandle)).Nodup := by
        have hall := (h.handles.map (·.easyHandle)).nodup_iff.mp h.distinct
        simp only [List.map_append, List.append_assoc] at hall
        exact hall.of_append_left
      have hsplit := keyed.perm_cons_filter hdistinct hmem
      rw [hkey] at hsplit
      have hmoved : (self.multi.transfers ++ self.multi.messages).Perm
          (self.multi.transfers.filter (·.easyHandle != easyHandle) ++
            (self.multi.messages ++ [handle])) := by
        apply (hsplit.append_right _).trans
        rw [← List.append_assoc]
        exact (List.perm_append_singleton handle _).symm
      exact ⟨h.requests, h.handles.trans (hmoved.append_right _), h.distinct, h.bound⟩

theorem multiPerform (h : Tracked starting processing self) (perform : CurlPerform) :
    Tracked starting processing (self.multiPerform env perform) := by
  have hevents (events : List TransferEvent) :
      Tracked starting processing (events.foldl (CurlSession.onEvent env) self) := by
    induction events generalizing self with
    | nil => exact h
    | cons event events ih => exact ih (h.onEvent event)
  exact ⟨(hevents _).requests, (hevents _).handles, (hevents _).distinct, (hevents _).bound⟩

/-- Where no handle is being started, those on the wire are the ones that are running. -/
theorem running (h : Tracked [] processing self) :
    self.client.runningHandles.Perm
        (self.multi.transfers ++ self.multi.messages ++ processing) ∧
      (self.client.runningHandles.map (·.easyHandle)).Nodup ∧
      ∀ handle ∈ self.client.runningHandles, handle.easyHandle < self.multi.nextHandle := by
  have hhandles := h.handles
  have hdistinct := h.distinct
  have hbound := h.bound
  rw [List.append_nil] at hhandles hdistinct hbound
  exact ⟨hhandles, hdistinct, hbound⟩

theorem multiAddHandle {req : Nat} {queue : List Nat} (h : Tracked [] [] self)
    (hqueue : self.client.scheduleQueue = req :: queue) (headerList : List Bytes) :
    Tracked [self.handleFor req headerList] []
      (self.popRequest.multiAddHandle (self.handleFor req headerList)) := by
  obtain ⟨hhandles, hdistinct, hbound⟩ := h.running
  rw [List.append_nil] at hhandles
  refine ⟨fun other => ?_, ?_, ?_, fun other hother => ?_⟩
  · have hcount := h.requests other
    rw [hqueue, List.append_nil, List.count_cons] at hcount
    simp only [accepted, CurlSession.multiAddHandle, popRequest, handleFor, hqueue,
      List.tail_cons, List.countP_append, List.countP_cons, List.countP_nil] at hcount ⊢
    omega
  · simp only [CurlSession.multiAddHandle, popRequest, List.append_nil]
    apply (hhandles.append_right _).trans
    rw [List.append_assoc, List.append_assoc]
    exact List.perm_append_comm.append_left _
  · rw [List.map_append]
    refine hdistinct.append (List.nodup_singleton _) (List.disjoint_singleton.mpr fun hmem => ?_)
    obtain ⟨old, hold, heq⟩ := List.mem_map.mp hmem
    exact absurd heq (Nat.ne_of_lt (hbound old hold))
  · simp only [CurlSession.multiAddHandle, popRequest]
    rcases List.mem_append.mp hother with hold | hnew
    · exact Nat.lt_succ_of_lt (hbound other hold)
    · cases List.mem_singleton.mp hnew
      exact Nat.lt_succ_self _

theorem addRunningHandle {handle : CurlHandleData} (h : Tracked [handle] processing self) :
    Tracked [] processing (self.addRunningHandle handle) := by
  refine ⟨?_, ?_, ?_, ?_⟩ <;>
    simp only [CurlSession.addRunningHandle, List.append_nil]
  · exact h.requests
  · exact h.handles
  · exact h.distinct
  · exact h.bound

/-- A handle that has been called back is cleaned up. What was tracked before the
    callback is tracked after the cleanup, whatever the handler did in between. -/
theorem finish {handle : CurlHandleData} {messages : List CurlHandleData}
    (h : Tracked [] (handle :: messages) self) (mem : Heap Request) (handler : RequestHandler)
    {self' : CurlSession}
    (hsame : SameTransfers
      { self with mem, callbacks := self.callbacks ++ [(handle.request, handler)] } self') :
    Tracked [] messages (self'.cleanupCurlHandleData handle) := by
  obtain ⟨hhandles, hdistinct, hbound⟩ := h.running
  have hmem : handle ∈ self.client.runningHandles :=
    hhandles.mem_iff.mpr (List.mem_append_right _ List.mem_cons_self)
  have hsplit := keyed.perm_cons_filter hdistinct hmem
  rw [← keyed.eraseP_eq_filter hdistinct] at hsplit
  have hrunning : self'.client.runningHandles = self.client.runningHandles := hsame.running
  have hmulti : self'.multi = self.multi := hsame.multi
  refine ⟨fun req => ?_, ?_, ?_, fun other hother => ?_⟩
  · have hbefore := h.requests req
    have hadded := hsame.requests req
    have hrest := hsplit.countP_eq (·.request == req)
    rw [List.append_nil, hrest, List.countP_cons] at hbefore
    simp only [accepted, CurlSession.cleanupCurlHandleData, hrunning, hsame.callbacks,
      List.append_nil, List.countP_append, List.countP_cons, List.countP_nil] at hbefore hadded ⊢
    omega
  · simp only [CurlSession.cleanupCurlHandleData, hrunning, hmulti, List.append_nil]
    have hmiddle := hsplit.symm.trans (hhandles.trans List.perm_middle)
    exact hmiddle.cons_inv
  · simp only [CurlSession.cleanupCurlHandleData, hrunning, List.append_nil]
    exact (List.nodup_cons.mp ((hsplit.map _).nodup_iff.mp hdistinct)).2
  · simp only [CurlSession.cleanupCurlHandleData, hrunning, hmulti, List.append_nil] at hother ⊢
    exact hbound other (hsplit.mem_iff.mpr (List.mem_cons_of_mem _ hother))

end Tracked

end CurlSession

/-- The response that was received for a request is not empty and can be parsed. -/
def Request.hasParsableResponse (self : Request) : Bool :=
  self.rawResponse ≠ [] && (Response.parse {} self.rawResponse).any (·.1)

theorem Request.doneCb_of_hasParsableResponse {request : Request}
    (h : request.hasParsableResponse = true) : ∃ done, request.doneCb = some (true, done) := by
  simp only [hasParsableResponse, ne_eq, decide_not, Bool.and_eq_true, Bool.not_eq_true',
    decide_eq_false_iff_not] at h
  obtain ⟨hbytes, hparse⟩ := h
  unfold doneCb
  rw [if_neg hbytes]
  cases hresult : Response.parse {} request.rawResponse with
  | none => simp [hresult] at hparse
  | some result =>
    obtain ⟨accepted, response⟩ := result
    cases accepted with
    | false => simp [hresult] at hparse
    | true => exact ⟨_, rfl⟩

/-- Every step that sets up a request for libcurl succeeds. -/
def CurlStart.setsUp (env : CurlEnv) (client : CurlHttpClient) (curl : CurlStart)
    (req : Request) : Bool :=
  CurlHttpClient.newHandle env curl req && (client.setRequestHeaders curl req).isSome &&
    !(curl.setOptFails .private || curl.multiAddHandleFails) && !curl.perform.fails

theorem CurlStart.setsUp_congr {env : CurlEnv} {client client' : CurlHttpClient}
    {curl : CurlStart} {req req' : Request} (hproto : req'.proto = req.proto)
    (hheaders : client'.defaultHeaders = client.defaultHeaders) :
    curl.setsUp env client' req' = curl.setsUp env client req := by
  unfold setsUp CurlHttpClient.newHandle CurlHttpClient.setRequestHeaders Request.host
  rw [hproto, hheaders]

namespace CurlSession

variable {env : CurlEnv} {self : CurlSession}

section
variable {β : Type} {field : Request → β}
  (hreceive : ∀ request buffer, field (Request.responseCb request buffer) = field request)
include hreceive

/-- Receiving bytes changes nothing but the response. -/
theorem onEvent_field (event : TransferEvent) (p : Nat) :
    field (deref (self.onEvent env event).mem p) = field (deref self.mem p) := by
  cases event with
  | data easyHandle buffer size multiplier =>
    simp only [onEvent]
    split
    · rfl
    · refine deref_modify_keeps field _ _ _ fun request => ?_
      unfold curlCallback
      dsimp only
      split_ifs
      · rfl
      · rfl
      · rfl
      · exact hreceive request _
  | done easyHandle =>
    simp only [onEvent]
    split <;> rfl

theorem multiPerform_field (perform : CurlPerform) (p : Nat) :
    field (deref (self.multiPerform env perform).mem p) = field (deref self.mem p) := by
  have hevents (events : List TransferEvent) :
      field (deref (events.foldl (onEvent env) self).mem p) = field (deref self.mem p) := by
    induction events generalizing self with
    | nil => rfl
    | cons event events ih => exact ih.trans (onEvent_field hreceive event p)
  exact hevents perform.events

end

theorem onEvent_eq (env : CurlEnv) (self : CurlSession) (event : TransferEvent) :
    ∃ mem multi, self.onEvent env event = { self with mem, multi } := by
  cases event <;> simp only [onEvent] <;> split <;> exact ⟨_, _, rfl⟩

/-- Performing transfers leaves the queue, the handles and the history of the client alone. -/
theorem multiPerform_eq (env : CurlEnv) (self : CurlSession) (perform : CurlPerform) :
    ∃ mem multi, self.multiPerform env perform =
      { self with
        mem
        multi
        client := { self.client with curlHandleCnt := perform.runningHandles } } := by
  have hevents (self : CurlSession) (events : List TransferEvent) :
      ∃ mem multi, events.foldl (onEvent env) self = { self with mem, multi } := by
    induction events generalizing self with
    | nil => exact ⟨self.mem, self.multi, rfl⟩
    | cons event events ih =>
      obtain ⟨mem, multi, heq⟩ := onEvent_eq env self event
      obtain ⟨mem', multi', heq'⟩ := ih { self with mem, multi }
      exact ⟨mem', multi', by rw [List.foldl_cons, heq, heq']⟩
  obtain ⟨mem, multi, heq⟩ := hevents self perform.events
  exact ⟨mem, multi, by rw [multiPerform, heq]⟩

/-- The session after one request has been started. -/
def started (env : CurlEnv) (self : CurlSession) (curl : CurlStart) (req : Nat)
    (headerList : List Bytes) : CurlSession :=
  ((self.popRequest.multiAddHandle (self.handleFor req headerList)).multiPerform env
    curl.perform).addRunningHandle (self.handleFor req headerList)

theorem started_client (env : CurlEnv) (self : CurlSession) (curl : CurlStart) (req : Nat)
    (headerList : List Bytes) :
    (self.started env curl req headerList).client.scheduleQueue = self.client.scheduleQueue.tail ∧
      (self.started env curl req headerList).client.defaultHeaders = self.client.defaultHeaders ∧
      (self.started env curl req headerList).client.runningHandles =
        self.client.runningHandles ++ [self.handleFor req headerList] := by
  obtain ⟨mem, multi, heq⟩ := multiPerform_eq env
    (self.popRequest.multiAddHandle (self.handleFor req headerList)) curl.perform
  unfold started
  rw [heq]
  exact ⟨rfl, rfl, rfl⟩

/-- The loop takes one request from the queue and has its transfer added to curl and to
    the running handles, where the request can be set up. -/
theorem startLoop_of_setsUp {curl : CurlStart} (curls : List CurlStart) {maxToAdd : Int}
    {req : Nat} {queue : List Nat} (hqueue : self.client.scheduleQueue = req :: queue)
    (hroom : ¬ maxToAdd ≤ 0)
    (hsetup : curl.setsUp env self.client (deref self.mem req) = true) :
    ∃ headerList, self.startLoop env (curl :: curls) maxToAdd =
      startLoop env curls (maxToAdd - 1) (self.started env curl req headerList) := by
  simp only [CurlStart.setsUp, Bool.and_eq_true, Bool.not_eq_true'] at hsetup
  obtain ⟨⟨⟨hhandle, hheaders⟩, hadd⟩, hperform⟩ := hsetup
  obtain ⟨headerList, hlist⟩ := Option.isSome_iff_exists.mp hheaders
  have hpopped : self.popRequest.client.setRequestHeaders curl (deref self.popRequest.mem req) =
      some headerList := hlist
  have hhandle' : CurlHttpClient.newHandle env curl (deref self.popRequest.mem req) = true :=
    hhandle
  refine ⟨headerList, ?_⟩
  rw [startLoop]
  simp only [hqueue, hroom, if_false, hhandle', Bool.not_true, Bool.false_eq_true, hpopped, hadd,
    hperform]
  rfl

/-- Where every request can be set up, the loop keeps what starting one request keeps. -/
theorem startLoop_preserves {P : CurlSession → Prop}
    (hstarted : ∀ session curl req queue headerList, P session →
      session.client.scheduleQueue = req :: queue → P (session.started env curl req headerList))
    {curls : List CurlStart} {maxToAdd : Int} (h : P self)
    (hsetup : ∀ start ∈ (curls.zip self.client.scheduleQueue).take maxToAdd.toNat,
      start.1.setsUp env self.client (deref self.mem start.2) = true) :
    P (self.startLoop env curls maxToAdd).2 := by
  induction curls generalizing self maxToAdd with
  | nil => exact h
  | cons curl curls ih =>
    cases hqueue : self.client.scheduleQueue with
    | nil =>
      rw [CurlSession.startLoop]
      simp only [hqueue]
      exact h
    | cons req queue =>
      by_cases hroom : maxToAdd ≤ 0
      · rw [CurlSession.startLoop]
        simp only [hqueue, hroom, if_true]
        exact h
      · have htake : maxToAdd.toNat = (maxToAdd - 1).toNat + 1 := by omega
        rw [hqueue, List.zip_cons_cons, htake, List.take_succ_cons] at hsetup
        have hfirst : curl.setsUp env self.client (deref self.mem req) = true :=
          hsetup (curl, req) List.mem_cons_self
        obtain ⟨headerList, heq⟩ := startLoop_of_setsUp curls hqueue hroom hfirst
        obtain ⟨hqueue', hheaders, _⟩ := started_client env self curl req headerList
        rw [heq]
        apply ih (hstarted self curl req queue headerList h hqueue)
        intro start hstart
        rw [hqueue', hqueue, List.tail_cons] at hstart
        have hold := hsetup start (List.mem_cons_of_mem _ hstart)
        rw [← hold]
        exact CurlStart.setsUp_congr
          (multiPerform_field (fun _ _ => rfl) curl.perform start.2) hheaders

theorem Tracked.started (h : Tracked [] [] self) {req : Nat} {queue : List Nat}
    (hqueue : self.client.scheduleQueue = req :: queue) (curl : CurlStart)
    (headerList : List Bytes) : Tracked [] [] (self.started env curl req headerList) :=
  ((h.multiAddHandle hqueue headerList).multiPerform curl.perform).addRunningHandle

/-- Noting what is known about a transfer changes requests only, and neither a response nor a
    handler. -/
theorem noteTransfer_eq (env : CurlEnv) (self : CurlSession) (handle : CurlHandleData)
    (input : DoneInput) : ∃ mem, self.noteTransfer env handle input = { self with mem } ∧ ∀ p,
      (deref mem p).rawResponse = (deref self.mem p).rawResponse ∧
        (deref mem p).requestHandler = (deref self.mem p).requestHandler := by
  let kept (request : Request) := (request.rawResponse, request.requestHandler)
  have hip : ∃ mem, self.captureIp env handle.request input.primaryIp = { self with mem } ∧
      ∀ p, kept (deref mem p) = kept (deref self.mem p) := by
    unfold captureIp
    split
    · split
      · exact ⟨_, rfl, fun p => deref_modify_keeps kept _ _ _ fun _ => rfl⟩
      · exact ⟨self.mem, rfl, fun _ => rfl⟩
    · exact ⟨self.mem, rfl, fun _ => rfl⟩
  obtain ⟨mem, heq, hkept⟩ := hip
  unfold noteTransfer
  rw [heq]
  unfold setRequestTimestamps
  split
  · exact ⟨mem, rfl, fun p => Prod.mk.inj (hkept p)⟩
  · refine ⟨_, rfl, fun p => Prod.mk.inj (Eq.trans ?_ (hkept p))⟩
    exact deref_modify_keeps kept _ _ _ fun _ => rfl

/-- The messages that `Poll` takes from curl are tracked while it processes them. -/
theorem Tracked.pollMessages (h : Tracked [] [] self) (input : PollInput) :
    Tracked [] (self.pollMessages env input).1 (self.pollMessages env input).2 := by
  have htaken (session : CurlSession) (h : Tracked [] [] session) :
      Tracked [] session.multi.messages
        { session with multi := { session.multi with messages := [] } } :=
    ⟨h.requests, by simpa using h.handles, h.distinct, h.bound⟩
  unfold CurlSession.pollMessages
  split
  · exact htaken _ h
  · exact htaken _ (h.multiPerform input.perform)

/-- A session of an initialized client that has done nothing yet. -/
def initialized (mem : Heap Request) : CurlSession := { mem, client := { enabled := true } }

theorem initialized_tracked (mem : Heap Request) : Tracked [] [] (initialized mem) :=
  ⟨fun _ => rfl, List.Perm.refl _, List.nodup_nil, fun _ h => by cases h⟩

/-- A client without a proxy or a certificate. -/
def directEnv : CurlEnv where
  maxActiveHandlesAllowed := 12
  maxResponseReadSize := 524288
  httpProxy := []
  clientSslCert := []
  clientSslKey := []
  clientSslKeyPassword := []

/-- A request with the header that every request gets. -/
def plainRequest : Request :=
  { proto :=
      { header := [{ nameField := some (ascii "User-Agent"), valueField := some [] }] } }

/-- One request is scheduled, and its transfer ends with the given bytes received. -/
def oneTransfer (received : Bytes) : List ClientOp :=
  [.act (.schedule 0 (some .crawler)),
    .startNewRequests [{ perform :=
      { events := [.data 0 received 1 received.length, .done 0] } }],
    .poll { select := 1 }]

def okResponse : Bytes := ascii "HTTP/1.1 200 OK" ++ [13, 10, 13, 10]

end CurlSession

end plusfish

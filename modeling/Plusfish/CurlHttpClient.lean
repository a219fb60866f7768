import Plusfish.Pivot

open memory

namespace plusfish

/-- The options of an easy handle that the client sets. -/
inductive CurlOption where
  | pathAsIs | url | proxy | keyPasswd | sslCert | sslKey | writeFunction | cookieFile
  | bufferSize | timeout | protocols | share | writeData | sslVerifyPeer | sslVerifyHost
  | header | copyPostFields | httpHeader | «private»
deriving DecidableEq, Repr

/-- The flags of the client. The number of handles that may be active at a time is
    computed from the connection limit in floating point. -/
structure CurlEnv where
  maxActiveHandlesAllowed : Int
  maxResponseReadSize : Int32
  httpProxy : Bytes
  clientSslCert : Bytes
  clientSslKey : Bytes
  clientSslKeyPassword : Bytes

/-- What happens to a transfer while libcurl performs it. -/
inductive TransferEvent where
  | data (easyHandle : Nat) (buffer : Bytes) (size multiplier : Nat)
  | done (easyHandle : Nat)

/-- One call of `MultiPerform`: its events, the number of running handles it reports,
    and whether it fails. -/
structure CurlPerform where
  events : List TransferEvent := []
  runningHandles : Int := 0
  fails : Bool := false

/-- The answers of libcurl to the calls made to start one request. -/
structure CurlStart where
  easyInit : Bool := true
  setOptFails : CurlOption → Bool := fun _ => false
  appendSlist : Bytes → Bool := fun _ => true
  multiAddHandleFails : Bool := false
  perform : CurlPerform := {}

/-- What a request handler does to the rest of the program, as far as the client can
    tell: schedule requests, and change or create requests. -/
inductive HandlerAction where
  | schedule (req : Nat) (handler : Option RequestHandler)
  | update (f : Heap Request → Heap Request)

/-- What libcurl knows about a finished transfer, and what the handler does on it. -/
structure DoneInput where
  primaryIp : Option Bytes := none
  /-- The total and the connect time, in microseconds, and the time of day. -/
  times : Option (Int × Int × Int) := none
  reaction : List HandlerAction := []

structure PollInput where
  select : Int
  perform : CurlPerform := {}
  done : List DoneInput := []

structure CurlHandleData where
  easyHandle : Nat
  headerList : List Bytes
  request : Nat

structure CurlHttpClient where
  enabled : Bool := false
  curlHandleCnt : Int := 0
  requestsPerformed : Nat := 0
  scheduleQueue : List Nat := []
  runningHandles : List CurlHandleData := []
  defaultHeaders : List (Bytes × List (Bytes × Bytes)) := []

/-- The multi handle of libcurl: the transfers that have been added and have not ended,
    and the messages about those that have. -/
structure CurlMulti where
  transfers : List CurlHandleData := []
  messages : List CurlHandleData := []
  nextHandle : Nat := 0

/-- The client with the requests and the library it works on, and the history of the
    requests it accepted, each with the handler that it had then, and of the callbacks that
    were made. -/
structure CurlSession where
  mem : Heap Request := {}
  client : CurlHttpClient := {}
  multi : CurlMulti := {}
  acceptances : List (Nat × Option RequestHandler) := []
  callbacks : List (Nat × RequestHandler) := []

def CurlSession.accepted (self : CurlSession) : List Nat := self.acceptances.map (·.1)

/-- `CurlCallback`: the number of bytes taken, and the request with them. `ResponseCb` takes the
    number of bytes as an `int`, and appending a negative number of them throws: the result is
    `none` then. -/
def curlCallback (env : CurlEnv) (buffer : Bytes) (size multiplier : Nat) (request : Request) :
    Option (Nat × Request) :=
  if (2 ^ 64 - 1) / size < multiplier then some (0, request)
  else if (size + request.rawResponse.length) % 2 ^ 64 > sizeT env.maxResponseReadSize then
    some (0, request)
  else
    let count := (size * multiplier : Int).bmod (2 ^ 32)
    if count < 0 then none
    else some (size * multiplier, request.responseCb (buffer.take count.toNat))

namespace CurlHttpClient

def kWildcardHostname : Bytes := ascii "*"

/-- Whether `NewHandle` makes a handle. -/
def newHandle (env : CurlEnv) (curl : CurlStart) (req : Request) : Bool :=
  if !curl.easyInit || curl.setOptFails .pathAsIs || curl.setOptFails .url then false
  else if env.httpProxy ≠ [] && curl.setOptFails .proxy then false
  else if env.clientSslCert ≠ [] && env.clientSslKey = [] then false
  else if env.clientSslCert ≠ [] && env.clientSslKeyPassword ≠ [] &&
      curl.setOptFails .keyPasswd then false
  else if env.clientSslCert ≠ [] &&
      (curl.setOptFails .sslCert || curl.setOptFails .sslKey) then false
  else if [CurlOption.writeFunction, .cookieFile, .bufferSize, .timeout, .protocols, .share,
      .writeData, .sslVerifyPeer, .sslVerifyHost, .header].any curl.setOptFails then false
  else if req.proto.method = .post && curl.setOptFails .copyPostFields then false
  else true

def headerLine (name value : Bytes) : Bytes := cStr (name ++ ascii ": " ++ value)

/-- The header list that is given to curl, where that succeeds. -/
def setRequestHeaders (self : CurlHttpClient) (curl : CurlStart) (req : Request) :
    Option (List Bytes) :=
  if req.proto.header = [] then none
  else
    let own := req.proto.header.map fun header => headerLine header.name header.value
    let domains := self.defaultHeaders.filter fun domain =>
      cStr domain.1 == kWildcardHostname || strCaseEq req.host domain.1
    let default := domains.flatMap fun domain =>
      domain.2.map fun header => headerLine header.1 header.2
    if (own ++ default).all curl.appendSlist && !curl.setOptFails .httpHeader then
      some (own ++ default)
    else none

def registerDefaultHeader (self : CurlHttpClient) (domain name value : Bytes) :
    Bool × CurlHttpClient :=
  if name = [] || value = [] then (false, self)
  else
    let setIn (headers : List (Bytes × Bytes)) : List (Bytes × Bytes) :=
      if headers.any (·.1 == name) then
        headers.map fun header => if header.1 = name then (name, value) else header
      else headers ++ [(name, value)]
    let defaultHeaders :=
      if self.defaultHeaders.any (·.1 == domain) then
        self.defaultHeaders.map fun entry =>
          if entry.1 = domain then (domain, setIn entry.2) else entry
      else self.defaultHeaders ++ [(domain, [(name, value)])]
    (true, { self with defaultHeaders })

end CurlHttpClient

namespace CurlSession

open CurlHttpClient

def schedule (self : CurlSession) (req : Nat) : Bool × CurlSession :=
  if !self.client.enabled then (false, self)
  else
    (true, { self with
      client := { self.client with scheduleQueue := self.client.scheduleQueue ++ [req] }
      acceptances := self.acceptances ++ [(req, (deref self.mem req).requestHandler)] })

def scheduleWith (self : CurlSession) (req : Nat) (handler : RequestHandler) :
    Bool × CurlSession :=
  schedule { self with mem := self.mem.modify req ({ · with requestHandler := some handler }) } req

variable (env : CurlEnv)

/-- One event of `MultiPerform`. Data goes to the request of the transfer, unless the callback
    throws, which ends the program. The end of a transfer leaves a message. -/
def onEvent (self : CurlSession) : TransferEvent → CurlSession
  | .data easyHandle buffer size multiplier =>
    match self.multi.transfers.find? (·.easyHandle == easyHandle) with
    | none => self
    | some handle =>
      { self with
        mem := self.mem.modify handle.request fun request =>
          ((curlCallback env buffer size multiplier request).map (·.2)).getD request }
  | .done easyHandle =>
    match self.multi.transfers.find? (·.easyHandle == easyHandle) with
    | none => self
    | some handle =>
      { self with
        multi := { self.multi with
          transfers := self.multi.transfers.filter (·.easyHandle != easyHandle)
          messages := self.multi.messages ++ [handle] } }

def multiPerform (self : CurlSession) (perform : CurlPerform) : CurlSession :=
  let self := perform.events.foldl (onEvent env) self
  { self with client := { self.client with curlHandleCnt := perform.runningHandles } }

def multiAddHandle (self : CurlSession) (handle : CurlHandleData) : CurlSession :=
  { self with
    multi := { self.multi with
      transfers := self.multi.transfers ++ [handle]
      nextHandle := self.multi.nextHandle + 1 } }

/-- Destroying an easy handle takes it out of the multi handle. -/
def easyCleanup (self : CurlSession) (handle : CurlHandleData) : CurlSession :=
  { self with
    multi := { self.multi with
      transfers := self.multi.transfers.filter (·.easyHandle != handle.easyHandle)
      messages := self.multi.messages.filter (·.easyHandle != handle.easyHandle) } }

def addRunningHandle (self : CurlSession) (handle : CurlHandleData) : CurlSession :=
  { self with
    client := { self.client with
      requestsPerformed := self.client.requestsPerformed + 1
      runningHandles := self.client.runningHandles ++ [handle] } }

def popRequest (self : CurlSession) : CurlSession :=
  { self with
    client := { self.client with scheduleQueue := self.client.scheduleQueue.tail } }

/-- The handle that a request is about to get. -/
def handleFor (self : CurlSession) (req : Nat) (headerList : List Bytes) : CurlHandleData :=
  { easyHandle := self.multi.nextHandle, headerList, request := req }

/-- The loop of `StartNewRequests`, with libcurl's answers for each time the rate
    limiter grants a slot. -/
def startLoop : List CurlStart → Int → CurlSession → Bool × CurlSession
  | [], _, self => (true, self)
  | curl :: curls, maxToAdd, self =>
    match self.client.scheduleQueue with
    | [] => (true, self)
    | req :: _ =>
      if maxToAdd ≤ 0 then (true, self)
      else
        let self := self.popRequest
        if !newHandle env curl (deref self.mem req) then (false, self)
        else
          match self.client.setRequestHeaders curl (deref self.mem req) with
          | none => (false, self)
          | some headerList =>
            if curl.setOptFails .private || curl.multiAddHandleFails then (false, self)
            else
              let handle := self.handleFor req headerList
              let self := (self.multiAddHandle handle).multiPerform env curl.perform
              if curl.perform.fails then (false, self.easyCleanup handle)
              else startLoop curls (maxToAdd - 1) (self.addRunningHandle handle)

def startNewRequests (self : CurlSession) (curls : List CurlStart) : Bool × CurlSession :=
  if !self.client.enabled then (false, self)
  else if self.client.curlHandleCnt ≥ env.maxActiveHandlesAllowed then (true, self)
  else startLoop env curls (env.maxActiveHandlesAllowed - self.client.curlHandleCnt) self

def setRequestTimestamps (self : CurlSession) (req : Nat) (times : Option (Int × Int × Int)) :
    CurlSession :=
  match times with
  | none => self
  | some (totalTime, connectTime, now) =>
    { self with
      mem := self.mem.modify req fun request =>
        { request with
          proto := { request.proto with
            clientTimeApplicationUsec := some (totalTime - connectTime)
            clientTimeTotalUsec := some totalTime
            clientCompletionTimeMs := some (now * 1000) } } }

def captureIp (self : CurlSession) (req : Nat) (primaryIp : Option Bytes) : CurlSession :=
  match primaryIp with
  | some ip =>
    if env.httpProxy = [] then { self with mem := self.mem.modify req (·.setIp ip) } else self
  | none => self

def act (self : CurlSession) : HandlerAction → CurlSession
  | .schedule req none => (self.schedule req).2
  | .schedule req (some handler) => (self.scheduleWith req handler).2
  | .update f => { self with mem := f self.mem }

/-- `CleanupCurlHandleData`. -/
def cleanupCurlHandleData (self : CurlSession) (handle : CurlHandleData) : CurlSession :=
  { self with
    client := { self.client with
      runningHandles :=
        self.client.runningHandles.eraseP (·.easyHandle == handle.easyHandle) } }

/-- What is known about a finished transfer is noted in its request. -/
def noteTransfer (self : CurlSession) (handle : CurlHandleData) (input : DoneInput) :
    CurlSession :=
  (self.captureIp env handle.request input.primaryIp).setRequestTimestamps handle.request
    input.times

/-- The message that a transfer is done. The result is `none` where parsing reads out
    of range, and where a request without a handler would be called back. -/
def finish (self : CurlSession) (handle : CurlHandleData) (input : DoneInput) :
    Option CurlSession :=
  let self := self.noteTransfer env handle input
  match (deref self.mem handle.request).doneCb with
  | none => none
  | some (false, done) =>
    some (cleanupCurlHandleData
      { self with mem := self.mem.modify handle.request fun _ => done } handle)
  | some (true, done) =>
    done.requestHandler.map fun handler =>
      let self := { self with
        mem := self.mem.modify handle.request fun _ => done
        callbacks := self.callbacks ++ [(handle.request, handler)] }
      (input.reaction.foldl act self).cleanupCurlHandleData handle

/-- The loop of `Poll` over the messages. -/
def processMessages : List CurlHandleData → List DoneInput → CurlSession → Option CurlSession
  | [], _, self => some self
  | handle :: messages, inputs, self =>
    (self.finish env handle (inputs.headD {})).bind (processMessages messages inputs.tail)

/-- The session after the I/O of `Poll`, with the messages it is about to process. -/
def pollMessages (self : CurlSession) (input : PollInput) : List CurlHandleData × CurlSession :=
  let self := if input.select = -1 then self else self.multiPerform env input.perform
  (self.multi.messages, { self with multi := { self.multi with messages := [] } })

def poll (self : CurlSession) (input : PollInput) : Option (Int × CurlSession) :=
  if self.client.runningHandles.isEmpty then some (0, self)
  else if input.select = 0 then some (0, self)
  else
    let (messages, self) := self.pollMessages env input
    (processMessages env messages input.done self).map fun self =>
      (self.client.curlHandleCnt, self)

end CurlSession

end plusfish

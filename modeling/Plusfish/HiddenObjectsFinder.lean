import Plusfish.NotFoundDetector

open memory ordered_map

namespace plusfish

namespace HiddenObjectsFinder

/-- The word and its flag in a line of the word list. -/
def parseWordlistLine (line : Bytes) : Option (Bytes × Bool) :=
  match line.splitOnP fun c => c == 32 || c == 9 with
  | [word, [flag]] => if 48 ≤ flag && flag ≤ 57 then some (word, flag ≠ 48) else none
  | _ => none

def addWordlistLine (self : HiddenObjectsFinder) (line : Bytes) : Bool × HiddenObjectsFinder :=
  match parseWordlistLine line with
  | none => (false, self)
  | some (word, flag) =>
    (true, { self with wordlist :=
      if self.wordlist.any (·.1 == word) then
        self.wordlist.map fun entry => if entry.1 = word then (word, flag) else entry
      else self.wordlist ++ [(word, flag)] })

/-- `LoadListFromFile`, which puts the lines of a file that can be opened into a hash set. The set
    is given by the order in which it is iterated. -/
def loadListFromFile (hashOrder : List Bytes → List Bytes) (content : Option Bytes)
    (output : List Bytes) : List Bytes :=
  match content with
  | none => output
  | some content => hashOrder (output ++ (content.splitOn 10).filter (· ≠ []))

def loadWordlistFromFile (self : HiddenObjectsFinder) (hashOrder : List Bytes → List Bytes)
    (content : Option Bytes) : HiddenObjectsFinder :=
  (loadListFromFile hashOrder content []).foldl
    (fun self line => (self.addWordlistLine line).2) self

def loadExtensionsFromFile (self : HiddenObjectsFinder) (hashOrder : List Bytes → List Bytes)
    (content : Option Bytes) : HiddenObjectsFinder :=
  { self with extensions := loadListFromFile hashOrder content self.extensions }

def addUrl (self : HiddenObjectsFinder) (url : Bytes) : HiddenObjectsFinder :=
  { self with pendingUrls := self.pendingUrls ++ [url] }

/-- The test URLs of a word, where some URLs have been probed. -/
def testUrlsOfWord (self : HiddenObjectsFinder) (probedUrls : List Bytes) (baseUrl : Bytes)
    (word : Bytes × Bool) : List Bytes :=
  let testUrl := baseUrl ++ word.1
  if probedUrls.contains testUrl then []
  else if !word.2 then [testUrl]
  else testUrl :: (self.extensions.map (testUrl ++ ·)).filter (!probedUrls.contains ·)

/-- The test URLs that `GenerateTestUrls` adds for a URL. -/
def newTestUrls (self : HiddenObjectsFinder) (url : Bytes) : List Bytes :=
  if self.probedUrls.contains url then []
  else self.wordlist.flatMap
    (self.testUrlsOfWord (self.probedUrls ++ [url]) (util.stripUrlFileSuffix url))

def generateTestUrls (self : HiddenObjectsFinder) (url : Bytes) : HiddenObjectsFinder :=
  { self with
    testUrlsQueue := self.testUrlsQueue ++ self.newTestUrls url
    probedUrls :=
      if self.probedUrls.contains url then self.probedUrls else self.probedUrls ++ [url] }

/-- The first part of `ScheduleRequests`: test URLs are generated where there are none. -/
def refill (self : HiddenObjectsFinder) : HiddenObjectsFinder :=
  match self.testUrlsQueue, self.pendingUrls with
  | [], url :: pendingUrls => { self with pendingUrls }.generateTestUrls url
  | _, _ => self

end HiddenObjectsFinder

namespace Scan

section
variable (env : ScanEnv)

/-- The finder keeps a request that was scheduled. -/
def keepTest (scan : Scan) (testUrl : Bytes) (req : Nat) : Scan :=
  { scan with
    objectsFinder := { scan.objectsFinder with
      requests := assign scan.objectsFinder.requests testUrl req } }

/-- One round of the loop in `ScheduleRequests`. -/
def testObject (scan : Scan) (testUrl : Bytes) : Scan :=
  let (req, scan) := scan.newRequest env testUrl
  let (accepted, scan) := scan.scheduleWith env .hiddenObjectsFinder req .hiddenObjectsFinder
  if accepted then scan.keepTest testUrl req else scan

def popTestUrl (scan : Scan) : Scan :=
  { scan with
    objectsFinder := { scan.objectsFinder with
      testUrlsQueue := scan.objectsFinder.testUrlsQueue.tail } }

def scheduleTests : (amount : Nat) → Scan → Scan
  | 0, scan => scan
  | amount + 1, scan =>
    match scan.objectsFinder.testUrlsQueue with
    | [] => scan
    | testUrl :: _ => scheduleTests amount (scan.popTestUrl.testObject env testUrl)

/-- `HiddenObjectsFinder::ScheduleRequests`. -/
def scheduleObjectRequests (scan : Scan) (amount : Nat) : Scan :=
  scheduleTests env amount { scan with objectsFinder := scan.objectsFinder.refill }

def eraseTest (scan : Scan) (url : Bytes) : Scan :=
  { scan with
    objectsFinder := { scan.objectsFinder with
      requests := erase scan.objectsFinder.requests url } }

/-- The request of an object that was found is given to the datastore. One that is refused has
    been destroyed when its URL is read again. The result is `none` where the source gives away
    or reads through a null pointer. -/
def addFoundObject (scan : Scan) (req : Nat) : Option Scan :=
  (find scan.objectsFinder.requests (deref scan.mem req).url).bind fun found =>
    let (requestId, mem, store) := scan.store.addRequest env.store scan.mem found
    let scan := { scan with mem, store }.eraseTest (deref mem req).url
    if requestId = kInvalidId then some scan
    else
      (scan.store.addIssueById env.store scan.mem requestId .objectFound .moderate).map
        fun (_, mem, store) =>
          { scan with
            mem
            store
            objectsFinder := { scan.objectsFinder with
              numObjectsFound := scan.objectsFinder.numObjectsFound + 1 } }

/-- `HiddenObjectsFinder::RequestCallback`. -/
def hiddenObjectCallback (scan : Scan) (req : Nat) : Option Scan :=
  let request := deref scan.mem req
  match request.response with
  | none => some (scan.eraseTest request.url)
  | some response =>
    if response.proto.code = .notFound ∨ response.proto.code = .forbidden then
      some (scan.eraseTest request.url)
    else
      let scan := { scan with
        objectsFinder := { scan.objectsFinder with
          numCompletedRequests := scan.objectsFinder.numCompletedRequests + 1 } }
      match env.parseFingerprint response.body with
      | none => some (scan.eraseTest request.url)
      | some fingerprint =>
        if scan.store.isFileNotFoundHtmlFingerprint (some fingerprint) then
          some (scan.eraseTest request.url)
        else scan.addFoundObject env req

end

end Scan

end plusfish

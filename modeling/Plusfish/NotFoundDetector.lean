import Plusfish.Scan

open memory ordered_map

namespace plusfish

namespace util

/-- The position after the first `//`, or the one that the source computes where there
    is none. -/
def afterSchemeEnd : Bytes → Option Nat
  | [] => none
  | c :: rest =>
    if c = 47 ∧ rest.head? = some 47 then some 2
    else (afterSchemeEnd rest).map (· + 1)

/-- `StripUrlFileSuffix`. A URL does not start with a question mark, where the source would
    resize the string to the size before 0. -/
def stripUrlFileSuffix (url : Bytes) : Bytes :=
  let finalUrl := match url.findIdx? (· == 63) with
    | some params => url.take (params - 1)
    | none => url
  -- `npos + 2` wraps around to 1.
  let pathStart := (afterSchemeEnd finalUrl).getD 1
  if (finalUrl.drop pathStart).contains 47 then
    -- Up to and including the last slash.
    (finalUrl.reverse.dropWhile (· ≠ 47)).reverse
  else finalUrl ++ [47]

end util

/-- The number that the detector draws for a directory. -/
structure ProbeNumber where
  value : Nat
  atLeast : 42 ≤ value
  atMost : value ≤ 41424344

namespace NotFoundDetector

def kExtensionsToProbe : List Bytes :=
  ["html", "php", "jsp", "asp", "aspx", "rb", "cgi", "pl", "py"].map ascii

def targetUrl (baseUrl : Bytes) (number : ProbeNumber) (ext : Bytes) : Bytes :=
  baseUrl ++ decimal number.value ++ ascii "." ++ ext

end NotFoundDetector

namespace Scan

open NotFoundDetector

section
variable (env : ScanEnv)

/-- A new request for a URL, with a handler. -/
def newRequest (scan : Scan) (url : Bytes) : Nat × Scan :=
  let (req, mem) := scan.mem.alloc (Request.ofUrl env.request url none)
  (req, { scan with mem })

/-- The detector keeps a request that was scheduled. -/
def keepProbe (scan : Scan) (baseUrl : Bytes) (req : Nat) : Scan :=
  let detector := scan.notFoundDetector
  { scan with
    notFoundDetector := { detector with
      requests := assign detector.requests (deref scan.mem req).url req
      probedUrls :=
        if detector.probedUrls.contains baseUrl then detector.probedUrls
        else detector.probedUrls ++ [baseUrl] } }

/-- One round of the loop in `NotFoundDetector::AddUrl`. -/
def probe (baseUrl : Bytes) (number : ProbeNumber) (scan : Scan) (ext : Bytes) : Scan :=
  let (req, scan) := scan.newRequest env (targetUrl baseUrl number ext)
  let (accepted, scan) := scan.scheduleWith env .notFoundDetector req .notFoundDetector
  if accepted then scan.keepProbe baseUrl req else scan

/-- `NotFoundDetector::AddUrl`. -/
def addProbeUrl (scan : Scan) (url : Bytes) (number : ProbeNumber) : Bool × Scan :=
  let baseUrl := util.stripUrlFileSuffix url
  if scan.notFoundDetector.probedUrls.contains baseUrl then (false, scan)
  else (true, kExtensionsToProbe.foldl (probe env baseUrl number) scan)

/-- `NotFoundDetector::RequestCallback`. -/
def notFoundCallback (scan : Scan) (req : Nat) : Scan :=
  let request := deref scan.mem req
  let detector := scan.notFoundDetector
  let requests := erase detector.requests request.url
  match request.response with
  | none => { scan with notFoundDetector := { detector with requests } }
  | some response =>
    let numCompletedRequests := detector.numCompletedRequests + 1
    { scan with
      notFoundDetector := { detector with requests, numCompletedRequests }
      store := match env.parseFingerprint response.body with
        | none => scan.store
        | some fingerprint => scan.store.addFileNotFoundHtmlFingerprint fingerprint }

end

end Scan

end plusfish

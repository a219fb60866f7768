import Plusfish.HtmlFingerprint
import Plusfish.Proto

namespace plusfish

namespace HTTPHeaders

def kContentType : Bytes := ascii "Content-type"
def kUserAgent : Bytes := ascii "User-Agent"
def kLocation : Bytes := ascii "Location"

/-- The content types that are known by name. -/
def kContentTypes : List (String × MimeType) :=
  [("text/plain", .ascGeneric), ("text/html", .ascHtml), ("text/xml", .xmlGeneric),
   ("text/rtf", .ascRtf), ("text/vnd.wap.wml", .xmlWml),
   ("text/x-cross-domain-policy", .xmlCrossdomain), ("text/css", .ascCss),
   ("text/json", .ascJson), ("text/javascript", .ascJavascript), ("image/svg+xml", .xmlSvg),
   ("image/jpeg", .imgJpeg), ("image/gif", .imgGif), ("image/png", .imgPng),
   ("image/x-ms-bmp", .imgBmp), ("image/tiff", .imgTiff), ("image/svg+xml", .xmlSvg),
   ("video/avi", .avAvi), ("video/mpeg", .avMpeg), ("video/quicktime", .avQt),
   ("video/flv", .avFlv), ("video/vnd.rn-realvideo", .avRv), ("video/x-ms-wmv", .avWmedia),
   ("audio/x-wav", .avWav), ("audio/mpeg", .avMp3), ("audio/vnd.rn-realaudio", .avRa),
   ("application/binary", .appGeneric), ("application/unknown", .appUnknown),
   ("application/octet-stream", .appOctet), ("application/javascript", .appJavascript),
   ("application/x-javascript", .appJavascript), ("application/json", .appJson),
   ("application/postscript", .appPostscript), ("application/rss+xml", .xmlRss),
   ("application/atom+xml", .xmlAtom), ("application/xhtml+xml", .xmlXhtml),
   ("application/x-shockwave-flash", .extFlash), ("application/pdf", .extPdf),
   ("application/java-archive", .extJar), ("application/java-vm", .extClass),
   ("application/msword", .extWord), ("application/vnd.ms-excel", .extExcel),
   ("application/vnd.ms-powerpoint", .extPpnt), ("application/zip", .binZip),
   ("application/x-gzip", .binGzip), ("application/x-navi-animation", .imgAni),
   ("application/vnd.ms-cab-compressed", .binCab), ("application/ogg", .avOgg),
   ("application/opensearchdescription+xml", .xmlOpensearch)]

def getMimeType (contentType : Option Bytes) : MimeType :=
  match contentType with
  | none => .unknownMime
  | some contentType =>
    let mimePart := (strSplit contentType 59).headD []
    match kContentTypes.find? fun info => strCaseEq (ascii info.1) mimePart with
    | some info => info.2
    | none => .unknownMime

end HTTPHeaders

/-- `absl::SimpleAtoi` into an `int`: white space around a decimal number with an
    optional sign, refused where it does not fit. -/
def simpleAtoi (text : Bytes) : Option Int :=
  let stripped := ((text.dropWhile isSpace).reverse.dropWhile isSpace).reverse
  let (negative, digits) := match stripped with
    | 45 :: rest => (true, rest)
    | 43 :: rest => (false, rest)
    | rest => (false, rest)
  if digits ≠ [] ∧ digits.all (fun c => 48 ≤ c && c ≤ 57) then
    let magnitude := digits.foldl (fun acc c => 10 * acc + (c.toNat - 48 : Int)) 0
    let value := if negative then -magnitude else magnitude
    if -2 ^ 31 ≤ value ∧ value < 2 ^ 31 then some value else none
  else none

structure Response where
  proto : HttpResponse := {}
  htmlFingerprint : Option HtmlFingerprint := none
deriving DecidableEq

namespace Response

def kHeaderBodySplitString : Bytes := [13, 10, 13, 10]
def kHeaderBodySplitStringNoCr : Bytes := [10, 10]

def body (self : Response) : Bytes := self.proto.responseBody

def mimeType (self : Response) : MimeType := self.proto.mimeType

def setBody (self : Response) (body : Bytes) : Response :=
  { self with proto := { self.proto with responseBodyField := some body } }

def getHeader (self : Response) (headerName : Bytes) : Option Bytes :=
  (self.proto.header.find? fun header => strNCaseEq header.name headerName headerName.length).map
    (·.value)

def equals (self ref : Response) : Bool :=
  if ref.proto.code ≠ self.proto.code ∨ ref.mimeType ≠ self.proto.mimeType then false
  else if ref.mimeType = .ascHtml ∨ ref.mimeType = .xmlXhtml then
    match self.htmlFingerprint, ref.htmlFingerprint with
    | some own, some other => own.equals other
    -- A fingerprint that is missing on either side makes the responses differ.
    | _, _ => false
  else self.proto.responseBody == ref.proto.responseBody

/-- The offset of the first separator between headers and body, and its length. -/
def findSeparator : Bytes → Option (Nat × Nat)
  | [] => none
  | c :: rest =>
    if c = 13 ∧ (c :: rest).take 4 = kHeaderBodySplitString then
      some (0, kHeaderBodySplitString.length)
    else if c = 10 ∧ (c :: rest).take 2 = kHeaderBodySplitStringNoCr then
      some (0, kHeaderBodySplitStringNoCr.length)
    else (findSeparator rest).map fun (offset, length) => (offset + 1, length)

/-- The header field of a header line, where the line has a colon. -/
def parseHeaderLine (headerLine : Bytes) : Option HttpResponse.HeaderField :=
  match headerLine.findIdx? (· == 58) with
  | none => none
  | some colon =>
    let rest := headerLine.drop (colon + 1)
    let value := match rest with
      | 32 :: afterSpace => afterSpace
      | _ => rest
    some { nameField := some (headerLine.take colon)
           valueField := if value = [] then none else some value }

/-- Parses the header block into the message. The result is `none` where the
    source reads the first of no header lines, and otherwise says whether the
    block was accepted. -/
def parseHeaders (proto : HttpResponse) (headers : Bytes) : Option (Bool × HttpResponse) :=
  match strSplitAnySkipEmpty headers [13, 10] with
  | [] => none
  | statusText :: headerLines =>
    let statusLine := strSplit statusText 32
    if statusLine.length < 3 ∨ (statusLine.getD 0 []).take 4 ≠ ascii "HTTP" then
      some (false, proto)
    else
      match (simpleAtoi (statusLine.getD 1 [])).bind HttpResponse.ResponseCode.ofNumber? with
      | none => some (false, proto)
      | some .unknownCode => some (false, proto)
      | some code =>
        some (true, { proto with
          codeField := some code
          header := proto.header ++ headerLines.filterMap parseHeaderLine })

def identifyMime (self : Response) : MimeType :=
  HTTPHeaders.getMimeType (self.getHeader HTTPHeaders.kContentType)

/-- `Response::Parse`, with `none` for the out-of-range read of `parseHeaders`. -/
def parse (self : Response) (response : Bytes) : Option (Bool × Response) :=
  match findSeparator response with
  | none => some (false, self)
  | some (bodyOffset, separatorLength) =>
    let proto := { self.proto with
      responseBodyField := some (response.drop (bodyOffset + separatorLength)) }
    match parseHeaders proto (response.take bodyOffset) with
    | none => none
    | some (false, proto) => some (false, { self with proto })
    | some (true, proto) =>
      let parsed := { self with proto }
      some (true, { parsed with
        proto := { parsed.proto with mimeTypeField := some parsed.identifyMime } })

end Response

end plusfish

import Plusfish.HtmlFingerprint
import Plusfish.Parsers.GumboParser

namespace plusfish

namespace GumboFingerprintFilter

/-- `ParseElement`. The name of the tag ends with the tag, or with a blank. -/
def parseElement (element : GumboElement) (fingerprint : HtmlFingerprint) : HtmlFingerprint :=
  let fingerprint := match element.originalTag.data with
    | some (60 :: tag) =>
      match tag.findIdx? fun c => c = 62 || c = 32 with
      | some offset => fingerprint.addWord (tag.take offset)
      | none => fingerprint
    | _ => fingerprint
  element.attributes.foldl (fun fingerprint attr => fingerprint.addWord attr.name) fingerprint

def isAlphanumeric (word : Bytes) : Bool := word.all fun c => isAlnum c || isSpace c

def parseText (text : GumboText) (fingerprint : HtmlFingerprint) : HtmlFingerprint :=
  let content := (text.originalText.data.getD []).take text.originalText.length
  let chunks := content.splitOnP fun c => c = 32 || c = 9 || c = 10
  chunks.foldl (fun fingerprint chunk =>
    if isAlphanumeric chunk && chunk ≠ [] then fingerprint.addWord chunk else fingerprint)
    fingerprint

def filter : GumboFilter HtmlFingerprint where
  parseElement element _ := parseElement element
  parseComment _ := id
  parseText := parseText

end GumboFingerprintFilter

end plusfish

import Plusfish.Audit.IssueUtil
import Plusfish.Parsers.GumboParser
import Plusfish.Parsers.ScrapeUtil
import Plusfish.Request

namespace plusfish

namespace GumboXssFilter

open util

section
variable (regexes : ScrapeRegexes) (origRequest : Request)

/-- An issue for a payload that was found in an element. -/
def reportPayload (issueType : IssueDetails.IssueType) (reqId : Int) (element : GumboElement)
    (issues : List IssueDetails) : List IssueDetails :=
  updateIssueVectorWithSnippet issueType .high reqId
    ((origRequest.response.map (·.body)).getD []) element.startPos.offset
    (ascii "Found injected XSS payload at line: " ++ decimal element.startPos.line) issues

/-- `ParseElement`. In an unknown tag the payload is searched for, from its start on; among the
    attributes of a known one the first that is a payload is reported. -/
def parseElement (element : GumboElement) (issues : List IssueDetails) : List IssueDetails :=
  if element.tag = .unknown then
    match element.originalTag.data.bind regexes.tagXssPayload with
    | some reqId => reportPayload origRequest .xssReflectedTag reqId element issues
    | none => issues
  else
    match element.attributes.findSome? fun attr => regexes.xssPayload attr.name with
    | some reqId => reportPayload origRequest .xssReflectedAttribute reqId element issues
    | none => issues

def filter : GumboFilter (List IssueDetails) where
  parseElement element _ := parseElement regexes origRequest element
  parseComment _ := id
  parseText _ := id

end

end GumboXssFilter

end plusfish

import Plusfish.Proto

namespace plusfish

namespace util

def kSnippetOffset : Int := 100

/-- The part of a response around an offset, where the offset is in it: the comparison takes
    the offset as unsigned. -/
def responseSnippet (responseBody : Bytes) (responseBodyOffset : Int) : Option Bytes :=
  if (responseBodyOffset % 2 ^ 64).toNat < responseBody.length then
    let (startOffset, snippetSize) :=
      if kSnippetOffset < responseBodyOffset then
        (responseBodyOffset - kSnippetOffset, kSnippetOffset + kSnippetOffset)
      else (0, kSnippetOffset)
    some ((responseBody.drop startOffset.toNat).take snippetSize.toNat)
  else none

def updateIssueVectorWithSnippet (issueType : IssueDetails.IssueType) (severity : Severity)
    (reqId : Int) (responseBody : Bytes) (responseBodyOffset : Int) (extraInfo : Bytes)
    (issues : List IssueDetails) : List IssueDetails :=
  issues ++ [
    { severityField := some severity
      typeField := some issueType
      extraInfo := some extraInfo
      requestId := some reqId
      responseBodyOffset := some responseBodyOffset
      responseSnippet := responseSnippet responseBody responseBodyOffset }]

end util

end plusfish

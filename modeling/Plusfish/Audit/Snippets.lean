import Plusfish.Audit.IssueUtil

namespace plusfish

namespace util

/-- The bytes up to a hundred before and a hundred after an offset. -/
def snippetWindow (responseBody : Bytes) (offset : ℕ) : Bytes :=
  (responseBody.take (min responseBody.length (offset + 100))).drop (offset - 100)

/-- The snippet is the bytes around an offset, the one at the offset among them. -/
structure ShowsOffset (responseBody : Bytes) (offset : ℕ) (snippet : Bytes) : Prop where
  window : snippet = snippetWindow responseBody offset
  shown : snippet[offset - (offset - 100)]? = responseBody[offset]?
  length_le : snippet.length ≤ 200

variable {responseBody : Bytes} {offset : ℕ}

theorem length_snippetWindow (hoffset : offset < responseBody.length) :
    (snippetWindow responseBody offset).length =
      min responseBody.length (offset + 100) - (offset - 100) := by
  rw [snippetWindow, List.length_drop, List.length_take]
  omega

theorem snippetWindow_getElem? :
    (snippetWindow responseBody offset)[offset - (offset - 100)]? = responseBody[offset]? := by
  have hposition : offset - 100 + (offset - (offset - 100)) = offset := by omega
  rw [snippetWindow, List.getElem?_drop, hposition, List.getElem?_take]
  split
  · rfl
  · rename_i hend
    exact (List.getElem?_eq_none (by omega)).symm

/-- What is taken of the response where the offset is in it. -/
theorem responseSnippet_eq (hoffset : offset < responseBody.length) :
    responseSnippet responseBody offset =
      some (if 100 < offset then (responseBody.drop (offset - 100)).take 200
        else responseBody.take 100) := by
  have hlt : ((offset : Int) % 2 ^ 64).toNat < responseBody.length := by omega
  rw [responseSnippet, if_pos hlt, kSnippetOffset]
  by_cases hfar : 100 < offset
  · have hfar' : (100 : Int) < offset := by omega
    have hstart : ((offset : Int) - 100).toNat = offset - 100 := by omega
    rw [if_pos hfar, if_pos hfar']
    dsimp only
    rw [hstart]
    rfl
  · have hfar' : ¬ (100 : Int) < offset := by omega
    rw [if_neg hfar, if_neg hfar']
    rfl

/-- Past the first hundred bytes the snippet reaches as far to both sides, and before them it
    is the first hundred bytes. -/
theorem responseSnippet_eq_window_iff (hoffset : offset < responseBody.length) :
    responseSnippet responseBody offset = some (snippetWindow responseBody offset) ↔
      offset = 0 ∨ 100 < offset ∨ responseBody.length ≤ 100 := by
  rw [responseSnippet_eq hoffset, Option.some.injEq]
  constructor
  · intro heq
    by_contra hcondition
    have hnear : ¬ 100 < offset := by omega
    have hlength := congrArg List.length heq
    rw [if_neg hnear, length_snippetWindow hoffset, List.length_take] at hlength
    omega
  · intro hcondition
    rw [snippetWindow, List.drop_take]
    by_cases hfar : 100 < offset
    · have hsize : min responseBody.length (offset + 100) - (offset - 100) =
          min (responseBody.drop (offset - 100)).length 200 := by
        rw [List.length_drop]
        omega
      rw [if_pos hfar, hsize, List.take_eq_take_min, min_comm]
    · have hstart : offset - 100 = 0 := by omega
      rw [if_neg hfar, hstart, List.drop_zero, Nat.sub_zero, List.take_eq_take_min]
      congr 1
      omega

/-- The snippet that is stored shows the offset exactly at the start of the response, past its
    first hundred bytes, and in a response of at most a hundred bytes. -/
theorem updateIssueVectorWithSnippet_shows_iff (issueType : IssueDetails.IssueType)
    (severity : Severity) (reqId : Int) (hoffset : offset < responseBody.length)
    (extraInfo : Bytes) (issues : List IssueDetails) :
    ∃ issue snippet, updateIssueVectorWithSnippet issueType severity reqId responseBody offset
        extraInfo issues = issues ++ [issue] ∧ issue.responseSnippet = some snippet ∧
      (ShowsOffset responseBody offset snippet ↔
        offset = 0 ∨ 100 < offset ∨ responseBody.length ≤ 100) := by
  refine ⟨_, _, rfl, responseSnippet_eq hoffset, ?_⟩
  rw [← responseSnippet_eq_window_iff hoffset, responseSnippet_eq hoffset, Option.some.injEq]
  constructor
  · exact fun h => h.window
  · intro hwindow
    rw [hwindow]
    refine ⟨rfl, snippetWindow_getElem?, ?_⟩
    rw [length_snippetWindow hoffset]
    omega

/-- A response with one b in it, after a hundred other bytes. -/
def markedResponse : Bytes := List.replicate 100 97 ++ 98 :: List.replicate 50 97

theorem updateIssueVectorWithSnippet_shows_marked : ∃ issue snippet,
    updateIssueVectorWithSnippet .xssReflectedAttribute .high 42 markedResponse (120 : ℕ) [] [] =
        [issue] ∧ issue.responseSnippet = some snippet ∧
          ShowsOffset markedResponse 120 snippet := by
  obtain ⟨issue, snippet, hissues, hsnippet, hiff⟩ := updateIssueVectorWithSnippet_shows_iff
    .xssReflectedAttribute .high 42 (show 120 < markedResponse.length by decide +kernel) [] []
  exact ⟨issue, snippet, hissues, hsnippet, hiff.mpr (Or.inr (Or.inl (by decide)))⟩

/-- The snippet for the offset of the b is the bytes before it. -/
theorem markedOffset_notShown : ∃ issue snippet,
    updateIssueVectorWithSnippet .xssReflectedAttribute .high 42 markedResponse (100 : ℕ) [] [] =
        [issue] ∧ issue.responseSnippet = some snippet ∧ 98 ∉ snippet ∧
      markedResponse[100]? = some 98 ∧ ¬ ShowsOffset markedResponse 100 snippet := by
  refine ⟨_, List.replicate 100 97, rfl, by decide +kernel, by decide +kernel, by decide +kernel,
    fun h => ?_⟩
  have hshown := h.shown
  revert hshown
  decide +kernel

end util

end plusfish

import Plusfish.Response.Separator

namespace plusfish

namespace Response

/-- `s[i]` of a constant string, which has a zero byte at its size and no byte after it. -/
def charAt (s : Bytes) (i : Nat) : Option UInt8 := if i = s.length then some 0 else s[i]?

/-- `s.substr(pos)`, which throws for a position after the size. -/
def substr (s : Bytes) (pos : Nat) : Option Bytes :=
  if pos ≤ s.length then some (s.drop pos) else none

def separatorAt (response : Bytes) (bodyOffset : Nat) (first : UInt8) (separator : Bytes) :
    Option Bool := do
  if (← charAt response bodyOffset) = first then
    return (← substr response bodyOffset).take separator.length == separator
  else return false

/-- The loop of `Response::Parse`, from an offset on. -/
def separatorFrom (response : Bytes) (bodyOffset : Nat) : Option (Option (Nat × Nat)) :=
  if bodyOffset < response.length then do
    if ← separatorAt response bodyOffset 13 kHeaderBodySplitString then
      return some (bodyOffset, kHeaderBodySplitString.length)
    else if ← separatorAt response bodyOffset 10 kHeaderBodySplitStringNoCr then
      return some (bodyOffset, kHeaderBodySplitStringNoCr.length)
    else separatorFrom response (bodyOffset + 1)
  else some none
termination_by response.length - bodyOffset

def headerValueAt (headerLine : Bytes) (colonOffset : Nat) : Option (Option Bytes) := do
  let colonOffset :=
    if (← charAt headerLine colonOffset) = 32 ∧ colonOffset < headerLine.length then
      colonOffset + 1
    else colonOffset
  if colonOffset < headerLine.length then return some (← substr headerLine colonOffset)
  else return none

def headerFieldAt (headerLine : Bytes) : Option (Option HttpResponse.HeaderField) :=
  match headerLine.findIdx? (· == 58) with
  | none => some none
  | some colonOffset => do
    return some { nameField := some ((← substr headerLine 0).take colonOffset)
                  valueField := ← headerValueAt headerLine (colonOffset + 1) }

def isHttpAt (statusLine : List Bytes) : Option Bool := do
  if statusLine.length < 3 then return false
  else return (← substr (← statusLine[0]?) 0).take 4 == ascii "HTTP"

/-- `Response::ParseHeaders`, with every access to a vector or to a string. -/
def parseHeadersAt (proto : HttpResponse) (headers : Bytes) : Option (Bool × HttpResponse) := do
  let headerLines := strSplitAnySkipEmpty headers [13, 10]
  let statusLine := strSplit (← headerLines[0]?) 32
  let headerLines := headerLines.eraseIdx 0
  if !(← isHttpAt statusLine) then
    -- The warning has the first piece in it.
    let _ ← statusLine[0]?
    return (false, proto)
  else
    match (simpleAtoi (← statusLine[1]?)).bind HttpResponse.ResponseCode.ofNumber? with
    | none => return (false, proto)
    | some .unknownCode => return (false, proto)
    | some code =>
      return (true, { proto with
        codeField := some code
        header := proto.header ++ (← headerLines.mapM headerFieldAt).filterMap id })

/-- `Response::Parse`, with every access to a vector or to a string: the result is `none`
    where one of them is out of range. -/
def parseAt (self : Response) (response : Bytes) : Option (Bool × Response) := do
  match ← separatorFrom response 0 with
  | none => return (false, self)
  | some (bodyOffset, separatorLength) =>
    let headers := (← substr response 0).take bodyOffset
    let proto := { self.proto with
      responseBodyField := some (← substr response (bodyOffset + separatorLength)) }
    match ← parseHeadersAt proto headers with
    | (false, proto) => return (false, { self with proto })
    | (true, proto) =>
      let parsed := { self with proto }
      return (true, { parsed with
        proto := { parsed.proto with mimeTypeField := some parsed.identifyMime } })

theorem drop_eq_cons {s rest : Bytes} {i : Nat} {c : UInt8} (hdrop : s.drop i = c :: rest) :
    i < s.length ∧ s.drop (i + 1) = rest := by
  constructor
  · by_contra hnot
    rw [List.drop_eq_nil_of_le (by omega)] at hdrop
    cases hdrop
  · rw [← List.drop_drop, hdrop, List.drop_succ_cons, List.drop_zero]

theorem charAt_eq_some {s : Bytes} {i : Nat} (hi : i ≤ s.length) : ∃ c, charAt s i = some c := by
  unfold charAt
  split
  · exact ⟨0, rfl⟩
  · have hlt : i < s.length := by omega
    exact ⟨s[i], List.getElem?_eq_getElem hlt⟩

theorem charAt_of_drop {s rest : Bytes} {i : Nat} {c : UInt8} (hdrop : s.drop i = c :: rest) :
    charAt s i = some c := by
  have hi := (drop_eq_cons hdrop).1
  have hhead : s[i]? = some c := by rw [← List.head?_drop, hdrop, List.head?_cons]
  rw [charAt, if_neg (by omega), hhead]

theorem substr_eq_some {s : Bytes} {pos : Nat} (hpos : pos ≤ s.length) :
    substr s pos = some (s.drop pos) := if_pos hpos

theorem separatorAt_eq {response rest : Bytes} {bodyOffset : Nat} {c : UInt8}
    (hdrop : response.drop bodyOffset = c :: rest) (first : UInt8) (separator : Bytes) :
    separatorAt response bodyOffset first separator =
      some (decide (c = first ∧ (c :: rest).take separator.length = separator)) := by
  rw [separatorAt, charAt_of_drop hdrop, substr_eq_some (drop_eq_cons hdrop).1.le, hdrop]
  by_cases hfirst : c = first
  · simp [hfirst, beq_eq_decide]
  · simp [hfirst]

/-- The loop reads within bounds, and finds the separator of what is left of the response. -/
theorem separatorFrom_eq (response : Bytes) (bodyOffset : Nat) :
    separatorFrom response bodyOffset = some ((findSeparator (response.drop bodyOffset)).map
      fun found => (bodyOffset + found.1, found.2)) := by
  induction hleft : response.length - bodyOffset generalizing bodyOffset with
  | zero =>
    rw [separatorFrom, if_neg (by omega), List.drop_eq_nil_of_le (by omega)]
    rfl
  | succ left ih =>
    cases hdrop : response.drop bodyOffset with
    | nil =>
      have hlength := congrArg List.length hdrop
      rw [List.length_drop, List.length_nil] at hlength
      omega
    | cons c rest =>
      obtain ⟨_, hnext⟩ := drop_eq_cons hdrop
      rw [separatorFrom, if_pos (by omega), separatorAt_eq hdrop, separatorAt_eq hdrop,
        ih (bodyOffset + 1) (by omega), hnext, findSeparator]
      have hcr : kHeaderBodySplitString.length = 4 := rfl
      have hlf : kHeaderBodySplitStringNoCr.length = 2 := rfl
      rw [hcr, hlf]
      by_cases hatCr : c = 13 ∧ (c :: rest).take 4 = kHeaderBodySplitString
      · rw [decide_eq_true hatCr, if_pos hatCr]
        rfl
      · rw [decide_eq_false hatCr, if_neg hatCr]
        by_cases hatLf : c = 10 ∧ (c :: rest).take 2 = kHeaderBodySplitStringNoCr
        · rw [decide_eq_true hatLf, if_pos hatLf]
          rfl
        · rw [decide_eq_false hatLf, if_neg hatLf, Option.map_map]
          have hshift : ∀ found : Nat × Nat, (bodyOffset + 1 + found.1, found.2) =
              (bodyOffset + (found.1 + 1), found.2) := by
            intro found
            rw [Nat.add_right_comm, Nat.add_assoc]
          exact congrArg some (congrArg (Option.map · _) (funext hshift))

theorem headerValueAt_eq {headerLine : Bytes} {colonOffset : Nat}
    (hle : colonOffset ≤ headerLine.length) : headerValueAt headerLine colonOffset =
      some (
        let rest := headerLine.drop colonOffset
        let value := match rest with
          | 32 :: afterSpace => afterSpace
          | _ => rest
        if value = [] then none else some value) := by
  unfold headerValueAt
  cases hrest : headerLine.drop colonOffset with
  | nil =>
    -- The colon is the last byte: the zero byte after it is read, and there is no value.
    have hend : ¬ colonOffset < headerLine.length := by simpa using hrest
    obtain ⟨c, hc⟩ := charAt_eq_some hle
    simp [hc, hend]
  | cons c rest =>
    obtain ⟨hlt, hnext⟩ := drop_eq_cons hrest
    rw [charAt_of_drop hrest]
    by_cases hspace : c = 32
    · subst hspace
      simp only [Option.bind_eq_bind, Option.bind_some, hlt, and_self, if_true]
      by_cases hempty : rest = []
      · have hend : ¬ colonOffset + 1 < headerLine.length := by
          simpa [hempty] using hnext
        simp [hend, hempty]
      · have hmore : colonOffset + 1 < headerLine.length := by
          by_contra hnot
          rw [List.drop_eq_nil_of_le (by omega)] at hnext
          exact hempty hnext.symm
        have htext : substr headerLine (colonOffset + 1) = some rest := by
          rw [substr_eq_some hlt, hnext]
        simp [hmore, hempty, htext]
    · have htext : substr headerLine colonOffset = some (c :: rest) := by
        rw [substr_eq_some hle, hrest]
      simp [hspace, hlt, htext]

theorem headerFieldAt_eq (headerLine : Bytes) :
    headerFieldAt headerLine = some (parseHeaderLine headerLine) := by
  unfold headerFieldAt parseHeaderLine
  cases hcolon : headerLine.findIdx? (· == 58) with
  | none => rfl
  | some colon =>
    have hlt : colon < headerLine.length := (List.findIdx?_eq_some_iff_getElem.mp hcolon).1
    dsimp only
    rw [substr_eq_some (Nat.zero_le _), List.drop_zero, headerValueAt_eq hlt]
    rfl

theorem isHttpAt_eq (statusLine : List Bytes) : isHttpAt statusLine = some (decide
    (¬ (statusLine.length < 3 ∨ (statusLine.getD 0 []).take 4 ≠ ascii "HTTP"))) := by
  unfold isHttpAt
  match statusLine with
  | [] => rfl
  | [_] => rfl
  | [_, _] => rfl
  | first :: second :: third :: rest =>
    have hlong : ¬ (first :: second :: third :: rest).length < 3 := by
      simp only [List.length_cons]
      omega
    rw [if_neg hlong, List.getElem?_cons_zero, List.getD_cons_zero]
    simp [substr_eq_some, beq_eq_decide]

theorem parseHeadersAt_eq (proto : HttpResponse) (headers : Bytes) :
    parseHeadersAt proto headers = parseHeaders proto headers := by
  unfold parseHeadersAt parseHeaders
  cases strSplitAnySkipEmpty headers [13, 10] with
  | nil => rfl
  | cons statusText headerLines =>
    have hfields : headerLines.mapM headerFieldAt = some (headerLines.map parseHeaderLine) := by
      rw [funext headerFieldAt_eq]
      exact List.mapM_pure
    have hstatusText : (statusText :: headerLines)[0]? = some statusText := rfl
    simp only [hstatusText, Option.bind_eq_bind, Option.bind_some, isHttpAt_eq,
      List.eraseIdx_zero, List.tail_cons, hfields]
    -- There is a first piece to warn about, and a second piece where there are three.
    obtain ⟨first, rest, hpieces⟩ := List.exists_cons_of_ne_nil (List.splitOn_ne_nil 32 statusText)
    unfold strSplit
    rw [hpieces]
    by_cases hrefused : (first :: rest).length < 3 ∨
        ((first :: rest).getD 0 []).take 4 ≠ ascii "HTTP"
    · rw [if_pos hrefused, decide_eq_false (not_not_intro hrefused)]
      rfl
    · rw [if_neg hrefused, decide_eq_true hrefused]
      obtain ⟨second, more, rfl⟩ : ∃ second more, rest = second :: more := by
        refine List.exists_cons_of_ne_nil fun hnil => hrefused (.inl ?_)
        rw [hnil, List.length_singleton]
        decide
      have hsecond : (first :: second :: more)[1]? = some second := rfl
      rw [List.getD_cons_succ, List.getD_cons_zero]
      simp only [Bool.not_true, Bool.false_eq_true, if_false, hsecond, Option.bind_some,
        List.filterMap_map, Function.id_comp]
      cases (simpleAtoi second).bind HttpResponse.ResponseCode.ofNumber? with
      | none => rfl
      | some code => cases code <;> rfl

/-- The source reads out of range in one place only, which is the first of the header lines. -/
theorem parseAt_eq (self : Response) (response : Bytes) :
    self.parseAt response = self.parse response := by
  unfold parseAt
  rw [separatorFrom_eq, List.drop_zero]
  cases hfound : findSeparator response with
  | none =>
    unfold parse
    rw [hfound]
    rfl
  | some found =>
    obtain ⟨headers, separator, body, hsplit⟩ := exists_split hfound
    have hlength := congrArg List.length hsplit.eq
    simp only [List.length_append] at hlength
    rw [hsplit.findSeparator] at hfound
    cases hfound
    have hbody : substr response (headers.length + separator.length) = some body := by
      rw [substr_eq_some (by omega), hsplit.eq, ← List.append_assoc, ← List.length_append,
        List.drop_left]
    have hheaders : response.take headers.length = headers := by rw [hsplit.eq, List.take_left]
    rw [hsplit.parse, parseParts]
    simp only [Option.map_some, Option.bind_eq_bind, Option.bind_some, Nat.zero_add, hbody,
      substr_eq_some (Nat.zero_le _), List.drop_zero, hheaders, parseHeadersAt_eq]
    cases parseHeaders { self.proto with responseBodyField := some body } headers with
    | none => rfl
    | some parsed =>
      obtain ⟨accepted, proto⟩ := parsed
      cases accepted <;> rfl

/-- The line ends that a response starts with. -/
def leadingLineEnds (response : Bytes) : Bytes := response.takeWhile ([13, 10].contains ·)

theorem parseHeaders_isSome_iff (proto : HttpResponse) (headers : Bytes) :
    (parseHeaders proto headers).isSome ↔ ¬ ∀ c ∈ headers, c ∈ [13, 10] := by
  rw [← strSplitAnySkipEmpty_eq_nil_iff, parseHeaders]
  cases strSplitAnySkipEmpty headers [13, 10] with
  | nil => simp
  | cons statusText headerLines =>
    refine iff_of_true ?_ (List.cons_ne_nil _ _)
    dsimp only
    split
    · rfl
    · split <;> rfl

theorem Split.parse_isSome_iff {response headers separator body : Bytes}
    (h : Split response headers separator body) (self : Response) :
    (self.parse response).isSome ↔ ¬ ∀ c ∈ headers, c ∈ [13, 10] := by
  rw [h.parse, ← parseHeaders_isSome_iff { self.proto with responseBodyField := some body },
    parseParts]
  cases parseHeaders { self.proto with responseBodyField := some body } headers with
  | none => rfl
  | some parsed =>
    obtain ⟨accepted, proto⟩ := parsed
    cases accepted <;> rfl

/-- A response is split within the line ends at its start exactly where these have a separator. -/
theorem Split.forall_mem_headers_iff {response headers separator body : Bytes}
    (h : Split response headers separator body) : (∀ c ∈ headers, c ∈ [13, 10]) ↔
      ∃ separator ∈ separators, separator <:+: leadingLineEnds response := by
  constructor
  · intro hheaders
    have hseparator : ∀ separator ∈ separators, ∀ c ∈ separator, c ∈ [13, 10] := by decide +kernel
    refine ⟨separator, h.isSeparator, headers, body.takeWhile ([13, 10].contains ·), ?_⟩
    rw [leadingLineEnds, h.eq, ← List.append_assoc, List.takeWhile_append_of_pos]
    intro c hc
    rcases List.mem_append.mp hc with hc | hc
    · simpa using hheaders c hc
    · simpa using hseparator separator h.isSeparator c hc
  · rintro ⟨separator', hmem, before, after, heq⟩ c hc
    obtain ⟨rest, hrest⟩ : leadingLineEnds response <+: response := List.takeWhile_prefix _
    have hresponse : response = before ++ (separator' ++ (after ++ rest)) := by
      rw [← hrest, ← heq]
      simp only [List.append_assoc]
    have hle := h.earliest before separator' (after ++ rest) hresponse hmem
    have hstart : headers <+: before :=
      List.prefix_of_prefix_length_le ⟨_, h.eq.symm⟩ ⟨_, hresponse.symm⟩ hle
    have hc : c ∈ leadingLineEnds response := by
      rw [← heq]
      exact List.mem_append_left _ (List.mem_append_left _ (hstart.subset hc))
    simpa using List.mem_takeWhile_imp hc

/-- Parsing reads within bounds exactly where no separator is among the line ends at the start
    of the response. -/
theorem parseAt_isSome_iff (self : Response) (response : Bytes) :
    (self.parseAt response).isSome ↔
      ∀ separator ∈ separators, ¬ separator <:+: leadingLineEnds response := by
  rw [parseAt_eq]
  cases hfound : findSeparator response with
  | none =>
    refine iff_of_true ?_ fun separator hmem hwithin => ?_
    · rw [Response.parse, hfound]
      rfl
    · exact findSeparator_eq_none_iff.mp hfound separator hmem
        (hwithin.trans (List.takeWhile_prefix _).isInfix)
  | some found =>
    obtain ⟨headers, separator, body, hsplit⟩ := exists_split hfound
    rw [hsplit.parse_isSome_iff, hsplit.forall_mem_headers_iff]
    push Not
    rfl

/-- An empty header block leaves no header lines, of which the first is read. -/
theorem not_parseAt_isSome : ¬ ∀ (self : Response) (response : Bytes),
    (self.parseAt response).isSome := by
  intro h
  have hempty := h {} [13, 10, 13, 10]
  rw [parseAt_eq] at hempty
  exact absurd hempty (by decide)

end Response

end plusfish

import Plusfish.Response.Separator

namespace plusfish

namespace Response

/-- The ends of lines that servers write. -/
def lineEnds : List Bytes := [[13, 10], [10]]

def statusLine (code : HttpResponse.ResponseCode) (reason : Bytes) : Bytes :=
  ascii "HTTP/1.1 " ++ decimal code.number ++ ascii " " ++ reason

def headerLine (header : Bytes × Bytes) : Bytes := header.1 ++ ascii ": " ++ header.2

/-- A response with its lines, the line ends between them, and two line ends before the body. -/
def render (lineEnd : Bytes) (code : HttpResponse.ResponseCode) (reason : Bytes)
    (headers : List (Bytes × Bytes)) (body : Bytes) : Bytes :=
  statusLine code reason ++ (headers.map headerLine).flatMap (lineEnd ++ ·) ++
    (lineEnd ++ lineEnd ++ body)

theorem lineEnds_cases {lineEnd : Bytes} (hlineEnd : lineEnd ∈ lineEnds) :
    lineEnd = [13, 10] ∨ lineEnd = [10] := by
  rcases List.mem_cons.mp hlineEnd with rfl | hlineEnd
  · exact .inl rfl
  · exact .inr (List.mem_singleton.mp hlineEnd)

/-- A line that is not empty and that has no line end in it. -/
structure IsLine (line : Bytes) : Prop where
  ne_nil : line ≠ []
  plain : ∀ c ∈ line, c ∉ [13, 10]

section
variable {lineEnd line : Bytes} {lines : List Bytes}

theorem splitLines (hlineEnd : lineEnd ∈ lineEnds) (hline : IsLine line)
    (hlines : ∀ line ∈ lines, IsLine line) :
    strSplitAnySkipEmpty (line ++ lines.flatMap (lineEnd ++ ·)) [13, 10] = line :: lines := by
  induction lines generalizing line with
  | nil =>
    rw [List.flatMap_nil, List.append_nil]
    exact strSplitAnySkipEmpty_single hline.plain hline.ne_nil
  | cons next lines ih =>
    obtain ⟨hnext, hlines⟩ := List.forall_mem_cons.mp hlines
    have hrest := ih hnext hlines
    rw [List.flatMap_cons]
    rcases lineEnds_cases hlineEnd with rfl | rfl
    · simp only [List.cons_append, List.nil_append] at hrest ⊢
      rw [strSplitAnySkipEmpty_cons hline.plain hline.ne_nil (by decide),
        strSplitAnySkipEmpty_skip (by decide), hrest]
    · simp only [List.cons_append, List.nil_append] at hrest ⊢
      rw [strSplitAnySkipEmpty_cons hline.plain hline.ne_nil (by decide), hrest]

/-- There is no separator in a line, and none at a line end that has a line after it. -/
theorem findSeparator_line (hplain : ∀ c ∈ line, c ∉ [13, 10]) (rest : Bytes) :
    findSeparator (line ++ rest) =
      (findSeparator rest).map fun found => (line.length + found.1, found.2) := by
  induction line with
  | nil => simp
  | cons c line ih =>
    obtain ⟨hc, hplain⟩ := List.forall_mem_cons.mp hplain
    have hnot : ∀ separator ∈ separators, ¬ separator <+: c :: (line ++ rest) := by
      intro separator hmem h
      rcases separators_cases hmem with rfl | rfl
      all_goals
        obtain ⟨rfl, _⟩ := List.cons_prefix_cons.mp h
        exact hc (by decide)
    rw [List.cons_append, findSeparator_cons_of_not hnot, ih hplain, Option.map_map]
    congr 1
    funext found
    simp only [Function.comp_apply, List.length_cons, Prod.mk.injEq, and_true]
    omega

theorem findSeparator_lineEnd (hlineEnd : lineEnd ∈ lineEnds) (hline : IsLine line) (rest : Bytes) :
    findSeparator (lineEnd ++ (line ++ rest)) =
      (findSeparator (line ++ rest)).map fun found => (lineEnd.length + found.1, found.2) := by
  obtain ⟨d, line, rfl⟩ := List.exists_cons_of_ne_nil hline.ne_nil
  have hd : d ≠ 13 ∧ d ≠ 10 := by
    simpa using hline.plain d List.mem_cons_self
  have hlf : ∀ separator ∈ separators, ¬ separator <+: 10 :: d :: (line ++ rest) := by
    simp [separators, kHeaderBodySplitString, kHeaderBodySplitStringNoCr, hd.2.symm]
  rcases lineEnds_cases hlineEnd with rfl | rfl
  · have hcr : ∀ separator ∈ separators, ¬ separator <+: 13 :: 10 :: d :: (line ++ rest) := by
      simp [separators, kHeaderBodySplitString, kHeaderBodySplitStringNoCr, hd.1.symm]
    simp only [List.cons_append, List.nil_append]
    rw [findSeparator_cons_of_not hcr, findSeparator_cons_of_not hlf, Option.map_map]
    congr 1
    funext found
    simp only [Function.comp_apply, List.length_cons, List.length_nil, Prod.mk.injEq, and_true]
    omega
  · simp only [List.cons_append, List.nil_append]
    rw [findSeparator_cons_of_not hlf]
    congr 1
    funext found
    simp only [List.length_cons, List.length_nil, Prod.mk.injEq, and_true]
    omega

theorem findSeparator_lines (hlineEnd : lineEnd ∈ lineEnds) (hline : IsLine line)
    (hlines : ∀ line ∈ lines, IsLine line) (body : Bytes) :
    findSeparator (line ++ lines.flatMap (lineEnd ++ ·) ++ (lineEnd ++ lineEnd ++ body)) =
      some ((line ++ lines.flatMap (lineEnd ++ ·)).length, (lineEnd ++ lineEnd).length) := by
  induction lines generalizing line with
  | nil =>
    have hseparator : lineEnd ++ lineEnd ∈ separators := by
      rcases lineEnds_cases hlineEnd with rfl | rfl <;> decide
    rw [List.flatMap_nil, List.append_nil, findSeparator_line hline.plain,
      findSeparator_separator hseparator]
    rfl
  | cons next lines ih =>
    obtain ⟨hnext, hlines⟩ := List.forall_mem_cons.mp hlines
    have hrest := ih hnext hlines
    simp only [List.append_assoc] at hrest
    simp only [List.flatMap_cons, List.append_assoc]
    rw [findSeparator_line hline.plain, findSeparator_lineEnd hlineEnd hnext, hrest]
    simp only [Option.map_some, List.length_append]

end

/-- The header of a message that a header line is read as. -/
def headerField (header : Bytes × Bytes) : HttpResponse.HeaderField where
  nameField := some header.1
  valueField := if header.2 = [] then none else some header.2

theorem headerField_nameValue (header : Bytes × Bytes) :
    ((headerField header).name, (headerField header).value) = header := by
  have hvalue : (headerField header).value = header.2 := by
    unfold headerField HttpResponse.HeaderField.value
    split
    · rename_i hempty
      exact hempty.symm
    · rfl
  exact Prod.ext rfl hvalue

/-- A name without a colon ends where the first colon of its line is, and the space after
    the colon is not part of the value. -/
theorem parseHeaderLine_headerLine {header : Bytes × Bytes} (hcolon : 58 ∉ header.1) :
    parseHeaderLine (headerLine header) = some (headerField header) := by
  have hline : headerLine header = header.1 ++ 58 :: 32 :: header.2 := by
    rw [headerLine, List.append_assoc]
    rfl
  have hfound : (headerLine header).findIdx? (· == 58) = some header.1.length := by
    rw [hline, List.findIdx?_append, List.findIdx?_eq_none_iff.mpr]
    · simp [List.findIdx?_cons]
    · intro c hc
      simpa using fun heq : c = 58 => hcolon (heq ▸ hc)
  have hrest : (headerLine header).drop (header.1.length + 1) = 32 :: header.2 := by
    rw [hline, List.drop_append]
    simp
  have hname : (headerLine header).take header.1.length = header.1 := by
    rw [hline, List.take_left]
  unfold parseHeaderLine
  rw [hfound]
  dsimp only
  rw [hrest, hname]
  rfl

theorem strSplit_statusLine (code : HttpResponse.ResponseCode) (reason : Bytes) :
    strSplit (statusLine code reason) 32 =
      ascii "HTTP/1.1" :: decimal code.number :: strSplit reason 32 := by
  have hdigits : ∀ code ∈ HttpResponse.ResponseCode.all,
      32 ∉ decimal code.number := by decide +kernel
  have hcode : code ∈ HttpResponse.ResponseCode.all := by cases code <;> decide
  have hline : statusLine code reason =
      ascii "HTTP/1.1" ++ 32 :: (decimal code.number ++ 32 :: reason) := by
    simp only [statusLine, List.append_assoc]
    rfl
  unfold strSplit
  rw [hline, List.splitOn_append_cons_self_of_not_mem (by decide),
    List.splitOn_append_cons_self_of_not_mem (hdigits code hcode)]

theorem ofNumber_decimal (code : HttpResponse.ResponseCode) :
    (simpleAtoi (decimal code.number)).bind HttpResponse.ResponseCode.ofNumber? = some code := by
  have hall : ∀ code ∈ HttpResponse.ResponseCode.all,
      (simpleAtoi (decimal code.number)).bind HttpResponse.ResponseCode.ofNumber? = some code := by
    decide +kernel
  exact hall code (by cases code <;> decide)

/-- The lines that a response is rendered with are lines of a header block. -/
theorem statusLine_isLine (code : HttpResponse.ResponseCode) {reason : Bytes}
    (hreason : ∀ c ∈ reason, c ∉ [13, 10]) : IsLine (statusLine code reason) := by
  have hplain : ∀ code ∈ HttpResponse.ResponseCode.all,
      (ascii "HTTP/1.1 " ++ decimal code.number ++ ascii " ").all fun c =>
        !([13, 10].contains c) := by decide +kernel
  refine ⟨List.cons_ne_nil _ _, fun c hc => ?_⟩
  rcases List.mem_append.mp hc with hc | hc
  · simpa using List.all_eq_true.mp (hplain code (by cases code <;> decide)) c hc
  · exact hreason c hc

theorem headerLine_isLine {header : Bytes × Bytes} (hname : ∀ c ∈ header.1, c ∉ [13, 10])
    (hvalue : ∀ c ∈ header.2, c ∉ [13, 10]) : IsLine (headerLine header) := by
  have hplain : (ascii ": ").all fun c => !([13, 10].contains c) := by decide
  refine ⟨by simp [headerLine, ascii], fun c hc => ?_⟩
  rcases List.mem_append.mp hc with hc | hc
  · rcases List.mem_append.mp hc with hc | hc
    · exact hname c hc
    · simpa using List.all_eq_true.mp hplain c hc
  · exact hvalue c hc

/-- The lines of a header block are read as the code and the headers that they were rendered
    from. -/
theorem parseHeaders_lines (proto : HttpResponse) {lineEnd reason : Bytes}
    (hlineEnd : lineEnd ∈ lineEnds) {code : HttpResponse.ResponseCode} (hcode : code ≠ .unknownCode)
    (hreason : ∀ c ∈ reason, c ∉ [13, 10]) {headers : List (Bytes × Bytes)}
    (hheaders : ∀ header ∈ headers, IsLine (headerLine header))
    (hcolon : ∀ header ∈ headers, 58 ∉ header.1) :
    parseHeaders proto (statusLine code reason ++
        (headers.map headerLine).flatMap (lineEnd ++ ·)) =
      some (true, { proto with
        codeField := some code
        header := proto.header ++ headers.map headerField }) := by
  have hlines : ∀ line ∈ headers.map headerLine, IsLine line := List.forall_mem_map.mpr hheaders
  have hfields : (headers.map headerLine).filterMap parseHeaderLine = headers.map headerField := by
    rw [List.filterMap_map, ← List.filterMap_eq_map]
    exact List.filterMap_congr fun header hmem => parseHeaderLine_headerLine (hcolon header hmem)
  have hlength : ¬ ((ascii "HTTP/1.1" :: decimal code.number :: strSplit reason 32).length < 3 ∨
      ((ascii "HTTP/1.1" :: decimal code.number :: strSplit reason 32).getD 0 []).take 4 ≠
        ascii "HTTP") := by
    have hpiece : 0 < (strSplit reason 32).length :=
      List.length_pos_iff.mpr (List.splitOn_ne_nil 32 reason)
    rintro (hshort | hstart)
    · simp only [List.length_cons] at hshort
      omega
    · rw [List.getD_cons_zero] at hstart
      exact hstart (by decide)
  unfold parseHeaders
  rw [splitLines hlineEnd (statusLine_isLine code hreason) hlines]
  dsimp only
  rw [strSplit_statusLine, if_neg hlength, List.getD_cons_succ, List.getD_cons_zero,
    ofNumber_decimal, hfields]
  cases code with
  | unknownCode => exact absurd rfl hcode
  | _ => rfl

/-- Parsing undoes rendering, and a response is split at its earliest separator. -/
theorem parse_render_and_earliest :
    (∀ lineEnd ∈ lineEnds, ∀ code ≠ HttpResponse.ResponseCode.unknownCode,
      ∀ reason : Bytes, (∀ c ∈ reason, c ∉ [13, 10]) →
      ∀ headers : List (Bytes × Bytes),
        (∀ header ∈ headers, (∀ c ∈ header.1, c ∉ [58, 13, 10]) ∧ ∀ c ∈ header.2, c ∉ [13, 10]) →
      ∀ body : Bytes, ∃ response : Response,
        parse {} (render lineEnd code reason headers body) = some (true, response) ∧
        response.proto.codeField = some code ∧
        response.proto.header.map (fun header => (header.name, header.value)) = headers ∧
        response.proto.responseBodyField = some body) ∧
    (∀ (self : Response) (response : Bytes),
      (∃ headers separator body, Split response headers separator body ∧
        self.parse response = self.parseParts headers body) ∨
      ((∀ separator ∈ separators, ¬ separator <:+: response) ∧
        self.parse response = some (false, self))) := by
  constructor
  · intro lineEnd hlineEnd code hcode reason hreason headers hheaders body
    have hlines : ∀ header ∈ headers, IsLine (headerLine header) := by
      intro header hmem
      refine headerLine_isLine (fun c hc h => ?_) (hheaders header hmem).2
      exact (hheaders header hmem).1 c hc (List.mem_cons_of_mem _ h)
    have hcolon : ∀ header ∈ headers, 58 ∉ header.1 := by
      intro header hmem hc
      exact (hheaders header hmem).1 58 hc List.mem_cons_self
    have hparsed := parseHeaders_lines { responseBodyField := some body } hlineEnd hcode hreason
      hlines hcolon
    have hfound := findSeparator_lines hlineEnd (statusLine_isLine code hreason)
      (List.forall_mem_map.mpr hlines) body
    rw [render, parse_of_findSeparator {} hfound, parseParts, hparsed]
    refine ⟨_, rfl, rfl, ?_, rfl⟩
    rw [List.nil_append, List.map_map]
    exact (List.map_congr_left fun header _ => headerField_nameValue header).trans (List.map_id _)
  · intro self response
    cases hfound : findSeparator response with
    | none =>
      refine .inr ⟨findSeparator_eq_none_iff.mp hfound, ?_⟩
      unfold parse
      rw [hfound]
    | some found =>
      obtain ⟨headers, separator, body, hsplit⟩ := exists_split hfound
      exact .inl ⟨headers, separator, body, hsplit, hsplit.parse self⟩

/-- Three headers, one of them without a value and one with a colon in it. -/
def shopHeaders : List (Bytes × Bytes) :=
  [(ascii "Server", ascii "shop"), (ascii "X-Empty", []), (ascii "Date", ascii "10:20: late")]

/-- A body with a separator in it. -/
theorem parse_render_and_earliest_shop :
    render [13, 10] .ok (ascii "OK") shopHeaders (ascii "a\n\nb") =
      ascii ("HTTP/1.1 200 OK\r\nServer: shop\r\nX-Empty: \r\nDate: 10:20: late" ++
        "\r\n\r\na\n\nb") ∧
    ∃ response : Response,
      parse {} (render [13, 10] .ok (ascii "OK") shopHeaders (ascii "a\n\nb")) =
        some (true, response) ∧
      response.proto.codeField = some .ok ∧
      response.proto.header.map (fun header => (header.name, header.value)) = shopHeaders ∧
      response.proto.responseBodyField = some (ascii "a\n\nb") :=
  ⟨by decide +kernel, parse_render_and_earliest.1 [13, 10] (by decide) .ok (by decide) (ascii "OK")
    (by decide +kernel) shopHeaders (by decide +kernel) (ascii "a\n\nb")⟩

end Response

end plusfish

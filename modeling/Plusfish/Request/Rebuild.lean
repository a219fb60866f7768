import Plusfish.Library.Splitting
import Plusfish.Request

open splitting

namespace plusfish

/-- The texts that are absolute http or https URLs, and what the URL library makes their
    components of when it has brought them into its canonical form. -/
structure CanonicalUrls where
  isHttp : Bytes → Prop
  host : Bytes → Prop
  port : Int → Prop
  segment : Bytes → Prop
  queryByte : UInt8 → Prop

/-- The text of a URL with these components. -/
def urlText (secure : Bool) (host : Bytes) (port : Int) (segments : List Bytes)
    (query : Option Bytes) : Bytes :=
  (if secure then ascii "https" else ascii "http") ++ ascii "://" ++ host ++ ascii ":" ++
    decimal port ++ segments.flatMap (47 :: ·) ++ (query.map (63 :: ·)).getD []

/-- How the library splits a URL into scheme, host, port, path and query: the components are
    canonical, and a URL that is made of canonical components is split into them. -/
structure SplitsUrls (urls : CanonicalUrls) (gurl : Bytes → GURL) : Prop where
  host : ∀ url, urls.isHttp url → (gurl url).isValid → urls.host (gurl url).host
  port : ∀ url, urls.isHttp url → (gurl url).isValid → urls.port (gurl url).effectiveIntPort
  segment : ∀ url, urls.isHttp url → (gurl url).isValid →
    ∀ segment ∈ strSplit (gurl url).path 47, urls.segment segment
  query : ∀ url, urls.isHttp url → (gurl url).isValid → ∀ c ∈ (gurl url).query, urls.queryByte c
  noQuery : ∀ url, (gurl url).hasQuery = false → (gurl url).query = []
  segment_zero : ∀ segment, urls.segment segment → 0 ∉ segment
  queryByte_zero : ¬ urls.queryByte 0
  split : ∀ secure host port segments query, urls.host host → urls.port port → segments ≠ [] →
    (∀ segment ∈ segments, urls.segment segment ∧ 47 ∉ segment) →
    (∀ text, query = some text → ∀ c ∈ text, urls.queryByte c) →
    gurl (urlText secure host port segments query) =
      { isValid := true
        host
        effectiveIntPort := port
        schemeIsSecure := secure
        path := segments.flatMap (47 :: ·)
        hasQuery := query.isSome
        query := query.getD [] }

namespace Request

/-- The parameter that a piece of a query is read as. -/
def queryField (piece : Bytes) : HttpRequest.RequestField :=
  match strSplit piece 61 with
  | [name, value] => { nameField := some name, valueField := some value }
  | pieces => { nameField := some (pieces.headD []) }

def fieldText (field : HttpRequest.RequestField) : Bytes :=
  if field.hasValue then field.name ++ 61 :: field.value else field.name

def pathField (value : Bytes) : HttpRequest.RequestField where
  nameField := some (ascii "/")
  valueField := some value

/-- The path elements of a path, by their values. -/
def pathValues (path : Bytes) : List Bytes :=
  let values := (strSplit path 47).filter (· ≠ [])
  if values = [] ∨ path.getLast? = some 47 then values ++ [[]] else values

theorem queryField_cases (piece : Bytes) :
    (∃ name value, strSplit piece 61 = [name, value] ∧ piece = name ++ 61 :: value ∧
      queryField piece = { nameField := some name, valueField := some value }) ∨
    (∃ name rest, strSplit piece 61 = name :: rest ∧ rest.length ≠ 1 ∧ 61 ∉ name ∧
      queryField piece = { nameField := some name }) := by
  obtain ⟨name, rest, hsplit⟩ := List.exists_cons_of_ne_nil (List.splitOn_ne_nil 61 piece)
  have hplain : 61 ∉ name := (mem_splitOn (hsplit ▸ List.mem_cons_self)).1
  have hpiece : [61].intercalate (name :: rest) = piece := by
    rw [← hsplit, List.intercalate_splitOn]
  unfold queryField strSplit
  rw [hsplit]
  match rest with
  | [] => exact .inr ⟨name, [], rfl, by decide, hplain, rfl⟩
  | [value] =>
    refine .inl ⟨name, value, rfl, ?_, rfl⟩
    rw [← hpiece]
    simp
  | value :: other :: rest =>
    refine .inr ⟨name, _, rfl, ?_, hplain, rfl⟩
    simp

/-- A piece is written as it was read where it does not have more than one equals sign. -/
theorem fieldText_queryField_eq_iff (piece : Bytes) :
    fieldText (queryField piece) = piece ↔ (strSplit piece 61).length ≤ 2 := by
  rcases queryField_cases piece with ⟨name, value, hsplit, hpiece, hfield⟩ |
    ⟨name, rest, hsplit, hrest, hplain, hfield⟩
  · rw [hfield, hsplit]
    exact iff_of_true hpiece.symm (by simp)
  · rw [hfield, hsplit, List.length_cons]
    have htext : fieldText { nameField := some name } = name := rfl
    rw [htext]
    constructor
    · intro heq
      have hone : strSplit piece 61 = [name] := by
        rw [← heq]
        exact List.splitOn_eq_singleton hplain
      rw [hsplit] at hone
      have hnil : rest = [] := (List.cons.inj hone).2
      simp [hnil]
    · intro hle
      have hnil : rest = [] := List.eq_nil_of_length_eq_zero (by omega)
      have hpiece : [61].intercalate (strSplit piece 61) = piece := List.intercalate_splitOn 61
      rw [hsplit, hnil, List.intercalate_singleton] at hpiece
      exact hpiece

theorem mem_of_mem_fieldText {piece : Bytes} {c : UInt8} (hc : c ∈ fieldText (queryField piece)) :
    c ∈ piece := by
  rcases queryField_cases piece with ⟨name, value, _, hpiece, hfield⟩ |
    ⟨name, rest, hsplit, _, _, hfield⟩
  · rw [hfield] at hc
    exact hpiece ▸ hc
  · rw [hfield] at hc
    exact (mem_splitOn (hsplit ▸ List.mem_cons_self : name ∈ strSplit piece 61)).2 c hc

/-- What is written for a piece is read like the piece. -/
theorem queryField_fieldText (piece : Bytes) :
    queryField (fieldText (queryField piece)) = queryField piece := by
  rcases queryField_cases piece with ⟨name, value, _, hpiece, hfield⟩ |
    ⟨name, rest, _, _, hplain, hfield⟩
  · have htext : fieldText (queryField piece) = piece := by
      rw [hfield, hpiece]
      rfl
    rw [htext]
  · have htext : fieldText (queryField piece) = name := by
      rw [hfield]
      rfl
    have hone : strSplit name 61 = [name] := List.splitOn_eq_singleton hplain
    rw [htext, hfield, queryField, hone]
    rfl

theorem parseQuery_eq {gurl : GURL} (hzero : 0 ∉ gurl.query) : parseQuery gurl =
    if gurl.hasQuery then (strSplit gurl.query 38).map queryField else [] := by
  rw [parseQuery, cStr_eq_self hzero]
  rfl

theorem parsePath_eq {gurl : GURL} (hzero : 0 ∉ gurl.path) :
    parsePath gurl = (pathValues gurl.path).map pathField := by
  have hempty : ∀ values : List Bytes, values.map pathField = [] ↔ values = [] :=
    fun values => List.map_eq_nil_iff
  rw [parsePath, pathValues, cStr_eq_self hzero]
  dsimp only
  rw [apply_ite (List.map pathField), List.map_append]
  refine ite_congr (propext ?_) (fun _ => rfl) fun _ => rfl
  rw [or_congr_left (hempty _).symm]
  rfl

theorem renderParams_cons (tmp : Bytes) (param : HttpRequest.RequestField)
    (params : List HttpRequest.RequestField) : renderParams tmp (param :: params) =
      renderParams (tmp ++ (if tmp = [] then ascii "?" else ascii "&") ++ fieldText param)
        params := by
  rw [renderParams, fieldText]
  by_cases hvalue : param.hasValue
  · rw [if_pos hvalue, if_pos hvalue, List.append_assoc, List.append_assoc]
    rfl
  · rw [if_neg hvalue, if_neg hvalue]

/-- The query string is put together with the delimiters that it was split at. -/
theorem renderParams_eq {params : List HttpRequest.RequestField} (hne : params ≠ []) :
    renderParams [] params = 63 :: [38].intercalate (params.map fieldText) := by
  have hmore : ∀ (params : List HttpRequest.RequestField) (tmp : Bytes), tmp ≠ [] →
      renderParams tmp params = tmp ++ (params.map fieldText).flatMap (38 :: ·) := by
    intro params
    induction params with
    | nil => exact fun tmp _ => (List.append_nil tmp).symm
    | cons param params ih =>
      intro tmp htmp
      rw [renderParams_cons, if_neg htmp, ih _ (by simp [ascii]), List.map_cons, List.flatMap_cons,
        List.append_assoc, List.append_assoc]
      rfl
  obtain ⟨param, params, rfl⟩ := List.exists_cons_of_ne_nil hne
  rw [renderParams_cons, if_pos rfl, hmore _ _ (by simp [ascii]), List.map_cons]
  by_cases hnil : params.map fieldText = []
  · rw [hnil, List.intercalate_singleton]
    exact List.append_nil _
  · rw [flatMap_cons_eq hnil, List.intercalate_cons_of_ne_nil hnil, List.append_assoc,
      List.append_assoc, List.append_assoc]
    rfl

/-- The values of a path that is put together from them. -/
theorem pathValues_flatMap (path : Bytes) :
    pathValues ((pathValues path).flatMap (47 :: ·)) = pathValues path := by
  obtain ⟨values, hvalues⟩ : ∃ values, (strSplit path 47).filter (· ≠ []) = values := ⟨_, rfl⟩
  have hplain : ∀ value ∈ values, value ≠ [] ∧ 47 ∉ value := by
    intro value hmem
    rw [← hvalues] at hmem
    obtain ⟨hpiece, hne⟩ := List.mem_filter.mp hmem
    exact ⟨by simpa using hne, (mem_splitOn hpiece).1⟩
  have hself : values.filter (· ≠ []) = values :=
    List.filter_eq_self.mpr fun value hmem => by simpa using (hplain value hmem).1
  -- A path is split into its values, after an empty piece.
  have hsplit : ∀ values : List Bytes, values ≠ [] → (∀ value ∈ values, 47 ∉ value) →
      strSplit (values.flatMap (47 :: ·)) 47 = [] :: values := by
    intro values hne hplain
    rw [flatMap_cons_eq hne, strSplit, List.splitOn_cons_eq_if_modifyHead,
      if_pos (beq_self_eq_true 47), List.splitOn_intercalate 47 hplain hne]
  have hends : pathValues path = values ∧ values ≠ [] ∨ pathValues path = values ++ [[]] := by
    rw [pathValues, hvalues]
    by_cases hend : values = [] ∨ path.getLast? = some 47
    · exact .inr (if_pos hend)
    · exact .inl ⟨if_neg hend, fun hnil => hend (.inl hnil)⟩
  rcases hends with ⟨hpath, hne⟩ | hpath
  · have hfilter : ([] :: values).filter (· ≠ []) = values := hself
    have hlast : (values.flatMap (47 :: ·)).getLast? ≠ some 47 := by
      obtain ⟨start, last, rfl⟩ := (List.eq_nil_or_concat values).resolve_left hne
      obtain ⟨hlastNe, hlastPlain⟩ := hplain last (by simp)
      intro hend
      rw [List.concat_eq_append, List.flatMap_append, List.flatMap_singleton,
        List.getLast?_append, List.getLast?_cons, Option.some_or] at hend
      rw [List.getLast?_eq_some_getLast hlastNe, Option.getD_some] at hend
      exact hlastPlain (Option.some.inj hend ▸ List.getLast_mem hlastNe)
    rw [hpath, pathValues, hsplit values hne fun value hmem => (hplain value hmem).2, hfilter,
      if_neg (not_or.mpr ⟨hne, hlast⟩)]
  · have hplain' : ∀ value ∈ values ++ [[]], 47 ∉ value := by
      intro value hmem
      rcases List.mem_append.mp hmem with hmem | hmem
      · exact (hplain value hmem).2
      · rw [List.mem_singleton.mp hmem]
        exact List.not_mem_nil
    have hfilter : ([] :: (values ++ [[]])).filter (· ≠ []) = values := by
      simpa using hself
    have hlast : ((values ++ [[]]).flatMap (47 :: ·)).getLast? = some (47 : UInt8) := by
      rw [List.flatMap_append, List.flatMap_singleton, List.getLast?_concat]
    rw [hpath, pathValues, hsplit (values ++ [[]]) (by simp) hplain', hfilter,
      if_pos (.inr hlast)]

theorem pathValues_ne_nil (path : Bytes) : pathValues path ≠ [] := by
  unfold pathValues
  dsimp only
  split
  · simp
  · rename_i hend
    exact fun hnil => hend (.inl hnil)

/-- The values of a path are pieces of it. -/
theorem mem_pathValues {path value : Bytes} (hmem : value ∈ pathValues path) :
    value ∈ strSplit path 47 := by
  have hfilter : ∀ value ∈ (strSplit path 47).filter (· ≠ []), value ∈ strSplit path 47 :=
    fun value hmem => (List.mem_filter.mp hmem).1
  unfold pathValues at hmem
  dsimp only at hmem
  split at hmem
  · rename_i hend
    rcases List.mem_append.mp hmem with hmem | hmem
    · exact hfilter value hmem
    · rw [List.mem_singleton.mp hmem]
      rcases hend with hnone | hslash
      · obtain ⟨first, rest, hsplit⟩ := List.exists_cons_of_ne_nil (List.splitOn_ne_nil 47 path)
        have hall := List.filter_eq_nil_iff.mp hnone first (by rw [strSplit, hsplit]; simp)
        have hfirst : first = [] := by simpa using hall
        rw [strSplit, hsplit, hfirst]
        exact List.mem_cons_self
      · obtain ⟨start, rfl⟩ := List.getLast?_eq_some_iff.mp hslash
        rw [strSplit, List.splitOn_append_cons_self]
        simp
  · exact hfilter value hmem

/-- The query string that is put together from the parameters of a query. -/
def rebuiltQuery (query : Bytes) : Bytes :=
  [38].intercalate ((strSplit query 38).map fun piece => fieldText (queryField piece))

theorem fieldText_plain {query : Bytes} : ∀ text ∈ (strSplit query 38).map fun piece =>
    fieldText (queryField piece), 38 ∉ text := by
  intro text hmem hc
  obtain ⟨piece, hpiece, rfl⟩ := List.mem_map.mp hmem
  exact (mem_splitOn hpiece).1 (mem_of_mem_fieldText hc)

theorem strSplit_rebuiltQuery (query : Bytes) : strSplit (rebuiltQuery query) 38 =
    (strSplit query 38).map fun piece => fieldText (queryField piece) := by
  have hne : ((strSplit query 38).map fun piece => fieldText (queryField piece)) ≠ [] :=
    fun hnil => List.splitOn_ne_nil 38 query (List.map_eq_nil_iff.mp hnil)
  exact List.splitOn_intercalate 38 fieldText_plain hne

theorem rebuiltQuery_eq_iff (query : Bytes) : rebuiltQuery query = query ↔
    ∀ piece ∈ strSplit query 38, (strSplit piece 61).length ≤ 2 := by
  have hquery : [38].intercalate (strSplit query 38) = query := List.intercalate_splitOn 38
  constructor
  · intro heq piece hmem
    have hpieces := strSplit_rebuiltQuery query
    rw [heq] at hpieces
    have hpiece := List.map_inj_left.mp (hpieces.symm.trans (List.map_id _).symm) piece hmem
    exact (fieldText_queryField_eq_iff piece).mp hpiece
  · intro h
    have hpieces : (strSplit query 38).map (fun piece => fieldText (queryField piece)) =
        strSplit query 38 := by
      refine (List.map_congr_left fun piece hmem => ?_).trans (List.map_id _)
      exact (fieldText_queryField_eq_iff piece).mpr (h piece hmem)
    rw [rebuiltQuery, hpieces, hquery]

theorem mem_of_mem_rebuiltQuery {query : Bytes} {c : UInt8} (hc : c ∈ rebuiltQuery query) :
    c ∈ query := by
  rcases mem_intercalate hc with ⟨rfl, hlength⟩ | ⟨text, htext, hc⟩
  · by_contra hplain
    have hone : strSplit query 38 = [query] := List.splitOn_eq_singleton hplain
    rw [List.length_map, hone] at hlength
    exact absurd hlength (by simp)
  · obtain ⟨piece, hpiece, rfl⟩ := List.mem_map.mp htext
    exact (mem_splitOn hpiece).2 c (mem_of_mem_fieldText hc)

/-- The request of a valid URL, by what is parsed of it. -/
structure OfGurl (gurl : GURL) (request : Request) : Prop where
  ssl : request.proto.ssl = gurl.schemeIsSecure
  host : request.proto.host = gurl.host
  port : request.proto.port = gurl.effectiveIntPort
  path : request.proto.path = (pathValues gurl.path).map pathField
  param : request.proto.param =
    if gurl.hasQuery then (strSplit gurl.query 38).map queryField else []
  url : request.url = urlText gurl.schemeIsSecure gurl.host gurl.effectiveIntPort
    (pathValues gurl.path) (if gurl.hasQuery then some (rebuiltQuery gurl.query) else none)

theorem ofUrl_ofGurl {env : RequestEnv} {url : Bytes} (hvalid : (env.gurl url).isValid)
    (hpath : 0 ∉ (env.gurl url).path) (hquery : 0 ∉ (env.gurl url).query) :
    OfGurl (env.gurl url) (ofUrl env url none) := by
  have hparsed : ofUrl env url none = buildUrl env {
      googleUrl := some (env.gurl url)
      proto := {
        rawUrl := some url
        hostField := some (env.gurl url).host
        portField := some (env.gurl url).effectiveIntPort
        sslField := some (env.gurl url).schemeIsSecure
        path := parsePath (env.gurl url)
        param := parseQuery (env.gurl url) } } := by
    unfold ofUrl parseUrl
    simp only [Option.map_none, Option.bind_none, hvalid]
    rfl
  rw [hparsed]
  constructor
  · rfl
  · rfl
  · rfl
  · exact parsePath_eq hpath
  · exact parseQuery_eq hquery
  · have hparams : renderParams [] (parseQuery (env.gurl url)) =
        ((if (env.gurl url).hasQuery then some (rebuiltQuery (env.gurl url).query)
          else none).map (63 :: ·)).getD [] := by
      rw [parseQuery_eq hquery]
      cases (env.gurl url).hasQuery with
      | false => rfl
      | true =>
        have hne : (strSplit (env.gurl url).query 38).map queryField ≠ [] :=
          fun hnil => List.splitOn_ne_nil 38 _ (List.map_eq_nil_iff.mp hnil)
        rw [if_pos rfl, if_pos rfl, renderParams_eq hne, List.map_map]
        rfl
    have hvalues : (parsePath (env.gurl url)).flatMap
        (fun segment => segment.name ++ segment.value) =
        (pathValues (env.gurl url).path).flatMap (47 :: ·) := by
      rw [parsePath_eq hpath, List.flatMap_map]
      rfl
    rw [urlText, ← hparams, ← hvalues]
    exact List.append_nil _

/-- Two requests for the same page. -/
structure SamePage (one two : Request) : Prop where
  ssl : one.proto.ssl = two.proto.ssl
  host : one.proto.host = two.proto.host
  port : one.proto.port = two.proto.port
  path : one.proto.path = two.proto.path
  param : one.proto.param = two.proto.param

/-- The URL of a request has the query string of the URL that it was made for, and a request for
    that URL is one for the same page. -/
structure Rebuilt (env : RequestEnv) (url : Bytes) : Prop where
  hasQuery : (env.gurl (ofUrl env url none).url).hasQuery = (env.gurl url).hasQuery
  query : (env.gurl (ofUrl env url none).url).query = (env.gurl url).query
  reparsed : SamePage (ofUrl env (ofUrl env url none).url none) (ofUrl env url none)

theorem components_zero {env : RequestEnv} {urls : CanonicalUrls}
    (hurls : SplitsUrls urls env.gurl) {url : Bytes} (hhttp : urls.isHttp url)
    (hvalid : (env.gurl url).isValid) :
    0 ∉ (env.gurl url).path ∧ 0 ∉ (env.gurl url).query := by
  constructor
  · intro hzero
    have hpath : [47].intercalate (strSplit (env.gurl url).path 47) = (env.gurl url).path :=
      List.intercalate_splitOn 47
    rw [← hpath] at hzero
    rcases mem_intercalate hzero with ⟨heq, _⟩ | ⟨segment, hmem, hc⟩
    · exact absurd heq (by decide)
    · exact hurls.segment_zero segment (hurls.segment url hhttp hvalid segment hmem) hc
  · exact fun hzero => hurls.queryByte_zero (hurls.query url hhttp hvalid 0 hzero)

/-- The URL of a request is split into the components that it was put together from. -/
theorem gurl_url {env : RequestEnv} {urls : CanonicalUrls} (hurls : SplitsUrls urls env.gurl)
    {url : Bytes} (hhttp : urls.isHttp url) (hvalid : (env.gurl url).isValid) :
    env.gurl (ofUrl env url none).url =
      { isValid := true
        host := (env.gurl url).host
        effectiveIntPort := (env.gurl url).effectiveIntPort
        schemeIsSecure := (env.gurl url).schemeIsSecure
        path := (pathValues (env.gurl url).path).flatMap (47 :: ·)
        hasQuery := (env.gurl url).hasQuery
        query := rebuiltQuery (env.gurl url).query } := by
  have hzero := components_zero hurls hhttp hvalid
  rw [(ofUrl_ofGurl hvalid hzero.1 hzero.2).url]
  refine (hurls.split _ _ _ _ _ (hurls.host url hhttp hvalid) (hurls.port url hhttp hvalid)
    (pathValues_ne_nil _) (fun value hmem => ?_) fun text htext c hc => ?_).trans ?_
  · have hpiece := mem_pathValues hmem
    exact ⟨hurls.segment url hhttp hvalid value hpiece, (mem_splitOn hpiece).1⟩
  · split at htext
    · cases htext
      exact hurls.query url hhttp hvalid c (mem_of_mem_rebuiltQuery hc)
    · cases htext
  · cases hquery : (env.gurl url).hasQuery with
    | true => rfl
    | false =>
      have hnone := hurls.noQuery url hquery
      rw [hnone]
      rfl

/-- A request for the URL of a request is one for the same page. -/
theorem samePage_url {env : RequestEnv} {urls : CanonicalUrls} (hurls : SplitsUrls urls env.gurl)
    {url : Bytes} (hhttp : urls.isHttp url) (hvalid : (env.gurl url).isValid) :
    SamePage (ofUrl env (ofUrl env url none).url none) (ofUrl env url none) := by
  obtain ⟨hpath, hquery⟩ := components_zero hurls hhttp hvalid
  have hfirst := ofUrl_ofGurl hvalid hpath hquery
  have hagain := gurl_url hurls hhttp hvalid
  have hvalid' : (env.gurl (ofUrl env url none).url).isValid := by rw [hagain]
  have hpath' : 0 ∉ (env.gurl (ofUrl env url none).url).path := by
    rw [hagain]
    intro hzero
    obtain ⟨value, hvalue, hc⟩ := List.mem_flatMap.mp hzero
    rcases List.mem_cons.mp hc with heq | hc
    · exact absurd heq (by decide)
    · exact hpath ((mem_splitOn (mem_pathValues hvalue)).2 0 hc)
  have hquery' : 0 ∉ (env.gurl (ofUrl env url none).url).query := by
    rw [hagain]
    exact fun hzero => hquery (mem_of_mem_rebuiltQuery hzero)
  have hsecond := ofUrl_ofGurl hvalid' hpath' hquery'
  have hparam : ((strSplit (env.gurl url).query 38).map fun piece =>
      fieldText (queryField piece)).map queryField =
        (strSplit (env.gurl url).query 38).map queryField := by
    rw [List.map_map]
    exact List.map_congr_left fun piece _ => queryField_fieldText piece
  generalize ofUrl env (ofUrl env url none).url none = again at hsecond ⊢
  rw [hagain] at hsecond
  refine ⟨hsecond.ssl.trans hfirst.ssl.symm, hsecond.host.trans hfirst.host.symm,
    hsecond.port.trans hfirst.port.symm, ?_, ?_⟩
  · rw [hsecond.path, hfirst.path, pathValues_flatMap]
  · rw [hsecond.param, hfirst.param, strSplit_rebuiltQuery, hparam]

/-- The query survives exactly where none of its pieces has more than one equals sign. -/
theorem rebuilt_iff {env : RequestEnv} {urls : CanonicalUrls} (hurls : SplitsUrls urls env.gurl)
    {url : Bytes} (hhttp : urls.isHttp url) (hvalid : (env.gurl url).isValid) :
    Rebuilt env url ↔
      ∀ piece ∈ strSplit (env.gurl url).query 38, (strSplit piece 61).length ≤ 2 := by
  have hagain := gurl_url hurls hhttp hvalid
  rw [← rebuiltQuery_eq_iff]
  constructor
  · intro h
    have hquery := h.query
    rw [hagain] at hquery
    exact hquery
  · intro h
    refine ⟨?_, ?_, samePage_url hurls hhttp hvalid⟩
    · rw [hagain]
    · rw [hagain]
      exact h

/-- The URLs of one site, split like the library splits them. -/
def siteGurl (url : Bytes) : GURL :=
  let secure := (ascii "https").isPrefixOf url
  let rest := url.drop (if secure then 15 else 14)
  { isValid := (ascii "http").isPrefixOf url
    host := ascii "site"
    effectiveIntPort := 80
    schemeIsSecure := secure
    path := rest.takeWhile (· ≠ 63)
    hasQuery := rest.contains 63
    query := (rest.dropWhile (· ≠ 63)).drop 1 }

def siteUrls : CanonicalUrls where
  isHttp url := 0 ∉ url
  host host := host = ascii "site"
  port port := port = 80
  segment segment := 0 ∉ segment ∧ 63 ∉ segment
  queryByte c := c ≠ 0

def siteEnv : RequestEnv where
  gurl := siteGurl
  resolve := fun base _ => base
  userAgent := []

theorem siteUrls_split : SplitsUrls siteUrls siteEnv.gurl where
  host _ _ _ := rfl
  port _ _ _ := rfl
  segment url hurl _ segment hmem := by
    have hpath := (mem_splitOn hmem).2
    refine ⟨fun hzero => hurl ?_, fun hmark => ?_⟩
    · exact List.mem_of_mem_drop ((List.takeWhile_sublist _).mem (hpath 0 hzero))
    · exact absurd (List.mem_takeWhile_imp (hpath 63 hmark)) (by decide)
  query url hurl _ c hc := by
    rintro rfl
    exact hurl (List.mem_of_mem_drop ((List.dropWhile_sublist _).mem (List.mem_of_mem_drop hc)))
  noQuery url hnone := by
    have hrest : (url.drop (if (ascii "https").isPrefixOf url then 15 else 14)).dropWhile
        (· ≠ 63) = [] := by
      rw [List.dropWhile_eq_nil_iff]
      intro c hc
      have hplain : ¬ (url.drop (if (ascii "https").isPrefixOf url then 15 else 14)).contains 63 :=
        Bool.not_eq_true _ ▸ hnone
      simpa using fun heq : c = 63 => hplain (List.contains_iff_mem.mpr (heq ▸ hc))
    exact congrArg (List.drop 1) hrest
  segment_zero segment h := h.1
  queryByte_zero h := h rfl
  split secure host port segments query hhost hport hne hsegments hquery := by
    obtain rfl : host = ascii "site" := hhost
    obtain rfl : port = 80 := hport
    have hsecure : (ascii "https").isPrefixOf (urlText secure (ascii "site") 80 segments query) =
        secure := by
      cases secure <;> rfl
    have hrest : (urlText secure (ascii "site") 80 segments query).drop
        (if secure then 15 else 14) =
        segments.flatMap (47 :: ·) ++ (query.map (63 :: ·)).getD [] := by
      cases secure <;> rfl
    have hvalid : (ascii "http").isPrefixOf (urlText secure (ascii "site") 80 segments query) =
        true := by
      cases secure <;> rfl
    have hpath : ∀ c ∈ segments.flatMap (47 :: ·), decide (c ≠ 63) = true := by
      intro c hc
      obtain ⟨segment, hmem, hc⟩ := List.mem_flatMap.mp hc
      rcases List.mem_cons.mp hc with rfl | hc
      · decide
      · simpa using fun heq : c = 63 => (hsegments segment hmem).1.2 (heq ▸ hc)
    have hunfold : siteEnv.gurl = siteGurl := rfl
    rw [hunfold, siteGurl, hsecure, hrest, hvalid, List.takeWhile_append_of_pos hpath,
      List.dropWhile_append_of_pos hpath]
    cases query with
    | none =>
      have hplain : ∀ segment ∈ segments, 63 ∉ segment :=
        fun segment hmem => (hsegments segment hmem).1.2
      simpa using hplain
    | some query => simp

theorem rebuilt_debug : Rebuilt siteEnv (ascii "http://site:80/aa?a=b&debug") := by
  have hurl : 0 ∉ ascii "http://site:80/aa?a=b&debug" := by decide
  exact (rebuilt_iff siteUrls_split hurl (by decide)).mpr (by decide)

/-- A piece with two equals signs is put together without its value. -/
theorem not_rebuilt : ¬ ∀ (env : RequestEnv) (urls : CanonicalUrls), SplitsUrls urls env.gurl →
    ∀ url, urls.isHttp url → (env.gurl url).isValid → Rebuilt env url := by
  intro hall
  have hurl : 0 ∉ ascii "http://site:80/aa?a=b=c" := by decide
  have h := hall siteEnv siteUrls siteUrls_split _ hurl (by decide)
  exact absurd h.query (by decide)

end Request

end plusfish

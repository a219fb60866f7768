import Plusfish.CurlHttpClient.DefaultHeaders
import Plusfish.Library.Splitting

open splitting

namespace plusfish

namespace cli

/-- `getline` on a stream that is good: the line, and the rest of the stream. Where no delimiter
    ends the line, the stream is at its end, and not good any more. -/
def getline (delimiter : UInt8) : (stream : Bytes) → Bytes × Option Bytes
  | [] => ([], none)
  | c :: stream =>
    if c = delimiter then ([], some stream)
    else
      let (line, rest) := getline delimiter stream
      (c :: line, rest)

/-- The loop of `SplitString`. In each round a delimiter is taken from the stream, or its end is
    reached. -/
def splitStringLoop : (rounds : Nat) → (stream : Bytes) → (result : List Bytes) → List Bytes
  | 0, _, result => result
  | rounds + 1, stream, result =>
    match getline 44 stream with
    | (substr, some rest) => splitStringLoop rounds rest (result ++ [substr])
    | (substr, none) => result ++ [substr]

/-- `SplitString`, which has a comma where it should have its delimiter. -/
def splitString (value : Bytes) (_delimiter : UInt8) : List Bytes :=
  splitStringLoop (value.length + 1) value []

/-- Registers the headers of the flag, one by one. The result is `none` where the program exits. -/
def registerHeaders : (split : List Bytes) → CurlHttpClient → Option CurlHttpClient
  | [], httpClient => some httpClient
  | header :: split, httpClient =>
    match splitString header 58 with
    | [domain, name, value] =>
      match httpClient.registerDefaultHeader domain name value with
      | (true, httpClient) => registerHeaders split httpClient
      | (false, _) => none
    | _ => none

/-- What `main` does with the flag `default_headers`. -/
def setDefaultHeaders (defaultHeaders : Bytes) (httpClient : CurlHttpClient) :
    Option CurlHttpClient :=
  if defaultHeaders = [] then some httpClient
  else registerHeaders (splitString defaultHeaders 44) httpClient

theorem getline_eq (delimiter : UInt8) (stream : Bytes) :
    (∃ line rest, delimiter ∉ line ∧ stream = line ++ delimiter :: rest ∧
        getline delimiter stream = (line, some rest)) ∨
      (delimiter ∉ stream ∧ getline delimiter stream = (stream, none)) := by
  induction stream with
  | nil => exact Or.inr ⟨List.not_mem_nil, rfl⟩
  | cons c stream ih =>
    by_cases hc : c = delimiter
    · subst hc
      exact Or.inl ⟨[], stream, List.not_mem_nil, rfl, by rw [getline, if_pos rfl]⟩
    · rw [getline, if_neg hc]
      rcases ih with ⟨line, rest, hline, rfl, heq⟩ | ⟨hstream, heq⟩
      · refine Or.inl ⟨c :: line, rest, ?_, rfl, by rw [heq]⟩
        simp [hline, Ne.symm hc]
      · refine Or.inr ⟨?_, by rw [heq]⟩
        simp [hstream, Ne.symm hc]

theorem splitStringLoop_eq {rounds : Nat} {stream : Bytes} (hrounds : stream.length < rounds)
    (result : List Bytes) : splitStringLoop rounds stream result = result ++ stream.splitOn 44 := by
  induction rounds generalizing stream result with
  | zero => exact absurd hrounds (Nat.not_lt_zero _)
  | succ rounds ih =>
    rw [splitStringLoop]
    rcases getline_eq 44 stream with ⟨line, rest, hline, rfl, heq⟩ | ⟨hstream, heq⟩
    · rw [List.length_append, List.length_cons] at hrounds
      rw [heq, List.splitOn_append_cons_self_of_not_mem hline]
      dsimp only
      rw [ih (by omega), List.append_assoc, List.singleton_append]
    · rw [heq, List.splitOn_eq_singleton hstream]

/-- The parts are those between the commas, whatever the delimiter is. -/
theorem splitString_eq (value : Bytes) (delimiter : UInt8) :
    splitString value delimiter = value.splitOn 44 :=
  splitStringLoop_eq (Nat.lt_succ_self _) []

/-- The parts have no delimiter in them, and joined with it they are the string. -/
structure Splits (value : Bytes) (delimiter : UInt8) (parts : List Bytes) : Prop where
  plain : ∀ part ∈ parts, delimiter ∉ part
  join : [delimiter].intercalate parts = value

theorem splits_splitString_iff (value : Bytes) (delimiter : UInt8) :
    Splits value delimiter (splitString value delimiter) ↔
      delimiter = 44 ∨ (delimiter ∉ value ∧ 44 ∉ value) := by
  rw [splitString_eq]
  constructor
  · intro h
    by_cases hcomma : delimiter = 44
    · exact Or.inl hcomma
    · -- Joining the parts with another delimiter does not bring the commas back.
      have hplain : 44 ∉ value := by
        intro hmem
        rw [← h.join] at hmem
        rcases mem_intercalate hmem with ⟨heq, _⟩ | ⟨part, hpart, hin⟩
        · exact hcomma heq.symm
        · exact (mem_splitOn hpart).1 hin
      have hpart := h.plain value
      rw [List.splitOn_eq_singleton hplain] at hpart
      exact Or.inr ⟨hpart (List.mem_singleton_self value), hplain⟩
  · rintro (rfl | ⟨hdelimiter, hplain⟩)
    · exact ⟨fun part hpart => (mem_splitOn hpart).1, List.intercalate_splitOn 44⟩
    · rw [List.splitOn_eq_singleton hplain]
      exact ⟨List.forall_mem_singleton.mpr hdelimiter, List.intercalate_singleton⟩

/-- A header that can be given in the flag. -/
structure Writable (header : HeaderRegistration) : Prop where
  nonempty : header.domain ≠ [] ∧ header.name ≠ [] ∧ header.value ≠ []
  plain : ∀ text ∈ [header.domain, header.name, header.value], 44 ∉ text ∧ 58 ∉ text

def headerText (header : HeaderRegistration) : Bytes :=
  [58].intercalate [header.domain, header.name, header.value]

/-- The value of the flag for these headers. -/
def headersFlag (headers : List HeaderRegistration) : Bytes :=
  [44].intercalate (headers.map headerText)

theorem comma_not_mem_headerText {header : HeaderRegistration} (h : Writable header) :
    44 ∉ headerText header := by
  intro hmem
  rcases mem_intercalate hmem with ⟨heq, _⟩ | ⟨text, htext, hin⟩
  · cases heq
  · exact (h.plain text htext).1 hin

theorem headersFlag_ne_nil {headers : List HeaderRegistration} (hne : headers ≠ []) :
    headersFlag headers ≠ [] := by
  obtain ⟨header, rest, rfl⟩ := List.exists_cons_of_ne_nil hne
  have hfirst : headerText header ≠ [] := by
    rw [headerText, List.intercalate_cons_cons]
    simp
  rw [headersFlag, List.map_cons]
  by_cases hrest : rest.map headerText = []
  · rw [hrest, List.intercalate_singleton]
    exact hfirst
  · rw [List.intercalate_cons_of_ne_nil hrest, List.append_assoc]
    exact List.append_ne_nil_of_left_ne_nil hfirst _

/-- Where there are headers to set, the program exits at the first one. -/
theorem setDefaultHeaders_eq_none {headers : List HeaderRegistration} (hne : headers ≠ [])
    (hwritable : ∀ header ∈ headers, Writable header) (httpClient : CurlHttpClient) :
    setDefaultHeaders (headersFlag headers) httpClient = none := by
  have hplain : ∀ text ∈ headers.map headerText, 44 ∉ text := by
    rw [List.forall_mem_map]
    exact fun header hmem => comma_not_mem_headerText (hwritable header hmem)
  have hsplit : splitString (headersFlag headers) 44 = headers.map headerText := by
    rw [splitString_eq, headersFlag, List.splitOn_intercalate 44 hplain (by simpa using hne)]
  obtain ⟨header, rest, rfl⟩ := List.exists_cons_of_ne_nil hne
  have hfirst : splitString (headerText header) 58 = [headerText header] := by
    rw [splitString_eq, List.splitOn_eq_singleton (hplain _ List.mem_cons_self)]
  rw [setDefaultHeaders, if_neg (headersFlag_ne_nil hne), hsplit, List.map_cons, registerHeaders,
    hfirst]

/-- The flag sets the headers that it is written for. -/
def SetsHeaders (headers : List HeaderRegistration) : Prop :=
  ∀ httpClient, setDefaultHeaders (headersFlag headers) httpClient =
    some (headers.foldl CurlHttpClient.register httpClient)

/-- Splitting is right at a comma and for strings that are not split at all, and no header can
    be set. -/
theorem splitString_splits_iff (value : Bytes) (delimiter : UInt8)
    {headers : List HeaderRegistration} (hwritable : ∀ header ∈ headers, Writable header) :
    (Splits value delimiter (splitString value delimiter) ↔
      delimiter = 44 ∨ (delimiter ∉ value ∧ 44 ∉ value)) ∧
    (SetsHeaders headers ↔ headers = []) := by
  refine ⟨splits_splitString_iff value delimiter, fun hsets => ?_, ?_⟩
  · by_contra hne
    have hset := hsets {}
    rw [setDefaultHeaders_eq_none hne hwritable] at hset
    cases hset
  · rintro rfl httpClient
    rfl

theorem splitString_splits_comma :
    Splits (ascii "a,,b,") 44 (splitString (ascii "a,,b,") 44) ∧ SetsHeaders [] := by
  have hnone : ∀ header ∈ ([] : List HeaderRegistration), Writable header :=
    fun _ h => absurd h List.not_mem_nil
  obtain ⟨hsplits, hsets⟩ := splitString_splits_iff (ascii "a,,b,") 44 hnone
  exact ⟨hsplits.mpr (Or.inl rfl), hsets.mpr rfl⟩

/-- A header for every domain, which has two colons in the flag. -/
def scanHeader : HeaderRegistration := ⟨ascii "*", ascii "X-Scan", ascii "1"⟩

/-- The text of a header is not split at its colons, and the program exits. -/
theorem scanHeader_notSet :
    splitString (ascii "*:X-Scan:1") 58 = [ascii "*:X-Scan:1"] ∧
      ¬ Splits (ascii "*:X-Scan:1") 58 (splitString (ascii "*:X-Scan:1") 58) ∧
      Writable scanHeader ∧ headersFlag [scanHeader] = ascii "*:X-Scan:1" ∧
      setDefaultHeaders (headersFlag [scanHeader]) {} = none ∧ ¬ SetsHeaders [scanHeader] := by
  have hsplit : splitString (ascii "*:X-Scan:1") 58 = [ascii "*:X-Scan:1"] := by decide
  have hexits : setDefaultHeaders (headersFlag [scanHeader]) {} = none := by decide
  refine ⟨hsplit, fun h => ?_, ⟨by decide, by decide⟩, by decide, hexits, fun h => ?_⟩
  · have hplain := h.plain (ascii "*:X-Scan:1") (by decide)
    revert hplain
    decide
  · have hset := h {}
    rw [hexits] at hset
    cases hset

end cli

end plusfish

import Mathlib.Data.List.DropRight
import Plusfish.NotFoundDetector

namespace plusfish

namespace util

/-- The parts of a URL `scheme://authority[/path][?query]`. -/
structure UrlParts where
  scheme : Bytes
  authority : Bytes
  path : Bytes
  query : Option Bytes
  scheme_plain : ∀ c ∈ scheme, c ≠ 47 ∧ c ≠ 63
  authority_plain : ∀ c ∈ authority, c ≠ 47 ∧ c ≠ 63
  path_plain : ∀ c ∈ path, c ≠ 63
  path_slash : path = [] ∨ path.head? = some 47

/-- The path up to and including its last slash. -/
def directory (path : Bytes) : Bytes :=
  if path = [] then [47] else path.rdropWhile (· ≠ 47)

/-- A scheme and an authority as they stand before a path. -/
def origin (scheme authority : Bytes) : Bytes := scheme ++ [58, 47, 47] ++ authority

namespace UrlParts

def queryText (parts : UrlParts) : Bytes :=
  match parts.query with
  | some query => 63 :: query
  | none => []

def url (parts : UrlParts) : Bytes :=
  origin parts.scheme parts.authority ++ parts.path ++ parts.queryText

def baseUrl (parts : UrlParts) : Bytes :=
  origin parts.scheme parts.authority ++ directory parts.path

/-- A query, if there is one, follows a file name or the path `/`. -/
def KeepsDirectory (parts : UrlParts) : Prop :=
  parts.query = none ∨ parts.path = [47] ∨
    parts.path ≠ [] ∧ parts.path.getLast? ≠ some 47

end UrlParts

theorem directory_concat_slash (path : Bytes) : directory (path ++ [47]) = path ++ [47] := by
  simp [directory]

theorem directory_concat {path : Bytes} (hpath : path ≠ []) {c : UInt8} (hc : c ≠ 47) :
    directory (path ++ [c]) = directory path := by
  simp [directory, hc, hpath]

theorem length_directory_le {path : Bytes} (hpath : path ≠ []) :
    (directory path).length ≤ path.length := by
  rw [directory, if_neg hpath]
  exact (List.rdropWhile_prefix _ _).length_le

/-- Without its last byte, a path that starts with a slash keeps its directory unless
    that byte is a slash with something before it. -/
theorem directory_dropLast_iff {path : Bytes} (hslash : path.head? = some 47) :
    directory path.dropLast = directory path ↔ path = [47] ∨ path.getLast? ≠ some 47 := by
  obtain ⟨rest, c, rfl⟩ : ∃ rest c, path = rest ++ [c] := by
    refine ⟨path.dropLast, path.getLast (by rintro rfl; cases hslash), ?_⟩
    exact (List.dropLast_append_getLast _).symm
  rw [List.dropLast_concat, List.getLast?_concat]
  by_cases hc : c = 47
  · subst hc
    rw [directory_concat_slash]
    by_cases hrest : rest = []
    · simp [hrest, directory]
    · have hlength := length_directory_le hrest
      simp only [List.append_left_eq_self, hrest, ne_eq, not_true_eq_false, or_self, iff_false]
      intro heq
      have hsize := congrArg List.length heq
      simp only [List.length_append, List.length_singleton] at hsize
      omega
  · have hrest : rest ≠ [] := by
      rintro rfl
      simp only [List.nil_append, List.head?_cons, Option.some.injEq] at hslash
      exact hc hslash
    simp [directory_concat hrest hc, hc]

theorem afterSchemeEnd_origin {scheme : Bytes} (hscheme : ∀ c ∈ scheme, c ≠ 47)
    (rest : Bytes) :
    afterSchemeEnd (scheme ++ 58 :: 47 :: 47 :: rest) = some (scheme.length + 3) := by
  induction scheme with
  | nil => simp [afterSchemeEnd]
  | cons c scheme ih =>
    have hc : c ≠ 47 := hscheme c (List.mem_cons_self ..)
    have htail := ih fun c h => hscheme c (List.mem_cons_of_mem _ h)
    simp [afterSchemeEnd, hc, htail]

theorem findIdx?_question {plain : Bytes} (hplain : ∀ c ∈ plain, c ≠ 63) (rest : Bytes) :
    (plain ++ 63 :: rest).findIdx? (· == 63) = some plain.length := by
  have hnone : plain.findIdx? (· == 63) = none := by
    rw [List.findIdx?_eq_none_iff]
    intro c hc
    simpa using hplain c hc
  simp [List.findIdx?_append, hnone, List.findIdx?_cons]

/-- The query goes, and the byte before it. -/
theorem stripUrlFileSuffix_query {plain : Bytes} (hplain : ∀ c ∈ plain, c ≠ 63)
    (query : Bytes) :
    stripUrlFileSuffix (plain ++ 63 :: query) = stripUrlFileSuffix plain.dropLast := by
  have hnone : plain.dropLast.findIdx? (· == 63) = none := by
    rw [List.findIdx?_eq_none_iff]
    intro c hc
    simpa using hplain c (List.dropLast_subset _ hc)
  have htake : (plain ++ 63 :: query).take (plain.length - 1) = plain.dropLast := by
    rw [List.take_append_of_le_length (Nat.sub_le _ _), List.dropLast_eq_take]
  simp only [stripUrlFileSuffix, findIdx?_question hplain, htake, hnone]

theorem rdropWhile_append_path {path : Bytes} (hpath : 47 ∈ path) (before : Bytes) :
    (before ++ path).rdropWhile (· ≠ 47) = before ++ path.rdropWhile (· ≠ 47) := by
  have hkept : (path.reverse.dropWhile (· ≠ 47)).isEmpty = false := by
    rw [List.isEmpty_eq_false_iff]
    intro hnil
    have hall := List.dropWhile_eq_nil_iff.mp hnil 47 (List.mem_reverse.mpr hpath)
    simp at hall
  rw [List.rdropWhile, List.rdropWhile, List.reverse_append, List.dropWhile_append, hkept,
    if_neg Bool.false_ne_true, List.reverse_append, List.reverse_reverse]

theorem origin_plain {scheme authority : Bytes} (hscheme : ∀ c ∈ scheme, c ≠ 47 ∧ c ≠ 63)
    (hauthority : ∀ c ∈ authority, c ≠ 47 ∧ c ≠ 63) : ∀ c ∈ origin scheme authority, c ≠ 63 := by
  intro c hc
  simp only [origin, List.mem_append, List.mem_cons, List.not_mem_nil, or_false] at hc
  rcases hc with (hmem | rfl | rfl | rfl) | hmem
  · exact (hscheme c hmem).2
  · decide
  · decide
  · decide
  · exact (hauthority c hmem).2

theorem plain_append {before path : Bytes} (hbefore : ∀ c ∈ before, c ≠ 63)
    (hpath : ∀ c ∈ path, c ≠ 63) : ∀ c ∈ before ++ path, c ≠ 63 := by
  intro c hc
  rcases List.mem_append.mp hc with hmem | hmem
  · exact hbefore c hmem
  · exact hpath c hmem

/-- Without a query, the file name goes and the directory stays. -/
theorem stripUrlFileSuffix_plain {scheme authority path : Bytes}
    (hscheme : ∀ c ∈ scheme, c ≠ 47 ∧ c ≠ 63) (hauthority : ∀ c ∈ authority, c ≠ 47 ∧ c ≠ 63)
    (hpath : ∀ c ∈ path, c ≠ 63) (hslash : path = [] ∨ path.head? = some 47) :
    stripUrlFileSuffix (origin scheme authority ++ path) =
      origin scheme authority ++ directory path := by
  have hnone : (origin scheme authority ++ path).findIdx? (· == 63) = none := by
    rw [List.findIdx?_eq_none_iff]
    intro c hc
    simpa using plain_append (origin_plain hscheme hauthority) hpath c hc
  have hsplit : origin scheme authority ++ path =
      scheme ++ 58 :: 47 :: 47 :: (authority ++ path) := by simp [origin]
  have hstart : afterSchemeEnd (origin scheme authority ++ path) = some (scheme.length + 3) := by
    rw [hsplit, afterSchemeEnd_origin fun c h => (hscheme c h).1]
  have hdrop : (origin scheme authority ++ path).drop (scheme.length + 3) = authority ++ path := by
    have hlength : (scheme ++ [58, 47, 47]).length = scheme.length + 3 := by simp
    rw [origin, List.append_assoc, ← hlength, List.drop_left]
  simp only [stripUrlFileSuffix, hnone, hstart, Option.getD_some, hdrop]
  rcases hslash with rfl | hhead
  · have habsent : 47 ∉ authority := fun hmem => (hauthority 47 hmem).1 rfl
    simp [directory, habsent]
  · have hmem : 47 ∈ path := List.mem_of_mem_head? hhead
    rw [if_pos (by simp [hmem]), directory, if_neg (List.ne_nil_of_mem hmem),
      ← rdropWhile_append_path hmem]
    rfl

theorem length_stripUrlFileSuffix_le (url : Bytes) :
    (stripUrlFileSuffix url).length ≤ url.length + 1 := by
  have hstrip (finalUrl : Bytes) (hle : finalUrl.length ≤ url.length) (start : Nat) :
      (if (finalUrl.drop start).contains 47 then (finalUrl.reverse.dropWhile (· ≠ 47)).reverse
        else finalUrl ++ [47]).length ≤ url.length + 1 := by
    split
    · have hdrop := (List.dropWhile_suffix (· ≠ 47) (l := finalUrl.reverse)).length_le
      rw [List.length_reverse] at hdrop ⊢
      omega
    · simp only [List.length_append, List.length_singleton]
      omega
  unfold stripUrlFileSuffix
  cases url.findIdx? (· == 63) with
  | none => exact hstrip url le_rfl _
  | some params => exact hstrip _ (List.length_take_le' _ _) _

namespace UrlParts

/-- The base URL is the directory of the URL exactly if a query, where there is one,
    takes nothing of the directory with it. -/
theorem stripUrlFileSuffix_eq_iff (parts : UrlParts) :
    stripUrlFileSuffix parts.url = parts.baseUrl ↔ parts.KeepsDirectory := by
  have horigin := origin_plain parts.scheme_plain parts.authority_plain
  rw [KeepsDirectory, url, baseUrl, queryText]
  cases parts.query with
  | none =>
    rw [List.append_nil, stripUrlFileSuffix_plain parts.scheme_plain parts.authority_plain
      parts.path_plain parts.path_slash]
    simp
  | some query =>
    rw [stripUrlFileSuffix_query (plain_append horigin parts.path_plain)]
    rcases parts.path_slash with hpath | hslash
    · -- The authority loses its last byte.
      have hlength := length_stripUrlFileSuffix_le (origin parts.scheme parts.authority).dropLast
      have hsize : 0 < (origin parts.scheme parts.authority).length := by
        simp only [origin, List.length_append, List.length_cons]
        omega
      simp only [hpath, List.append_nil, reduceCtorEq, ne_eq, not_true_eq_false, false_and,
        or_self, iff_false]
      intro heq
      rw [heq] at hlength
      simp only [directory, if_true, List.length_append, List.length_singleton,
        List.length_dropLast] at hlength
      omega
    · have hne : parts.path ≠ [] := by
        intro hnil
        rw [hnil] at hslash
        cases hslash
      have hstart : parts.path.dropLast = [] ∨ parts.path.dropLast.head? = some 47 := by
        obtain ⟨rest, hrest⟩ := List.head?_eq_some_iff.mp hslash
        rw [hrest]
        cases rest with
        | nil => exact Or.inl rfl
        | cons c rest => exact Or.inr rfl
      rw [List.dropLast_append_of_ne_nil hne,
        stripUrlFileSuffix_plain parts.scheme_plain parts.authority_plain
          (fun c h => parts.path_plain c (List.dropLast_subset _ h)) hstart,
        List.append_cancel_left_eq, directory_dropLast_iff hslash]
      simp [hne]

/-- The URLs lie in one directory of one site. -/
def SameDirectory (parts other : UrlParts) : Prop :=
  parts.scheme = other.scheme ∧ parts.authority = other.authority ∧
    directory parts.path = directory other.path

/-- The base URL is the directory exactly where the query leaves the directory whole, and
    such URLs of one directory have one base URL. -/
theorem stripUrlFileSuffix_directory (parts : UrlParts) :
    (stripUrlFileSuffix parts.url = parts.baseUrl ↔ parts.KeepsDirectory) ∧
      ∀ other : UrlParts, parts.SameDirectory other → parts.KeepsDirectory →
        other.KeepsDirectory → stripUrlFileSuffix parts.url = stripUrlFileSuffix other.url := by
  refine ⟨stripUrlFileSuffix_eq_iff parts, fun other hsame hkeeps hkeeps' => ?_⟩
  obtain ⟨hscheme, hauthority, hdirectory⟩ := hsame
  rw [(stripUrlFileSuffix_eq_iff parts).mpr hkeeps, (stripUrlFileSuffix_eq_iff other).mpr hkeeps',
    baseUrl, baseUrl, hscheme, hauthority, hdirectory]

/-- The URL of a page in the directory `/aa/` of a site. -/
def testUrl (name : Bytes) (query : Option Bytes) (hname : ∀ c ∈ name, c ≠ 63) : UrlParts where
  scheme := ascii "http"
  authority := ascii "test"
  path := ascii "/aa/" ++ name
  query
  scheme_plain := by decide +kernel
  authority_plain := by decide +kernel
  path_plain := plain_append (by decide +kernel) hname
  path_slash := Or.inr rfl

theorem stripUrlFileSuffix_directory_page :
    stripUrlFileSuffix (testUrl (ascii "bb") (some (ascii "q=/cc/")) (by decide +kernel)).url =
      stripUrlFileSuffix (testUrl [] none (by decide +kernel)).url :=
  (stripUrlFileSuffix_directory (testUrl (ascii "bb") (some (ascii "q=/cc/"))
    (by decide +kernel))).2 (testUrl [] none (by decide +kernel)) ⟨rfl, rfl, by decide⟩
    (Or.inr (Or.inr ⟨by decide, by decide⟩)) (Or.inl rfl)

/-- With a query right after the slash, the last directory is lost. -/
theorem stripUrlFileSuffix_after_slash :
    (testUrl [] (some (ascii "q")) (by decide +kernel)).url = ascii "http://test/aa/?q" ∧
    stripUrlFileSuffix (ascii "http://test/aa/?q") = ascii "http://test/" ∧
    (testUrl [] (some (ascii "q")) (by decide +kernel)).baseUrl = ascii "http://test/aa/" ∧
    stripUrlFileSuffix (ascii "http://test/aa/") = ascii "http://test/aa/" := by
  refine ⟨by decide, by decide, by decide, by decide⟩

end UrlParts

end util

end plusfish

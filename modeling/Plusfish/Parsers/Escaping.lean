import Plusfish.Bytes

namespace plusfish

namespace util

/-- A string with the first occurrence of a pattern replaced, where there is one. -/
def replaceFirst (pattern replacement : Bytes) : Bytes → Option Bytes
  | [] => none
  | c :: rest =>
    if pattern.isPrefixOf (c :: rest) then some (replacement ++ (c :: rest).drop pattern.length)
    else (replaceFirst pattern replacement rest).map (c :: ·)

/-- The loop that replaces a pattern until it is no longer found, for at most so many rounds. -/
def replaceAll (pattern replacement : Bytes) : (rounds : Nat) → Bytes → Bytes
  | 0, s => s
  | rounds + 1, s =>
    match replaceFirst pattern replacement s with
    | none => s
    | some s => replaceAll pattern replacement rounds s

/-- The entities that `UnescapeHtml` knows, in the order of the map that holds them. -/
def htmlEntities : List (Bytes × Bytes) :=
  [("&#34;", "\""), ("&#38;", "&"), ("&#39;", "'"), ("&#60;", "<"), ("&#62;", ">"), ("&amp;", "&"),
    ("&apos;", "'"), ("&gt;", ">"), ("&lt;", "<"), ("&quot;", "\"")].map fun (entity, char) =>
      (ascii entity, ascii char)

/-- `UnescapeHtml`. Every round makes the string shorter. -/
def unescapeHtml (escaped : Bytes) : Bytes :=
  htmlEntities.foldl (fun ret (entity, char) => replaceAll entity char ret.length ret) escaped

def escapeHtmlChar (c : UInt8) : Bytes :=
  if c = 60 then ascii "&lt;"
  else if c = 62 then ascii "&gt;"
  else if c = 38 then ascii "&amp;"
  else if c = 34 then ascii "&quot;"
  else if c = 39 then ascii "&apos;"
  else [c]

/-- `EscapeHtml`. -/
def escapeHtml (unescaped : Bytes) : Bytes := unescaped.flatMap escapeHtmlChar

theorem replaceFirst_length {pattern replacement s s' : Bytes}
    (hshort : replacement.length < pattern.length)
    (h : replaceFirst pattern replacement s = some s') :
    s'.length < s.length := by
  induction s generalizing s' with
  | nil => cases h
  | cons c rest ih =>
    rw [replaceFirst] at h
    split at h
    · rename_i hfound
      cases h
      have hle : pattern.length ≤ (c :: rest).length :=
        (List.isPrefixOf_iff_prefix.mp hfound).length_le
      rw [List.length_append, List.length_drop]
      omega
    · obtain ⟨rest', hrest, rfl⟩ := Option.map_eq_some_iff.mp h
      have hlt := ih hrest
      simp only [List.length_cons]
      omega

/-- As many rounds as the string has characters are enough. -/
theorem replaceFirst_replaceAll {pattern replacement s : Bytes} {rounds : Nat}
    (hshort : replacement.length < pattern.length) (hrounds : s.length ≤ rounds) :
    replaceFirst pattern replacement (replaceAll pattern replacement rounds s) = none := by
  induction rounds generalizing s with
  | zero =>
    rw [List.length_eq_zero_iff.mp (Nat.le_zero.mp hrounds)]
    rfl
  | succ rounds ih =>
    rw [replaceAll]
    split
    · assumption
    · rename_i s' hs'
      have hlt := replaceFirst_length hshort hs'
      exact ih (by omega)

end util

end plusfish

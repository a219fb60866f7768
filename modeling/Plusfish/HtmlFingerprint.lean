import Plusfish.Bytes

namespace plusfish

def kMaxFingerprintBucketDiff : UInt32 := 5
def kMaxFingerprintTotalDiff : UInt32 := 3
def kMaxFingerprintBucketFails : UInt8 := 3

/-- How many words of a document have each length modulo 16. -/
structure HtmlFingerprint where
  wordSizeCnt : Vector UInt32 16 := Vector.replicate 16 0
deriving DecidableEq

namespace HtmlFingerprint

def addWord (fp : HtmlFingerprint) (word : Bytes) : HtmlFingerprint :=
  let bucket := Fin.ofNat 16 word.length
  { fp with wordSizeCnt := fp.wordSizeCnt.set bucket (fp.wordSizeCnt[bucket] + 1) }

def toString (fp : HtmlFingerprint) : Bytes :=
  fp.wordSizeCnt.toList.flatMap fun count => decimal count.toNat ++ ascii " "

/-- `abs(diff)` of the `int32_t` that holds the unsigned difference of two counters,
    back in `uint32_t` as the comparisons read it. -/
def absDiff (a b : UInt32) : UInt32 := if a - b < 2 ^ 31 then a - b else 0 - (a - b)

/-- The loop over the buckets. It gives nothing where too many buckets differ. -/
def compareBuckets : List (UInt32 × UInt32) → (failedBuckets : UInt8) →
    (totalDiff totalScale : UInt32) → Option (UInt32 × UInt32)
  | [], _, totalDiff, totalScale => some (totalDiff, totalScale)
  | (a, b) :: buckets, failedBuckets, totalDiff, totalScale =>
    let diff := absDiff a b
    let scale := a + b
    if diff ≥ 1 + scale * kMaxFingerprintBucketDiff / 100 then
      if failedBuckets + 1 > kMaxFingerprintBucketFails then none
      else compareBuckets buckets (failedBuckets + 1) (totalDiff + diff) (totalScale + scale)
    else compareBuckets buckets failedBuckets (totalDiff + diff) (totalScale + scale)

def equals (self fp : HtmlFingerprint) : Bool :=
  match compareBuckets (self.wordSizeCnt.toList.zip fp.wordSizeCnt.toList) 0 0 0 with
  | none => false
  | some (totalDiff, totalScale) =>
    !decide (totalDiff ≥ 1 + totalScale * kMaxFingerprintTotalDiff / 100)

end HtmlFingerprint

end plusfish

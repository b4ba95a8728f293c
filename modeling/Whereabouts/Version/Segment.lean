import Whereabouts.Text.Blank
import Whereabouts.Text.Percent
import Whereabouts.Text.Pieces
import Whereabouts.Digest.Sha256

/-!
# Version segments

A version becomes one path component that every file system accepts. `versionSegment?` escapes the
stripped version and uses the result as it is when it is plain: short, without capitals, with no
dot at its end, and no device name before its first dot. Any other version becomes a readable start
and a digest, joined by a plus sign, which no escaped text contains.
-/

namespace Whereabouts

def maxSegmentLength : Nat := 128

def segmentDigestLength : Nat := 32

/-- Names that some systems reserve for devices, with or without an extension. -/
def deviceNames : List (List Char) :=
  ["con", "prn", "aux", "nul",
   "com1", "com2", "com3", "com4", "com5", "com6", "com7", "com8", "com9",
   "lpt1", "lpt2", "lpt3", "lpt4", "lpt5", "lpt6", "lpt7", "lpt8", "lpt9"].map String.toList

def stem (seg : List Char) : List Char := seg.takeWhile (· != '.')

/-- The segment can be used on every file system as it is. -/
def isPlainSegment (seg : List Char) : Bool :=
  seg.length ≤ maxSegmentLength && seg.all (fun c => !c.isUpper) && seg.getLast? != some '.' &&
    !deviceNames.contains (stem seg)

/-- A readable start of the escaped version and a digest of the version itself. -/
def hashedSegment (version : List Char) : List Char :=
  ((escape version).map Char.toLower).take (maxSegmentLength - segmentDigestLength - 1) ++
    '+' :: (textDigest version).take segmentDigestLength

def segmentOf (version : List Char) : List Char :=
  if isPlainSegment (escape version) then escape version else hashedSegment version

/-- The segment of a version; none for a version of blanks. -/
def versionSegment? (version : String) : Option String :=
  match strip version.toList with
  | [] => none
  | v => some (String.ofList (segmentOf v))

theorem versionSegment?_eq_none_iff (version : String) :
    versionSegment? version = none ↔ ∀ c ∈ version.toList, isBlank c = true := by
  rw [← strip_eq_nil_iff, versionSegment?]
  split <;> simp_all

end Whereabouts

import Whereabouts.Path
import Whereabouts.Text.LowerCase
import Whereabouts.Version.Segment

/-!
# Segments of different versions

Escapes are read back, so a plain segment determines its version; a hashed one
ends in a plus sign and digits, and no escape contains a plus sign. What two
different versions can share is the start of a digest (`DigestsMeet`).
`segments_eq_iff`: two versions have the same segment, in lower case or as it
is, exactly if they are the same or their digests meet.
-/

namespace Whereabouts

/-! ## Reading escapes back -/

theorem utf8_injective {cs ds : List Char}
    (h : cs.flatMap String.utf8EncodeChar = ds.flatMap String.utf8EncodeChar) : cs = ds := by
  have he : cs.utf8Encode = ds.utf8Encode := by
    unfold List.utf8Encode
    rw [h]
  have hd : some cs.toArray = some ds.toArray := by
    rw [← List.utf8Decode?_utf8Encode, ← List.utf8Decode?_utf8Encode, he]
  simpa using hd

theorem escape_injective {cs ds : List Char} (h : escape cs = escape ds) : cs = ds := by
  have hb : some (cs.flatMap String.utf8EncodeChar) = some (ds.flatMap String.utf8EncodeChar) := by
    rw [← unescape_escape, ← unescape_escape, h]
  exact utf8_injective (Option.some.inj hb)

/-! ## Characters of a segment -/

/-- The ASCII characters that have no small letter of their own. -/
def IsSmall (c : Char) : Prop := c.toNat < 128 ∧ c.isUpper = false

theorem ascii_induction {P : Char → Prop} (h : ∀ n : Fin 128, P (Char.ofNat n)) {c : Char}
    (hc : c.toNat < 128) : P c := by
  have := h ⟨c.toNat, hc⟩
  rwa [Char.ofNat_toNat] at this

theorem isUnreserved_eq (c : Char) : isUnreserved c =
    (c.isUpper || c.isLower || c.isDigit || c == '_' || c == '.' || c == '-' || c == '~') := rfl

theorem ascii_of_isUnreserved {c : Char} (h : isUnreserved c = true) : c.toNat < 128 := by
  have hle : ∀ d : Char, c.val ≤ d.val → d.toNat < 128 → c.toNat < 128 := fun d hc hd =>
    Nat.lt_of_le_of_lt (UInt32.le_iff_toNat_le.1 hc) hd
  simp only [isUnreserved_eq, Bool.or_eq_true, beq_iff_eq] at h
  rcases h with (((((h | h) | h) | rfl) | rfl) | rfl) | rfl
  · exact hle 'Z' (of_decide_eq_true h).2 (by decide)
  · exact hle 'z' (of_decide_eq_true (Bool.and_eq_true_iff.1 h).2) (by decide)
  · exact hle '9' (of_decide_eq_true (Bool.and_eq_true_iff.1 h).2) (by decide)
  all_goals decide

theorem unreserved_induction {P : Char → Prop}
    (h : ∀ n : Fin 128, isUnreserved (Char.ofNat n) = true → P (Char.ofNat n)) {c : Char}
    (hc : isUnreserved c = true) : P c :=
  ascii_induction (P := fun c => isUnreserved c = true → P c) h (ascii_of_isUnreserved hc) hc

/-- The characters that segments are made of. -/
def isSegmentChar (c : Char) : Bool := (isUnreserved c && !c.isUpper) || c == '%' || c == '+'

theorem isUnreserved_hexCapital {n : Nat} (h : n < 16) : isUnreserved (hexCapital n) = true := by
  have : ∀ m : Fin 16, isUnreserved (hexCapital m.1) = true := by decide
  exact this ⟨n, h⟩

theorem mem_escapeByte {b : UInt8} {c : Char} (h : c ∈ escapeByte b) : isUnreserved c = true ∨ c = '%' := by
  have hb := b.toNat_lt
  simp only [escapeByte, List.mem_cons, List.not_mem_nil, or_false] at h
  rcases h with rfl | rfl | rfl
  · exact .inr rfl
  · exact .inl (isUnreserved_hexCapital (by omega))
  · exact .inl (isUnreserved_hexCapital (by omega))

theorem mem_escape {cs : List Char} {c : Char} (h : c ∈ escape cs) : isUnreserved c = true ∨ c = '%' := by
  obtain ⟨d, -, hc⟩ := List.mem_flatMap.1 h
  unfold escapeChar at hc
  split at hc
  · next hd =>
    obtain rfl := List.mem_singleton.1 hc
    exact .inl hd
  · obtain ⟨b, -, hb⟩ := List.mem_flatMap.1 hc
    exact mem_escapeByte hb

theorem plus_not_mem_escape (cs : List Char) : '+' ∉ escape cs := by
  intro h
  rcases mem_escape h with h | h
  · exact absurd h (by decide)
  · exact absurd h (by decide)

theorem isSegmentChar_toLower {c : Char} (h : isUnreserved c = true ∨ c = '%') : isSegmentChar c.toLower = true := by
  rcases h with h | rfl
  · exact unreserved_induction (P := fun c => isSegmentChar c.toLower = true) (by decide) h
  · decide

theorem hexDigit_of_mem_textDigest {cs : List Char} {c : Char} (h : c ∈ textDigest cs) :
    ∃ m : Fin 16, c = hexDigit m.1 := by
  obtain ⟨b, -, hb⟩ := List.mem_flatMap.1 h
  have := b.toNat_lt
  simp only [List.mem_cons, List.not_mem_nil, or_false] at hb
  rcases hb with rfl | rfl
  · exact ⟨⟨b.toNat / 16, by omega⟩, rfl⟩
  · exact ⟨⟨b.toNat % 16, by omega⟩, rfl⟩

theorem mem_textDigest {cs : List Char} {c : Char} (h : c ∈ textDigest cs) : isSegmentChar c = true ∧ c ≠ '.' := by
  have key : ∀ m : Fin 16, isSegmentChar (hexDigit m.1) = true ∧ hexDigit m.1 ≠ '.' := by decide
  obtain ⟨m, rfl⟩ := hexDigit_of_mem_textDigest h
  exact key m

theorem isSmall_of_isSegmentChar {c : Char} (h : isSegmentChar c = true) : IsSmall c := by
  simp only [isSegmentChar, Bool.or_eq_true, Bool.and_eq_true, Bool.not_eq_true', beq_iff_eq] at h
  rcases h with (⟨hu, hc⟩ | rfl) | rfl
  · exact ⟨ascii_of_isUnreserved hu, hc⟩
  · exact ⟨by decide, by decide⟩
  · exact ⟨by decide, by decide⟩

theorem isBlank_of_isSegmentChar {c : Char} (h : isSegmentChar c = true) : isBlank c = false := by
  have key : ∀ n : Fin 128, isSegmentChar (Char.ofNat n) = true → isBlank (Char.ofNat n) = false := by decide
  exact ascii_induction (P := fun c => isSegmentChar c = true → isBlank c = false) key
    (isSmall_of_isSegmentChar h).1 h

theorem lowerChar_of_isSmall {c : Char} (h : IsSmall c) : lowerChar c = c := by
  have key : ∀ n : Fin 128, (Char.ofNat n).isUpper = false →
      (Char.ofNat n).toLower = Char.ofNat n := by decide
  refine ascii_induction (P := fun c => c.isUpper = false → lowerChar c = c) (fun n hn => ?_) h.1 h.2
  rw [lowerChar_ascii, key n hn]

theorem lowerFrom_of_isSmall {cs : List Char} (h : ∀ c ∈ cs, IsSmall c) (before : List Char) :
    lowerFrom before cs = cs := by
  induction cs generalizing before with
  | nil => rfl
  | cons c cs ih =>
    have hc : IsSmall c := h c (by simp)
    have h1 : c ≠ '\u0130' := by rintro rfl; exact absurd hc.1 (by decide)
    have h2 : c ≠ '\u03a3' := by rintro rfl; exact absurd hc.1 (by decide)
    rw [lowerFrom, if_neg h1, if_neg h2, lowerChar_of_isSmall hc,
      ih (fun d hd => h d (List.mem_cons_of_mem _ hd))]
    rfl

/-! ## The two forms -/

theorem isPlainSegment_iff {seg : List Char} : isPlainSegment seg = true ↔
    seg.length ≤ maxSegmentLength ∧ (∀ c ∈ seg, c.isUpper = false) ∧ seg.getLast? ≠ some '.' ∧
      stem seg ∉ deviceNames := by
  simp [isPlainSegment, and_assoc]

def readableStart (version : List Char) : List Char :=
  ((escape version).map Char.toLower).take (maxSegmentLength - segmentDigestLength - 1)

def segmentDigest (version : List Char) : List Char :=
  (textDigest version).take segmentDigestLength

theorem hashedSegment_eq (version : List Char) :
    hashedSegment version = readableStart version ++ '+' :: segmentDigest version := rfl

theorem length_segmentDigest (version : List Char) :
    (segmentDigest version).length = segmentDigestLength := by
  rw [segmentDigest, List.length_take, length_textDigest]
  rfl

theorem hashedSegment_eq_iff (v w : List Char) :
    hashedSegment v = hashedSegment w ↔
      readableStart v = readableStart w ∧ segmentDigest v = segmentDigest w := by
  rw [hashedSegment_eq, hashedSegment_eq]
  constructor
  · intro h
    have hl : ('+' :: segmentDigest v).length = ('+' :: segmentDigest w).length := by
      simp [length_segmentDigest]
    obtain ⟨hr, hd⟩ := List.append_inj' h hl
    exact ⟨hr, (List.cons.inj hd).2⟩
  · rintro ⟨hr, hd⟩
    rw [hr, hd]

theorem escape_ne_hashedSegment (v w : List Char) : escape v ≠ hashedSegment w := by
  intro h
  have hp : '+' ∈ escape v := by rw [h, hashedSegment_eq]; simp
  exact plus_not_mem_escape v hp

theorem mem_segmentOf {version : List Char} {c : Char} (h : c ∈ segmentOf version) : isSegmentChar c = true := by
  unfold segmentOf at h
  split at h
  · next hp =>
    have hsmall : c.isUpper = false := (isPlainSegment_iff.1 hp).2.1 c h
    unfold isSegmentChar
    rcases mem_escape h with hu | rfl
    · simp [hu, hsmall]
    · rfl
  · rw [hashedSegment_eq] at h
    rcases List.mem_append.1 h with hr | hd
    · obtain ⟨d, hd, rfl⟩ := List.mem_map.1 (List.mem_of_mem_take hr)
      exact isSegmentChar_toLower (mem_escape hd)
    · rcases List.mem_cons.1 hd with rfl | hd
      · rfl
      · exact (mem_textDigest (List.mem_of_mem_take hd)).1

/-- Two different versions that are both hashed and whose digests begin alike. -/
def DigestsMeet (v w : List Char) : Prop :=
  v ≠ w ∧ isPlainSegment (escape v) = false ∧ isPlainSegment (escape w) = false ∧
    segmentDigest v = segmentDigest w

theorem segmentOf_eq_iff (v w : List Char) :
    segmentOf v = segmentOf w ↔ v = w ∨ DigestsMeet v w ∧ readableStart v = readableStart w := by
  by_cases hvw : v = w
  · simp [hvw]
  · unfold segmentOf DigestsMeet
    cases hv : isPlainSegment (escape v) <;> cases hw : isPlainSegment (escape w)
    · simp [hvw, hashedSegment_eq_iff, and_comm]
    · simp [hvw, (escape_ne_hashedSegment w v).symm]
    · simp [hvw, escape_ne_hashedSegment v w]
    · simpa [hvw] using fun h => hvw (escape_injective h)

theorem toLowerCase_segmentOf (version : List Char) :
    toLowerCase (String.ofList (segmentOf version)) = String.ofList (segmentOf version) := by
  rw [toLowerCase, String.toList_ofList, lowerFrom_of_isSmall fun _ h => isSmall_of_isSegmentChar (mem_segmentOf h)]

theorem strip_of_ends {cs : List Char} (hf : ∀ c, cs.head? = some c → isBlank c = false)
    (hl : ∀ c, cs.getLast? = some c → isBlank c = false) : strip cs = cs := by
  have hdrop : ∀ {ds : List Char}, (∀ c, ds.head? = some c → isBlank c = false) → ds.dropWhile isBlank = ds := by
    intro ds h
    cases ds with
    | nil => rfl
    | cons d ds => simp [h d rfl]
  unfold strip stripRight
  rw [hdrop hf, hdrop, List.reverse_reverse]
  intro c hc
  rw [List.head?_reverse] at hc
  exact hl c hc

theorem strip_ne_nil {cs : List Char} (h : ∃ c ∈ cs, isBlank c = false) : strip cs ≠ [] := by
  obtain ⟨c, hc, hb⟩ := h
  intro he
  rw [strip_eq_nil_iff] at he
  simp [he c hc] at hb

theorem versionSegment?_eq_some {version : String} (h : ∃ c ∈ version.toList, isBlank c = false) :
    versionSegment? version = some (String.ofList (segmentOf (strip version.toList))) := by
  have hne := strip_ne_nil h
  unfold versionSegment?
  split
  · next he => exact absurd he hne
  · rfl

/-! ## Segments as names -/

theorem segmentOf_ne_nil {version : List Char} (h : version ≠ []) : segmentOf version ≠ [] := by
  unfold segmentOf
  split
  · intro he
    have hnil : escape version = escape [] := he
    exact h (escape_injective hnil)
  · rw [hashedSegment_eq]
    simp

theorem getLast?_segmentOf (version : List Char) : (segmentOf version).getLast? ≠ some '.' := by
  unfold segmentOf
  split
  · next hp => exact (isPlainSegment_iff.1 hp).2.2.1
  · rw [hashedSegment_eq, List.getLast?_append, List.getLast?_cons]
    intro he
    have hne : segmentDigest version ≠ [] := by
      rw [← List.length_pos_iff, length_segmentDigest]
      decide
    rw [List.getLast?_eq_some_getLast hne] at he
    have hlast : (segmentDigest version).getLast hne ∈ textDigest version :=
      List.mem_of_mem_take (List.getLast_mem hne)
    exact (mem_textDigest hlast).2 (Option.some.inj he)

theorem isName_ofList {seg : List Char} (hne : seg ≠ []) (hlast : seg.getLast? ≠ some '.') (hslash : '/' ∉ seg) :
    Path.isName (String.ofList seg) = true := by
  have hname : ∀ name : String, String.ofList seg = name → seg = name.toList := by
    rintro name rfl
    simp
  have hempty : String.ofList seg ≠ "" := fun he => hne (hname _ he)
  have hdot : String.ofList seg ≠ "." := fun he => hlast (by rw [hname _ he]; rfl)
  have hdots : String.ofList seg ≠ ".." := fun he => hlast (by rw [hname _ he]; rfl)
  unfold Path.isName
  simp [hempty, hdot, hdots, hslash]

theorem of_versionSegment? {version segment : String} (h : versionSegment? version = some segment) :
    strip version.toList ≠ [] ∧ segment = String.ofList (segmentOf (strip version.toList)) := by
  unfold versionSegment? at h
  split at h
  · cases h
  · next hne => exact ⟨hne, (Option.some.inj h).symm⟩

/-- A segment names an entry of its directory: it holds no slash and is neither empty nor made of dots. -/
theorem isName_of_versionSegment? {version segment : String} (h : versionSegment? version = some segment) :
    Path.isName segment = true := by
  obtain ⟨hne, rfl⟩ := of_versionSegment? h
  apply isName_ofList (segmentOf_ne_nil hne) (getLast?_segmentOf _)
  intro hm
  exact absurd (mem_segmentOf hm) (by decide)

/-- Versions of one segment are the same, or both are hashed and their digests meet. -/
theorem eq_or_meet_of_segment {v w segment : String} (hv : versionSegment? v = some segment)
    (hw : versionSegment? w = some segment) :
    strip v.toList = strip w.toList ∨ DigestsMeet (strip v.toList) (strip w.toList) := by
  obtain ⟨-, rfl⟩ := of_versionSegment? hv
  obtain ⟨-, he⟩ := of_versionSegment? hw
  rcases (segmentOf_eq_iff _ _).1 (String.ofList_inj.1 he) with h | ⟨h, -⟩
  · exact .inl h
  · exact .inr h

/-- Segments are equal only for equal versions, as they are and in lower case alike, unless both
are hashed and the digests begin alike. A plain segment decodes to its version and is no hashed
segment of any other. -/
theorem segments_eq_iff {v w : String} (hv : ∃ c ∈ v.toList, isBlank c = false)
    (hw : ∃ c ∈ w.toList, isBlank c = false) :
    ∃ s t, versionSegment? v = some s ∧ versionSegment? w = some t ∧
      (s = t ↔ strip v.toList = strip w.toList ∨
        DigestsMeet (strip v.toList) (strip w.toList) ∧
          readableStart (strip v.toList) = readableStart (strip w.toList)) ∧
      (toLowerCase s = toLowerCase t ↔ s = t) ∧
      (isPlainSegment (escape (strip v.toList)) = true →
        unescape s.toList = some ((strip v.toList).flatMap String.utf8EncodeChar) ∧
          ∀ u, s.toList ≠ hashedSegment u) := by
  refine ⟨_, _, versionSegment?_eq_some hv, versionSegment?_eq_some hw, ?_, ?_, ?_⟩
  · rw [String.ofList_inj]
    exact segmentOf_eq_iff _ _
  · rw [toLowerCase_segmentOf, toLowerCase_segmentOf]
  · intro hp
    rw [String.toList_ofList, segmentOf, if_pos hp]
    exact ⟨unescape_escape _, escape_ne_hashedSegment _⟩

theorem segments_eq_iff_capital :
    (∃ c ∈ "rc/1".toList, isBlank c = false) ∧ (∃ c ∈ " RC/1".toList, isBlank c = false) ∧
      ∃ s t, versionSegment? "rc/1" = some s ∧ versionSegment? " RC/1" = some t ∧
        (toLowerCase s = toLowerCase t ↔
          "rc/1".toList = "RC/1".toList ∨ DigestsMeet "rc/1".toList "RC/1".toList ∧
            readableStart "rc/1".toList = readableStart "RC/1".toList) := by
  have h1 : ∃ c ∈ "rc/1".toList, isBlank c = false := ⟨'r', by decide, by decide⟩
  have h2 : ∃ c ∈ " RC/1".toList, isBlank c = false := ⟨'R', by decide, by decide⟩
  obtain ⟨s, t, hs, ht, he, hl, -⟩ := segments_eq_iff h1 h2
  exact ⟨h1, h2, s, t, hs, ht, hl.trans he⟩

end Whereabouts

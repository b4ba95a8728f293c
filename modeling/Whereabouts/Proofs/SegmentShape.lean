import Mathlib.Data.List.TakeWhile
import Whereabouts.Proofs.Segments
import Whereabouts.Proofs.Session.Calls
import Whereabouts.Proofs.Session.Directories

/-!
# The shape of segments

A version that is not blank has a segment of at most 128 safe characters, and a segment without a plus sign spells its
version (`segment_shape`). A segment has the name of a device before its first dot exactly if the version begins with
such a name, in letters of either case, and a dot: the digest then stands behind the dot (`segment_names_device_iff`).
-/

namespace Whereabouts

variable {version l d : List Char} {c : Char}

/-! ## Digits and signs -/

def hexDigits : List Char := "0123456789abcdef".toList

theorem mem_segmentDigest (h : c ∈ segmentDigest version) : c ∈ hexDigits := by
  have key : ∀ m : Fin 16, hexDigit m.1 ∈ hexDigits := by decide
  obtain ⟨m, rfl⟩ := hexDigit_of_mem_textDigest (List.mem_of_mem_take h)
  exact key m

theorem plus_not_mem_segmentDigest (version : List Char) : '+' ∉ segmentDigest version := by
  intro h
  exact absurd (mem_segmentDigest h) (by decide)

theorem toLower_ne_plus (h : isUnreserved c = true ∨ c = '%') : c.toLower ≠ '+' := by
  rcases h with h | rfl
  · exact unreserved_induction (P := fun c => c.toLower ≠ '+') (by decide) h
  · decide

theorem plus_not_mem_readableStart (version : List Char) : '+' ∉ readableStart version := by
  intro h
  obtain ⟨c, hc, he⟩ := List.mem_map.1 (List.mem_of_mem_take h)
  exact toLower_ne_plus (mem_escape hc) he

theorem plus_mem_hashedSegment (version : List Char) : '+' ∈ hashedSegment version := by
  simp [hashedSegment_eq]

/-! ## What a segment spells -/

/-- The text that the escapes stand for, if they are complete and their bytes are UTF-8. -/
def unescapeText? (cs : List Char) : Option (List Char) :=
  (unescape cs).bind fun bs => bs.toByteArray.utf8Decode?.map Array.toList

theorem unescapeText?_escape (cs : List Char) : unescapeText? (escape cs) = some cs := by
  have hd : (cs.flatMap String.utf8EncodeChar).toByteArray.utf8Decode? = some cs.toArray :=
    List.utf8Decode?_utf8Encode
  rw [unescapeText?, unescape_escape, Option.bind_some, hd]
  rfl

/-! ## The shape -/

/-- The shape of a segment of the version. -/
structure IsShaped (version seg : List Char) : Prop where
  length_pos : 0 < seg.length
  length_le : seg.length ≤ 128
  chars : ∀ c ∈ seg, c.isLower = true ∨ c.isDigit = true ∨ c ∈ ['_', '.', '~', '%', '+', '-']
  no_slash : '/' ∉ seg
  no_capital : ∀ c ∈ seg, c.isUpper = false
  last : seg.getLast? ≠ some '.'
  not_dots : seg ≠ ['.'] ∧ seg ≠ ['.', '.']
  one_plus : seg.count '+' ≤ 1
  hashed : '+' ∈ seg →
    ∃ start digits, seg = start ++ '+' :: digits ∧ digits.length = 32 ∧ ∀ c ∈ digits, c ∈ hexDigits
  spells : '+' ∉ seg → unescapeText? seg = some version

theorem chars_of_isSegmentChar (h : isSegmentChar c = true) :
    c.isLower = true ∨ c.isDigit = true ∨ c ∈ ['_', '.', '~', '%', '+', '-'] := by
  simp only [isSegmentChar, isUnreserved_eq, Bool.or_eq_true, Bool.and_eq_true, Bool.not_eq_true', beq_iff_eq] at h
  simp only [List.mem_cons, List.not_mem_nil, or_false]
  grind

/-- A segment holds a plus sign exactly if it is hashed. -/
theorem segmentOf_cases (version : List Char) :
    isPlainSegment (escape version) = true ∧ '+' ∉ segmentOf version ∧ segmentOf version = escape version ∨
      isPlainSegment (escape version) = false ∧ '+' ∈ segmentOf version ∧
        segmentOf version = hashedSegment version := by
  unfold segmentOf
  split
  · next hp => exact .inl ⟨hp, plus_not_mem_escape version, rfl⟩
  · next hp => exact .inr ⟨by simpa using hp, plus_mem_hashedSegment version, rfl⟩

theorem length_segmentOf_le (version : List Char) : (segmentOf version).length ≤ 128 := by
  rcases segmentOf_cases version with ⟨hplain, -, he⟩ | ⟨-, -, he⟩
  · rw [he]
    exact (isPlainSegment_iff.1 hplain).1
  · have hstart : (readableStart version).length ≤ 95 := List.length_take_le _ _
    have hdigest : (segmentDigest version).length = 32 := length_segmentDigest version
    rw [he, hashedSegment_eq, List.length_append, List.length_cons]
    omega

theorem count_plus_segmentOf (version : List Char) : (segmentOf version).count '+' ≤ 1 := by
  rcases segmentOf_cases version with ⟨-, hn, -⟩ | ⟨-, -, he⟩
  · simp [List.count_eq_zero_of_not_mem hn]
  · simp [he, hashedSegment_eq, List.count_append,
      List.count_eq_zero_of_not_mem (plus_not_mem_readableStart version),
      List.count_eq_zero_of_not_mem (plus_not_mem_segmentDigest version)]

theorem isShaped_segmentOf (h : version ≠ []) : IsShaped version (segmentOf version) where
  length_pos := List.length_pos_iff.2 (segmentOf_ne_nil h)
  length_le := length_segmentOf_le version
  chars c hc := chars_of_isSegmentChar (mem_segmentOf hc)
  no_slash hm := absurd (mem_segmentOf hm) (by decide)
  no_capital c hc := (isSmall_of_isSegmentChar (mem_segmentOf hc)).2
  last := getLast?_segmentOf version
  not_dots := ⟨fun he => getLast?_segmentOf version (he ▸ rfl), fun he => getLast?_segmentOf version (he ▸ rfl)⟩
  one_plus := count_plus_segmentOf version
  hashed hm := by
    rcases segmentOf_cases version with ⟨-, hn, -⟩ | ⟨-, -, he⟩
    · exact absurd hm hn
    · exact ⟨_, _, he, length_segmentDigest version, fun c hc => mem_segmentDigest hc⟩
  spells hn := by
    rcases segmentOf_cases version with ⟨-, -, he⟩ | ⟨-, hm, -⟩
    · rw [he]
      exact unescapeText?_escape version
    · exact absurd hm hn

/-- A call for the segment of a version fails with a bad value exactly if the version has nothing but blanks. For any
other version it returns a segment in its shape. -/
theorem segment_shape (host : Host) (s : State) (version : String) :
    let x := ((versionSegment host (some version)).run s).1
    ((∃ f, x = .error f ∧ f.category = .badValue) ↔ ∀ c ∈ version.toList, isBlank c = true) ∧
      ((∃ c ∈ version.toList, isBlank c = false) →
        ∃ segment, x = .ok segment ∧ IsShaped (strip version.toList) segment.toList) := by
  intro x
  have hx : x = (versionSegment? version).elim (.error .blankVersion) .ok :=
    congrArg Prod.fst (run_segmentOrBlank version s)
  rw [hx, ← versionSegment?_eq_none_iff]
  constructor
  · cases versionSegment? version with
    | none => exact ⟨fun _ => rfl, fun _ => ⟨.blankVersion, rfl, rfl⟩⟩
    | some segment =>
      refine ⟨?_, nofun⟩
      rintro ⟨f, hf, -⟩
      cases hf
  · intro hnot
    rw [versionSegment?_eq_some hnot]
    refine ⟨_, rfl, ?_⟩
    rw [String.toList_ofList]
    exact isShaped_segmentOf (strip_ne_nil hnot)

theorem segment_shape_capital :
    (∃ c ∈ " RC/1 ".toList, isBlank c = false) ∧
      ∃ segment, ((versionSegment plainHost (some " RC/1 ")).run (.start {} [] "/")).1 = .ok segment ∧
        IsShaped "RC/1".toList segment.toList := by
  have hnot : ∃ c ∈ " RC/1 ".toList, isBlank c = false := ⟨'R', by decide, by decide⟩
  exact ⟨hnot, (segment_shape plainHost (.start {} [] "/") " RC/1 ").2 hnot⟩

/-! ## Names of devices -/

theorem toLower_of_not_isUpper (h : c.isUpper = false) : c.toLower = c := by
  unfold Char.toLower
  rw [dif_neg (of_decide_eq_false h)]

theorem not_isUpper_of_reserved (h : isUnreserved c = false) : c.isUpper = false := by
  simp only [isUnreserved_eq, Bool.or_eq_false_iff] at h
  exact h.1.1.1.1.1.1

theorem map_toLower_of_not_isUpper (h : ∀ c ∈ l, c.isUpper = false) : l.map Char.toLower = l :=
  (List.map_congr_left fun c hc => toLower_of_not_isUpper (h c hc)).trans (List.map_id' l)

/-- A character that is not kept becomes a percent sign and what follows it. -/
theorem escapeChar_of_reserved (h : isUnreserved c = false) : ∃ rest, escapeChar c = '%' :: rest := by
  unfold escapeChar
  rw [if_neg (by simp [h])]
  cases hb : String.utf8EncodeChar c with
  | nil => exact absurd hb String.utf8EncodeChar_ne_nil
  | cons b bs => exact ⟨_, rfl⟩

theorem stem_of_dotted (hd : '.' ∉ d) (h : d ++ ['.'] <+: l) : stem l = d := by
  obtain ⟨rest, rfl⟩ := h
  have hall : ∀ c ∈ d, (c != '.') = true := fun c hc => bne_iff_ne.2 fun he => hd (he ▸ hc)
  simp [stem, List.append_assoc, List.takeWhile_append_of_pos hall]

theorem stem_dotted (h : '.' ∈ l) : stem l ++ ['.'] <+: l := by
  induction l with
  | nil => cases h
  | cons c l ih =>
    unfold stem at ih ⊢
    by_cases hc : c = '.'
    · simp [hc]
    · have hl : '.' ∈ l := List.mem_of_ne_of_mem (Ne.symm hc) h
      rw [List.takeWhile_cons_of_pos (by simpa using hc), List.cons_append, List.cons_prefix_cons]
      exact ⟨rfl, ih hl⟩

/-- A stem holds every character of a text without a dot. -/
theorem dot_mem_of_not_mem_stem (hc : c ∈ l) (hs : c ∉ stem l) : '.' ∈ l := by
  by_cases hdot : '.' ∈ l
  · exact hdot
  · have hall : ∀ c ∈ l, (c != '.') = true := fun c hc => bne_iff_ne.2 fun he => hdot (he ▸ hc)
    exfalso
    apply hs
    rwa [stem, List.takeWhile_eq_self_iff.2 hall]

/-- What a text begins with, if it does not hold the sign, lies before the sign. -/
theorem prefix_append_cons_iff {x a b : List Char} (hx : c ∉ x) : x <+: a ++ c :: b ↔ x <+: a := by
  refine ⟨fun h => ?_, fun h => h.trans (List.prefix_append _ _)⟩
  rcases List.prefix_or_prefix_of_prefix h (List.prefix_append a (c :: b)) with ha | ⟨y, rfl⟩
  · exact ha
  · rw [List.prefix_append_right_inj] at h
    cases y with
    | nil => simp
    | cons b y =>
      obtain ⟨rfl, -⟩ := List.cons_prefix_cons.1 h
      exact absurd (List.mem_append_right _ List.mem_cons_self) hx

/-- Escapes keep the unreserved characters that a text begins with, and begin with no others. -/
theorem prefix_escape_iff {x : List Char} (hx : x.all isUnreserved = true) (version : List Char) :
    x <+: (escape version).map Char.toLower ↔ x <+: version.map Char.toLower := by
  induction version generalizing x with
  | nil => rfl
  | cons c version ih =>
    cases x with
    | nil => simp
    | cons a x =>
      obtain ⟨ha, hx⟩ := Bool.and_eq_true_iff.1 hx
      rw [escape, List.flatMap_cons, ← escape]
      by_cases hc : isUnreserved c = true
      · have hkept : escapeChar c = [c] := if_pos hc
        simp [hkept, List.cons_prefix_cons, ih hx]
      · have hreserved : isUnreserved c = false := by simpa using hc
        obtain ⟨rest, hescape⟩ := escapeChar_of_reserved hreserved
        have hsmall : c.toLower = c := toLower_of_not_isUpper (not_isUpper_of_reserved hreserved)
        have hpercent : a ≠ '%' := by
          rintro rfl
          exact absurd ha (by decide)
        have hne : a ≠ c := by
          rintro rfl
          exact hc ha
        simp [hescape, List.cons_prefix_cons, hsmall, hpercent, hne]

/-- The version begins with the name of a device, in letters of either case, and a dot. -/
def BeginsWithDevice (version : List Char) : Prop :=
  ∃ d ∈ deviceNames, d ++ ['.'] <+: version.map Char.toLower

theorem deviceNames_dotted : ∀ d ∈ deviceNames,
    '.' ∉ d ∧ '+' ∉ d ++ ['.'] ∧ (d ++ ['.']).length ≤ 95 ∧ (d ++ ['.']).all isUnreserved = true := by decide

theorem map_toLower_escape (h : isPlainSegment (escape version) = true) :
    (escape version).map Char.toLower = escape version :=
  map_toLower_of_not_isUpper (isPlainSegment_iff.1 h).2.1

theorem stem_escape_not_device (h : isPlainSegment (escape version) = true) : stem (escape version) ∉ deviceNames :=
  (isPlainSegment_iff.1 h).2.2.2

/-- A version that begins with the name of a device is not used as it is. -/
theorem BeginsWithDevice.not_plain (h : BeginsWithDevice version) : isPlainSegment (escape version) = false := by
  obtain ⟨d, hd, hp⟩ := h
  obtain ⟨hdot, -, -, hkept⟩ := deviceNames_dotted d hd
  refine Bool.eq_false_iff.2 fun hplain => ?_
  rw [← prefix_escape_iff hkept, map_toLower_escape hplain] at hp
  exact stem_escape_not_device hplain (stem_of_dotted hdot hp ▸ hd)

/-- The cut comes after the names of devices, so what stands before the first dot stays. -/
theorem prefix_hashedSegment_iff (hd : d ∈ deviceNames) (version : List Char) :
    d ++ ['.'] <+: hashedSegment version ↔ d ++ ['.'] <+: version.map Char.toLower := by
  obtain ⟨-, hplus, hshort, hkept⟩ := deviceNames_dotted d hd
  rw [hashedSegment_eq, prefix_append_cons_iff hplus, readableStart, List.prefix_take_iff, prefix_escape_iff hkept]
  exact and_iff_left hshort

theorem stem_hashedSegment_iff (version : List Char) :
    stem (hashedSegment version) ∈ deviceNames ↔ BeginsWithDevice version := by
  constructor
  · intro h
    have hplus : '+' ∉ stem (hashedSegment version) := fun hm =>
      (deviceNames_dotted _ h).2.1 (List.mem_append_left _ hm)
    have hdot : '.' ∈ hashedSegment version := dot_mem_of_not_mem_stem (plus_mem_hashedSegment version) hplus
    exact ⟨_, h, (prefix_hashedSegment_iff h version).1 (stem_dotted hdot)⟩
  · rintro ⟨d, hd, hp⟩
    rw [stem_of_dotted (deviceNames_dotted d hd).1 ((prefix_hashedSegment_iff hd version).2 hp)]
    exact hd

theorem stem_segmentOf_iff (version : List Char) :
    stem (segmentOf version) ∈ deviceNames ↔ BeginsWithDevice version := by
  rcases segmentOf_cases version with ⟨hplain, -, he⟩ | ⟨-, -, he⟩
  · rw [he]
    refine ⟨fun h => absurd h (stem_escape_not_device hplain), fun h => ?_⟩
    cases hplain.symm.trans h.not_plain
  · rw [he]
    exact stem_hashedSegment_iff version

/-- The segment of a version names a device exactly if the version begins with the name of a device and a dot. Such a
version is always hashed: no segment that spells its version names a device. -/
theorem segment_names_device_iff {version : String} (h : ∃ c ∈ version.toList, isBlank c = false) :
    ∃ segment, versionSegment? version = some segment ∧
      (stem segment.toList ∈ deviceNames ↔ BeginsWithDevice (strip version.toList)) ∧
      ('+' ∉ segment.toList → stem segment.toList ∉ deviceNames) := by
  refine ⟨_, versionSegment?_eq_some h, ?_⟩
  rw [String.toList_ofList]
  refine ⟨stem_segmentOf_iff _, fun hplus => ?_⟩
  rcases segmentOf_cases (strip version.toList) with ⟨hplain, -, he⟩ | ⟨-, hmem, -⟩
  · rw [he]
    exact stem_escape_not_device hplain
  · exact absurd hmem hplus

theorem segment_names_device_iff_capital :
    (∃ c ∈ "Con.1".toList, isBlank c = false) ∧
      ∃ segment, versionSegment? "Con.1" = some segment ∧ stem segment.toList ∈ deviceNames := by
  have hnot : ∃ c ∈ "Con.1".toList, isBlank c = false := ⟨'C', by decide, by decide⟩
  obtain ⟨segment, hsegment, hiff, -⟩ := segment_names_device_iff hnot
  exact ⟨hnot, segment, hsegment, hiff.2 ⟨"con".toList, by decide, by decide⟩⟩

/-- The segment of `con.1` is the console's name with an extension. -/
theorem console_segment_names_device :
    ¬∀ version segment : String, versionSegment? version = some segment → stem segment.toList ∉ deviceNames := by
  intro h
  have hnot : ∃ c ∈ "con.1".toList, isBlank c = false := ⟨'c', by decide, by decide⟩
  refine h "con.1" _ (versionSegment?_eq_some hnot) ?_
  rw [String.toList_ofList, stem_segmentOf_iff]
  exact ⟨"con".toList, by decide, by decide⟩

end Whereabouts

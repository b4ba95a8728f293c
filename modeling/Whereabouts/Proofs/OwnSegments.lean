import Whereabouts.Proofs.SegmentShape

/-!
# Versions that are their own segments

Escaping never shortens a text, and it keeps a text exactly if all characters are unreserved. So a version is its own
segment if it needs no escapes and no digest, and otherwise only if it has the full 128 characters and ends in the
digest of itself (`own_segment_iff`).
-/

namespace Whereabouts

variable {l : List Char} {c : Char}

/-! ## The length of an escaped text -/

theorem length_escapeChar_pos (c : Char) : 1 ≤ (escapeChar c).length := by
  by_cases h : isUnreserved c = true
  · simp [escapeChar, h]
  · obtain ⟨rest, he⟩ := escapeChar_of_reserved (by simpa using h)
    simp [he]

theorem lt_length_escapeChar (h : isUnreserved c = false) : 1 < (escapeChar c).length := by
  unfold escapeChar
  rw [if_neg (by simp [h])]
  cases hb : String.utf8EncodeChar c with
  | nil => exact absurd hb String.utf8EncodeChar_ne_nil
  | cons b bs => simp [escapeByte]

theorem length_le_length_escape (l : List Char) : l.length ≤ (escape l).length := by
  induction l with
  | nil => simp
  | cons c l ih =>
    have hc := length_escapeChar_pos c
    rw [escape, List.flatMap_cons, ← escape, List.length_append, List.length_cons]
    omega

theorem length_lt_length_escape (h : c ∈ l) (hc : isUnreserved c = false) : l.length < (escape l).length := by
  obtain ⟨before, after, rfl⟩ := List.append_of_mem h
  have hbefore := length_le_length_escape before
  have hafter := length_le_length_escape after
  have hlong := lt_length_escapeChar hc
  have he : escape (before ++ c :: after) = escape before ++ (escapeChar c ++ escape after) := by
    simp [escape]
  rw [he]
  simp only [List.length_append, List.length_cons]
  omega

theorem escape_eq_self_iff : escape l = l ↔ ∀ c ∈ l, isUnreserved c = true := by
  constructor
  · intro h c hc
    by_contra hr
    have hlong := length_lt_length_escape hc (by simpa using hr)
    rw [h] at hlong
    exact absurd hlong (Nat.lt_irrefl _)
  · intro h
    induction l with
    | nil => rfl
    | cons c l ih =>
      have hkept : escapeChar c = [c] := if_pos (h c List.mem_cons_self)
      have hrest : escape l = l := ih fun d hd => h d (List.mem_cons_of_mem _ hd)
      rw [escape, List.flatMap_cons, ← escape, hkept, hrest]
      rfl

/-! ## Stripping a segment -/

theorem strip_of_not_blank (h : ∀ c ∈ l, isBlank c = false) : strip l = l := by
  apply strip_of_ends
  · intro c hc
    exact h c (List.mem_of_mem_head? hc)
  · intro c hc
    exact h c (List.mem_of_mem_getLast? hc)

/-- A version is its own segment exactly if it is not empty and the stripped one is. -/
theorem versionSegment?_eq_self_iff {s : String} :
    versionSegment? s = some s ↔ s.toList ≠ [] ∧ segmentOf s.toList = s.toList := by
  constructor
  · intro h
    obtain ⟨hne, he⟩ := of_versionSegment? h
    have hchars : s.toList = segmentOf (strip s.toList) := by
      simpa using congrArg String.toList he
    have hblank : ∀ c ∈ s.toList, isBlank c = false := by
      intro c hc
      rw [hchars] at hc
      exact isBlank_of_isSegmentChar (mem_segmentOf hc)
    rw [strip_of_not_blank hblank] at hne hchars
    exact ⟨hne, hchars.symm⟩
  · rintro ⟨hne, h⟩
    have hblank : ∀ c ∈ s.toList, isBlank c = false := by
      intro c hc
      rw [← h] at hc
      exact isBlank_of_isSegmentChar (mem_segmentOf hc)
    obtain ⟨c, hc⟩ := List.exists_mem_of_ne_nil _ hne
    rw [versionSegment?_eq_some ⟨c, hc, hblank c hc⟩, strip_of_not_blank hblank, h]
    simp

/-! ## The two kinds of own segments -/

/-- A text that can stand for itself on every file system. -/
structure IsPlainText (s : List Char) : Prop where
  length_pos : 0 < s.length
  length_le : s.length ≤ 128
  chars : ∀ c ∈ s, c.isLower = true ∨ c.isDigit = true ∨ c ∈ ['_', '.', '~', '-']
  last : s.getLast? ≠ some '.'
  stem : stem s ∉ deviceNames

/-- A text of full length that ends in its own digest, with its own escapes in front. -/
structure EndsInOwnDigest (s : List Char) : Prop where
  length : s.length = 128
  digest : '+' :: (textDigest s).take 32 <:+ s
  start : readableStart s <+: s

theorem small_unreserved_iff :
    c.isLower = true ∨ c.isDigit = true ∨ c ∈ ['_', '.', '~', '-'] ↔ isUnreserved c = true ∧ c.isUpper = false := by
  simp only [List.mem_cons, List.not_mem_nil, or_false]
  constructor
  · intro h
    have hu : isUnreserved c = true := by
      simp only [isUnreserved_eq, Bool.or_eq_true, beq_iff_eq]
      grind
    have key : ∀ n : Fin 128, isUnreserved (Char.ofNat n) = true →
        ((Char.ofNat n).isLower = true ∨ (Char.ofNat n).isDigit = true ∨ Char.ofNat n = '_' ∨ Char.ofNat n = '.' ∨
          Char.ofNat n = '~' ∨ Char.ofNat n = '-') → (Char.ofNat n).isUpper = false := by decide
    exact ⟨hu, unreserved_induction (P := fun c => (c.isLower = true ∨ c.isDigit = true ∨ c = '_' ∨ c = '.' ∨
      c = '~' ∨ c = '-') → c.isUpper = false) key hu h⟩
  · rintro ⟨hu, hupper⟩
    simp only [isUnreserved_eq, hupper, Bool.or_eq_true, beq_iff_eq] at hu
    grind

theorem isPlainText_iff : IsPlainText l ↔ l ≠ [] ∧ escape l = l ∧ isPlainSegment l = true := by
  rw [escape_eq_self_iff, isPlainSegment_iff]
  constructor
  · intro h
    have hchars : ∀ c ∈ l, isUnreserved c = true ∧ c.isUpper = false := fun c hc => small_unreserved_iff.1 (h.chars c hc)
    exact ⟨List.length_pos_iff.1 h.length_pos, fun c hc => (hchars c hc).1, h.length_le, fun c hc => (hchars c hc).2,
      h.last, h.stem⟩
  · rintro ⟨hne, hkept, hlength, hsmall, hlast, hstem⟩
    exact ⟨List.length_pos_iff.2 hne, hlength, fun c hc => small_unreserved_iff.2 ⟨hkept c hc, hsmall c hc⟩, hlast, hstem⟩

theorem length_hashedSegment (version : List Char) :
    (hashedSegment version).length = min 95 (escape version).length + 33 := by
  rw [hashedSegment_eq, List.length_append, List.length_cons, length_segmentDigest, readableStart, List.length_take,
    List.length_map]
  rfl

/-- A hashed segment is longer than its version unless the readable start was cut. -/
theorem endsInOwnDigest_of_hashed (h : hashedSegment l = l) : EndsInOwnDigest l := by
  have hlength := length_hashedSegment l
  have hgrows := length_le_length_escape l
  rw [h] at hlength
  rw [hashedSegment_eq] at h
  refine ⟨by omega, ?_, ?_⟩
  · exact ⟨readableStart l, h⟩
  · exact ⟨'+' :: segmentDigest l, h⟩

theorem EndsInOwnDigest.plus_mem (h : EndsInOwnDigest l) : '+' ∈ l := h.digest.subset List.mem_cons_self

theorem EndsInOwnDigest.hashed (h : EndsInOwnDigest l) : hashedSegment l = l := by
  obtain ⟨start, hs⟩ := h.digest
  obtain ⟨rest, hr⟩ := h.start
  have hlength := length_hashedSegment l
  have hgrows := length_le_length_escape l
  have hfull := h.length
  have hdigest : ('+' :: segmentDigest l).length = 33 := by
    rw [List.length_cons, length_segmentDigest]
    rfl
  have hparts : (readableStart l).length + rest.length = l.length := by
    rw [← List.length_append, hr]
  have hrest : rest.length = ('+' :: segmentDigest l).length := by
    rw [hashedSegment_eq, List.length_append] at hlength
    omega
  have hsame : rest = '+' :: segmentDigest l := (List.append_inj' (hr.trans hs.symm) hrest).2
  rw [hashedSegment_eq, ← hsame, hr]

/-- The plus sign is escaped, so that the text becomes too long to be used as it is. -/
theorem EndsInOwnDigest.not_plain (h : EndsInOwnDigest l) : isPlainSegment (escape l) = false := by
  have hlong := length_lt_length_escape h.plus_mem (by decide)
  rw [h.length] at hlong
  rw [← Bool.not_eq_true, isPlainSegment_iff]
  rintro ⟨hshort, -⟩
  exact absurd hlong (Nat.not_lt.2 hshort)

theorem segmentOf_eq_self_iff (hne : l ≠ []) : segmentOf l = l ↔ IsPlainText l ∨ EndsInOwnDigest l := by
  constructor
  · intro h
    rcases segmentOf_cases l with ⟨hplain, -, he⟩ | ⟨-, -, he⟩
    · have hkept : escape l = l := he.symm.trans h
      rw [hkept] at hplain
      exact .inl (isPlainText_iff.2 ⟨hne, hkept, hplain⟩)
    · exact .inr (endsInOwnDigest_of_hashed (he.symm.trans h))
  · rintro (h | h)
    · obtain ⟨-, hkept, hplain⟩ := isPlainText_iff.1 h
      rw [segmentOf, hkept, if_pos hplain]
    · rw [segmentOf, if_neg (by simp [h.not_plain]), h.hashed]

/-! ## Escapes in own segments -/

/-- Another character than the percent sign is escaped in the text. -/
def HasEscape (s : List Char) : Prop :=
  ∃ x ∈ hexDigits, ∃ y ∈ hexDigits, ¬(x = '2' ∧ y = '5') ∧ ['%', x, y] <:+: s

theorem escape_percent (l : List Char) : escape ('%' :: l) = '%' :: '2' :: '5' :: escape l := rfl

/-- A text that goes on as the escapes of its percent sign and of itself goes on as `2525` without end. -/
theorem percent_not_mem_of_prefix : ∀ {r d : List Char},
    r <+: '2' :: '5' :: (escape (r ++ d)).map Char.toLower → '%' ∉ r
  | [], _, _ => by simp
  | [a], _, h => by
    obtain ⟨rfl, -⟩ := List.cons_prefix_cons.1 h
    decide
  | a :: b :: r, d, h => by
    obtain ⟨rfl, hb⟩ := List.cons_prefix_cons.1 h
    obtain ⟨rfl, hr⟩ := List.cons_prefix_cons.1 hb
    have hrest : '%' ∉ r := percent_not_mem_of_prefix hr
    simp [hrest]

theorem prefix_after_percent {before r d : List Char}
    (h : before ++ '%' :: r <+: (escape (before ++ '%' :: r ++ d)).map Char.toLower) :
    r <+: '2' :: '5' :: (escape (r ++ d)).map Char.toLower := by
  induction before with
  | nil =>
    rw [List.nil_append, List.cons_append, escape_percent] at h
    exact (List.cons_prefix_cons.1 h).2
  | cons c before ih =>
    by_cases hc : isUnreserved c = true
    · have hkept : escapeChar c = [c] := if_pos hc
      rw [List.cons_append, List.cons_append, escape, List.flatMap_cons, ← escape, hkept] at h
      exact ih (List.cons_prefix_cons.1 h).2
    · -- the text begins with a percent sign, and no other comes after it
      obtain ⟨rest, he⟩ := escapeChar_of_reserved (by simpa using hc)
      have hpercent : c = '%' := by
        rw [List.cons_append, List.cons_append, escape, List.flatMap_cons, he] at h
        exact (List.cons_prefix_cons.1 h).1
      subst hpercent
      rw [List.cons_append, List.cons_append, escape_percent] at h
      have hnone : '%' ∉ before ++ '%' :: r := percent_not_mem_of_prefix (List.cons_prefix_cons.1 h).2
      exact absurd (by simp) hnone

theorem percent_not_mem_segmentDigest (version : List Char) : '%' ∉ segmentDigest version := by
  intro h
  exact absurd (mem_segmentDigest h) (by decide)

/-- A whole escape in a hashed segment stands in its readable start. -/
theorem escape_in_readableStart {x y : Char} (hx : x ∈ hexDigits) (hy : y ∈ hexDigits)
    (h : ['%', x, y] <:+: hashedSegment l) :
    ∃ before after, readableStart l = before ++ '%' :: x :: y :: after := by
  obtain ⟨before, after, he⟩ := h
  rw [hashedSegment_eq, List.append_assoc] at he
  rcases List.append_eq_append_iff.1 he with ⟨between, hstart, hrest⟩ | ⟨between, -, hdigest⟩
  · rcases between with _ | ⟨a, _ | ⟨b, _ | ⟨c, between⟩⟩⟩
    · cases hrest
    · cases hrest
      exact absurd hx (by decide)
    · cases hrest
      exact absurd hy (by decide)
    · cases hrest
      exact ⟨before, between, hstart⟩
  · have hm : '%' ∈ '+' :: segmentDigest l := by
      rw [hdigest]
      simp
    exact absurd (List.mem_of_ne_of_mem (by decide) hm) (percent_not_mem_segmentDigest l)

theorem HasEscape.percent_mem (h : HasEscape l) : '%' ∈ l := by
  obtain ⟨x, -, y, -, -, he⟩ := h
  exact he.subset List.mem_cons_self

theorem EndsInOwnDigest.no_escape (h : EndsInOwnDigest l) : ¬HasEscape l := by
  rintro ⟨x, hx, y, hy, hother, he⟩
  rw [← h.hashed] at he
  obtain ⟨before, after, hstart⟩ := escape_in_readableStart hx hy he
  have hl : before ++ '%' :: x :: y :: after ++ '+' :: segmentDigest l = l := by
    rw [← hstart, ← hashedSegment_eq, h.hashed]
  have hprefix : before ++ '%' :: x :: y :: after <+:
      (escape (before ++ '%' :: x :: y :: after ++ '+' :: segmentDigest l)).map Char.toLower := by
    rw [hl, ← hstart]
    exact List.take_prefix _ _
  obtain ⟨hx2, hrest⟩ := List.cons_prefix_cons.1 (prefix_after_percent hprefix)
  exact hother ⟨hx2, (List.cons_prefix_cons.1 hrest).1⟩

/-- A version is its own segment exactly if it is a plain text, or if it has 128 characters and ends in its own
digest. So no segment with an escape and no shorter segment with a digest is its own segment; among those of 128
characters only one in which no character but the percent sign is escaped can be. -/
theorem own_segment_iff (s : String) :
    (versionSegment? s = some s ↔ IsPlainText s.toList ∨ EndsInOwnDigest s.toList) ∧
      ('%' ∈ s.toList → '+' ∉ s.toList → versionSegment? s ≠ some s) ∧
      (HasEscape s.toList → versionSegment? s ≠ some s) ∧
      ('+' ∈ s.toList → s.toList.length ≠ 128 → versionSegment? s ≠ some s) := by
  have hiff : versionSegment? s = some s ↔ IsPlainText s.toList ∨ EndsInOwnDigest s.toList := by
    rw [versionSegment?_eq_self_iff]
    constructor
    · rintro ⟨hne, h⟩
      exact (segmentOf_eq_self_iff hne).1 h
    · intro h
      have hne : s.toList ≠ [] := by
        rcases h with h | h
        · exact List.length_pos_iff.1 h.length_pos
        · exact List.ne_nil_of_mem h.plus_mem
      exact ⟨hne, (segmentOf_eq_self_iff hne).2 h⟩
  refine ⟨hiff, ?_, ?_, ?_⟩
  · intro hpercent hplus h
    rcases hiff.1 h with hp | hd
    · exact absurd (hp.chars _ hpercent) (by decide)
    · exact hplus hd.plus_mem
  · intro hescape h
    rcases hiff.1 h with hp | hd
    · exact absurd (hp.chars _ hescape.percent_mem) (by decide)
    · exact hd.no_escape hescape
  · intro hplus hlength h
    rcases hiff.1 h with hp | hd
    · exact absurd (hp.chars _ hplus) (by decide)
    · exact hlength hd.length

/-- A release is its own segment. The segments of `a b`, of `a/b` and of `V` are not. -/
theorem own_segment_iff_release :
    versionSegment? "1.0~rc.2" = some "1.0~rc.2" ∧ versionSegment? "a%20b" ≠ some "a%20b" ∧
      versionSegment? "a%2fb+c14cddc033f64b9dea80ea675cf280a0" ≠ some "a%2fb+c14cddc033f64b9dea80ea675cf280a0" ∧
      versionSegment? "v+de5a6f78116eca62d7fc5ce159d23ae6" ≠ some "v+de5a6f78116eca62d7fc5ce159d23ae6" := by
  have hplain : IsPlainText "1.0~rc.2".toList := isPlainText_iff.2 ⟨by decide, by decide, by decide⟩
  have hescape : HasEscape "a%2fb+c14cddc033f64b9dea80ea675cf280a0".toList :=
    ⟨'2', by decide, 'f', by decide, by decide, ['a'], "b+c14cddc033f64b9dea80ea675cf280a0".toList, rfl⟩
  refine ⟨(own_segment_iff _).1.2 (.inl hplain), ?_, ?_, ?_⟩
  · exact (own_segment_iff _).2.1 (by decide) (by decide)
  · exact (own_segment_iff _).2.2.1 hescape
  · exact (own_segment_iff _).2.2.2 (by decide) (by decide)

end Whereabouts

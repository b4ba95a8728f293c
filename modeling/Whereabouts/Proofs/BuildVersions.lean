import Whereabouts.Proofs.Segments
import Whereabouts.Session.Program

/-!
# Versions of different builds

A build is known by its target, its interpreter, the interpreter's release and its flags. The digest
input separates these by the zero character, so it tells builds apart as long as no part holds that
character (`input_eq_iff`), and the version ends in the digest whatever else it holds. Hence two
builds of one version have digests that meet (`buildVersionOf_eq`).
-/

namespace Whereabouts

variable {host host' : Host} {env env' : Environment}

/-! ## Lower case -/

theorem ofNat_ne_zero {n : Nat} (hn : 0 < n) (hv : n < 0xd800 ∨ 0xdfff < n ∧ n < 0x110000) :
    Char.ofNat n ≠ '\x00' := by
  intro h
  have hvalid : n.isValidChar := hv
  have hnat : (Char.ofNat n).toNat = n := by
    unfold Char.ofNat
    rw [dif_pos hvalid]
    rfl
  rw [h] at hnat
  have hzero : ('\x00' : Char).toNat = 0 := rfl
  omega

/-- Every run of capitals leads to small letters: none of them leads to the zero character. -/
theorem lowerCaseRuns_small : ∀ r ∈ lowerCaseRuns, 0 < r.1 + r.2.2.2 ∧
    (r.2.1 + r.2.2.2 < 0xd800 ∨ 0xdfff < r.1 + r.2.2.2 ∧ r.2.1 + r.2.2.2 < 0x110000) := by
  decide +kernel

theorem eq_zero_of_lowerChar {c : Char} (h : lowerChar c = '\x00') : c = '\x00' := by
  unfold lowerChar at h
  split at h
  · next r hr =>
    have hmem : r ∈ lowerCaseRuns := List.mem_of_find?_eq_some hr
    have hin := List.find?_some hr
    simp only [Bool.and_eq_true, decide_eq_true_eq] at hin
    obtain ⟨⟨hfirst, hlast⟩, -⟩ := hin
    obtain ⟨hpos, hvalid⟩ := lowerCaseRuns_small r hmem
    refine absurd h (ofNat_ne_zero ?_ ?_)
    · omega
    · omega
  · exact h

theorem zero_mem_of_lowerFrom {before cs : List Char} (h : '\x00' ∈ lowerFrom before cs) : '\x00' ∈ cs := by
  induction cs generalizing before with
  | nil => exact h
  | cons c cs ih =>
    rw [lowerFrom] at h
    rcases List.mem_append.1 h with h | h
    · split at h
      · exact absurd h (by decide)
      · split at h
        · split at h
          · exact absurd h (by decide)
          · exact absurd h (by decide)
        · rw [eq_zero_of_lowerChar (List.mem_singleton.1 h).symm]
          exact List.mem_cons_self
    · exact List.mem_cons_of_mem _ (ih h)

/-! ## Parts of a build -/

/-- What tells a build apart from the others of its release. -/
structure Build where
  target : String
  implementation : String
  release : Nat × Nat
  flags : Option String
deriving DecidableEq, Repr

def buildOf (host : Host) (env : Environment) : Build where
  target := targetTriple host
  implementation := host.implementation
  release := host.release
  flags := env.value? "JANK_BUILD_FLAGS"

/-- The names and the flags that enter the digest hold no zero character. -/
structure WithoutZero (host : Host) (env : Environment) : Prop where
  machine : '\x00' ∉ host.machine.toList
  implementation : '\x00' ∉ host.implementation.toList
  flags : ∀ flags, env.value? "JANK_BUILD_FLAGS" = some flags → '\x00' ∉ flags.toList

theorem zero_not_mem_profile (platform : String) : '\x00' ∉ (profileFor platform).name.toList := by
  unfold profileFor
  repeat' split
  all_goals decide

theorem toList_dashed (s t : String) : s!"{s}-{t}".toList = s.toList ++ '-' :: t.toList := by
  show (s ++ "-" ++ t).toList = _
  simp

theorem zero_not_mem_target (h : WithoutZero host env) : '\x00' ∉ (targetTriple host).toList := by
  unfold targetTriple toLowerCase
  rw [String.toList_ofList]
  have hprofile : '\x00' ∉ host.profile.name.toList := zero_not_mem_profile host.platform
  have hmachine : '\x00' ∉ (if host.machine = "" then "unknown" else host.machine).toList := by
    split
    · decide
    · exact h.machine
  intro hm
  have hz := zero_mem_of_lowerFrom hm
  rw [toList_dashed] at hz
  simp [hprofile, hmachine] at hz

theorem toList_dotted (a b : Nat) : s!"{a}.{b}".toList = a.repr.toList ++ '.' :: b.repr.toList := by
  show (a.repr ++ "." ++ b.repr).toList = _
  simp

theorem isDigit_of_mem_repr {n : Nat} {c : Char} (h : c ∈ n.repr.toList) : c.isDigit = true := by
  rw [Nat.toList_repr] at h
  exact Nat.isDigit_of_mem_toDigits (by decide) (by decide) h

theorem dot_not_mem_repr (n : Nat) : '.' ∉ n.repr.toList := fun h => absurd (isDigit_of_mem_repr h) (by decide)

theorem zero_not_mem_repr (n : Nat) : '\x00' ∉ n.repr.toList := fun h => absurd (isDigit_of_mem_repr h) (by decide)

theorem repr_injective {a b : Nat} (h : a.repr = b.repr) : a = b := by
  have hdigits : Nat.toDigits 10 a = Nat.toDigits 10 b := by
    rw [← Nat.toList_repr, ← Nat.toList_repr, h]
  calc
    a = Nat.ofDigitChars 10 (Nat.toDigits 10 a) 0 := Nat.ofDigitChars_ten_toDigits.symm
    _ = Nat.ofDigitChars 10 (Nat.toDigits 10 b) 0 := by rw [hdigits]
    _ = b := Nat.ofDigitChars_ten_toDigits

theorem dotted_injective {a b c d : Nat} (h : s!"{a}.{b}" = s!"{c}.{d}") : a = c ∧ b = d := by
  have hl : pieces '.' s!"{a}.{b}".toList = pieces '.' s!"{c}.{d}".toList := by rw [h]
  rw [toList_dotted, toList_dotted, pieces_append, pieces_append, pieces_of_not_mem (dot_not_mem_repr a),
    pieces_of_not_mem (dot_not_mem_repr b), pieces_of_not_mem (dot_not_mem_repr c),
    pieces_of_not_mem (dot_not_mem_repr d)] at hl
  simp only [List.cons_append, List.nil_append, List.cons.injEq, String.toList_inj, and_true] at hl
  exact ⟨repr_injective hl.1, repr_injective hl.2⟩

theorem value_ne_empty (env : Environment) (name : String) : env.value? name ≠ some "" := by
  intro h
  have hne := (Option.filter_eq_some_iff.1 h).2
  simp at hne

theorem getD_injective {x y : Option String} (hx : x ≠ some "") (hy : y ≠ some "") (h : x.getD "" = y.getD "") :
    x = y := by
  cases x <;> cases y <;> simp_all

theorem zero_not_mem_traits (h : WithoutZero host env) : ∀ trait ∈ buildTraits host env, '\x00' ∉ trait.toList := by
  have hflags : '\x00' ∉ ((env.value? "JANK_BUILD_FLAGS").getD "").toList := by
    cases hv : env.value? "JANK_BUILD_FLAGS" with
    | none => simp
    | some flags => exact h.flags flags hv
  have hrelease : '\x00' ∉ s!"{host.release.1}.{host.release.2}".toList := by
    rw [toList_dotted]
    simp only [List.mem_append, List.mem_cons, not_or]
    exact ⟨zero_not_mem_repr _, by decide, zero_not_mem_repr _⟩
  unfold buildTraits
  simp only [List.forall_mem_cons]
  exact ⟨by decide, zero_not_mem_target h, h.implementation, hrelease, hflags, List.forall_mem_nil _⟩

/-! ## The digest input -/

def digestInput (host : Host) (env : Environment) : List Char :=
  glue '\x00' ((buildTraits host env).map String.toList)

theorem traits_of_input (h : WithoutZero host env) (h' : WithoutZero host' env')
    (he : digestInput host env = digestInput host' env') : buildTraits host env = buildTraits host' env' := by
  have hsplit : ∀ {host env}, WithoutZero host env →
      pieces '\x00' (digestInput host env) = (buildTraits host env).map String.toList := by
    intro host env h
    apply pieces_glue
    · simp [buildTraits]
    · intro p hp
      obtain ⟨trait, ht, rfl⟩ := List.mem_map.1 hp
      exact zero_not_mem_traits h trait ht
  have hpieces : pieces '\x00' (digestInput host env) = pieces '\x00' (digestInput host' env') := by rw [he]
  rw [hsplit h, hsplit h'] at hpieces
  exact (List.map_inj_right fun _ _ => String.toList_inj.1).1 hpieces

theorem buildOf_of_traits (h : buildTraits host env = buildTraits host' env') :
    buildOf host env = buildOf host' env' := by
  unfold buildTraits at h
  simp only [List.cons.injEq, true_and, and_true] at h
  obtain ⟨htarget, himplementation, hrelease, hflags⟩ := h
  obtain ⟨hmajor, hminor⟩ := dotted_injective hrelease
  have hvalue : env.value? "JANK_BUILD_FLAGS" = env'.value? "JANK_BUILD_FLAGS" :=
    getD_injective (value_ne_empty env _) (value_ne_empty env' _) hflags
  have hpair : host.release = host'.release := Prod.ext hmajor hminor
  unfold buildOf
  rw [htarget, himplementation, hpair, hvalue]

theorem traits_of_buildOf (h : buildOf host env = buildOf host' env') :
    buildTraits host env = buildTraits host' env' := by
  unfold buildOf at h
  simp only [Build.mk.injEq] at h
  obtain ⟨htarget, himplementation, hrelease, hflags⟩ := h
  unfold buildTraits
  rw [htarget, himplementation, hrelease, hflags]

theorem input_eq_iff (h : WithoutZero host env) (h' : WithoutZero host' env') :
    digestInput host env = digestInput host' env' ↔ buildOf host env = buildOf host' env' := by
  constructor
  · intro he
    exact buildOf_of_traits (traits_of_input h h' he)
  · intro he
    unfold digestInput
    rw [traits_of_buildOf he]

/-! ## Versions -/

/-- The digest inputs of the builds differ, but their digests begin alike. -/
def BuildDigestsMeet (host : Host) (env : Environment) (host' : Host) (env' : Environment) : Prop :=
  digestInput host env ≠ digestInput host' env' ∧
    buildDigest (buildTraits host env) = buildDigest (buildTraits host' env')

theorem length_buildDigest (traits : List String) : (buildDigest traits).toList.length = buildDigestLength := by
  unfold buildDigest
  rw [String.toList_ofList, List.length_take, length_textDigest]
  rfl

theorem toList_buildVersionOf (host : Host) (env : Environment) : (buildVersionOf host env).toList =
    (release.toList ++ '-' :: (targetTriple host).toList) ++ '-' :: (buildDigest (buildTraits host env)).toList := by
  unfold buildVersionOf
  show (release ++ "-" ++ targetTriple host ++ "-" ++ buildDigest (buildTraits host env)).toList = _
  simp

theorem buildVersionOf_eq_iff : buildVersionOf host env = buildVersionOf host' env' ↔
    targetTriple host = targetTriple host' ∧
      buildDigest (buildTraits host env) = buildDigest (buildTraits host' env') := by
  constructor
  · intro h
    have hl := String.toList_inj.2 h
    rw [toList_buildVersionOf, toList_buildVersionOf] at hl
    -- the digests are of one length, so the rest of the versions falls apart alike
    obtain ⟨hfront, hdigest⟩ := List.append_inj' hl (by simp [length_buildDigest])
    simp only [List.cons.injEq, List.append_cancel_left_eq, String.toList_inj, true_and] at hfront hdigest
    exact ⟨hfront, hdigest⟩
  · rintro ⟨ht, hd⟩
    unfold buildVersionOf
    rw [ht, hd]

/-- Two builds have one version exactly if they are the same build, or of one target with digests that meet. -/
theorem buildVersionOf_eq (h : WithoutZero host env) (h' : WithoutZero host' env') :
    buildVersionOf host env = buildVersionOf host' env' ↔ buildOf host env = buildOf host' env' ∨
      targetTriple host = targetTriple host' ∧ BuildDigestsMeet host env host' env' := by
  rw [buildVersionOf_eq_iff]
  unfold BuildDigestsMeet
  by_cases hb : buildOf host env = buildOf host' env'
  · have htarget : targetTriple host = targetTriple host' := congrArg Build.target hb
    have hdigest : buildDigest (buildTraits host env) = buildDigest (buildTraits host' env') := by
      rw [traits_of_buildOf hb]
    simp [hb, htarget, hdigest]
  · have hinput : digestInput host env ≠ digestInput host' env' := fun he => hb ((input_eq_iff h h').1 he)
    simp [hb, hinput]

/-! ## Segments of builds -/

/-- A version of a build begins with a figure and ends with one of its digest. -/
theorem strip_buildVersionOf (host : Host) (env : Environment) :
    strip (buildVersionOf host env).toList = (buildVersionOf host env).toList := by
  rw [toList_buildVersionOf]
  apply strip_of_ends
  · intro c hc
    have hfirst : c = '0' := (Option.some.inj hc).symm
    rw [hfirst]
    decide
  · intro c hc
    have hlength := length_buildDigest (buildTraits host env)
    have hdigest : ∀ d ∈ (buildDigest (buildTraits host env)).toList, isSegmentChar d = true := by
      intro d hd
      unfold buildDigest at hd
      rw [String.toList_ofList] at hd
      exact (mem_textDigest (List.mem_of_mem_take hd)).1
    generalize (buildDigest (buildTraits host env)).toList = digest at hlength hdigest hc
    have hne : digest ≠ [] := by
      intro he
      rw [he] at hlength
      exact absurd hlength (by decide)
    rw [List.getLast?_append, List.getLast?_cons_of_ne_nil hne, List.getLast?_eq_some_getLast hne] at hc
    obtain rfl := Option.some.inj hc
    exact isBlank_of_isSegmentChar (hdigest _ (List.getLast_mem hne))

theorem versionSegment?_buildVersionOf (host : Host) (env : Environment) :
    versionSegment? (buildVersionOf host env) ≠ none := by
  have hfirst : '0' ∈ (buildVersionOf host env).toList := by
    rw [toList_buildVersionOf]
    exact List.mem_cons_self
  rw [Ne, versionSegment?_eq_none_iff]
  exact fun hblank => absurd (hblank '0' hfirst) (by decide)

end Whereabouts

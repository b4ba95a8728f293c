import Whereabouts.Proofs.BuildVersions
import Whereabouts.Proofs.Session.CacheLayout

/-!
# Caches of different builds

Without a version a program asks for the caches of its own build. Programs of different builds have
different caches below one root, as far as the digests that tell them apart do (`builds_have_own_caches`).
-/

namespace Whereabouts

section
variable {host : Host} {start s : State} {root p : Path}

theorem returns_buildVersion (hf : Faithful host s) :
    Returns host s .buildVersion (.text (buildVersionOf host s.env)) := by
  have hbuild : BuildAt host (buildVersionOf host s.env) s := rfl
  exact (serves_buildVersion.yields hf hbuild).returned .text

/-- A path that the calls return without a version lies in the cache of the running build. -/
theorem ReturnsCache.within_own (h : ReturnsCache host s none p) (he : Extends start s) (hf : Faithful host s)
    (hroot : Returns host s .cacheRoot (.path root)) :
    ∃ segment, versionSegment? (buildVersionOf host start.env) = some segment ∧ p.IsWithin (root.child segment) := by
  obtain ⟨own, segment, hnamed, hp⟩ := h.within he hf
  have hr : CacheRootAt host root start := he.cacheRootAt_iff.1 (cacheRootAt_of_returns hf hroot)
  obtain rfl : own = root := Except.ok.inj (hnamed.root.symm.trans hr)
  exact ⟨segment, hnamed.segment, hp⟩

end

/-- Two programs of one build have one version. Of two different builds the versions differ unless the digests of
the builds meet, and below one root the caches and binary caches differ unless these digests or those of the
versions meet. -/
theorem builds_have_own_caches {host host' : Host} {env env' : Environment} {plan plan' : List Planned}
    {dir dir' : String} {s u : State} (hz : WithoutZero host env) (hz' : WithoutZero host' env')
    (hs : Reaches host (.start env plan dir) s) (hu : Reaches host' (.start env' plan' dir') u) :
    ∃ v w, Returns host s .buildVersion (.text v) ∧ Returns host' u .buildVersion (.text w) ∧
      (buildOf host env = buildOf host' env' → v = w) ∧
      (buildOf host env ≠ buildOf host' env' →
        (v ≠ w ∨ BuildDigestsMeet host env host' env') ∧
        ∀ root p q, Returns host s .cacheRoot (.path root) → Returns host' u .cacheRoot (.path root) →
          ReturnsCache host s none p → ReturnsCache host' u none q →
          p ≠ q ∨ BuildDigestsMeet host env host' env' ∨ DigestsMeet v.toList w.toList) := by
  obtain ⟨hse, hsf⟩ := hs.faithful (faithful_of_kept_nothing rfl)
  obtain ⟨hue, huf⟩ := hu.faithful (faithful_of_kept_nothing rfl)
  have hv := returns_buildVersion hsf
  have hw := returns_buildVersion huf
  rw [hse.env] at hv
  rw [hue.env] at hw
  refine ⟨_, _, hv, hw, ?_, ?_⟩
  · intro hb
    exact (buildVersionOf_eq hz hz').2 (.inl hb)
  · intro hb
    have hversions : buildVersionOf host env = buildVersionOf host' env' → BuildDigestsMeet host env host' env' := by
      intro he
      rcases (buildVersionOf_eq hz hz').1 he with h | ⟨-, h⟩
      · exact absurd h hb
      · exact h
    constructor
    · by_cases he : buildVersionOf host env = buildVersionOf host' env'
      · exact .inr (hversions he)
      · exact .inl he
    · intro root p q hroot hroot' hp hq
      by_cases hpq : p = q
      · right
        subst hpq
        obtain ⟨a, ha, hpa⟩ := hp.within_own hse hsf hroot
        obtain ⟨b, hb, hpb⟩ := hq.within_own hue huf hroot'
        obtain rfl := hpa.child_unique hpb
        have hmeet := eq_or_meet_of_segment ha hb
        rw [strip_buildVersionOf, strip_buildVersionOf] at hmeet
        rcases hmeet with he | hmeet
        · exact .inl (hversions (String.toList_inj.1 he))
        · exact .inr hmeet
      · exact .inl hpq

/-- With other flags the build has another version. -/
theorem builds_have_own_caches_flags :
    let env : Environment := ⟨[("JANK_CACHE_DIR", "/c")]⟩
    let flagged : Environment := ⟨[("JANK_BUILD_FLAGS", "-O2"), ("JANK_CACHE_DIR", "/c")]⟩
    ∃ v w, Returns plainHost (.start env [] "/") .buildVersion (.text v) ∧
      Returns plainHost (.start flagged [] "/") .buildVersion (.text w) ∧ v ≠ w := by
  intro env flagged
  have hz : WithoutZero plainHost env := by
    refine ⟨by decide, by decide, fun flags h => ?_⟩
    exact absurd h (by simp [env, Environment.value?, Environment.get?])
  have hz' : WithoutZero plainHost flagged := by
    refine ⟨by decide, by decide, fun flags h => ?_⟩
    obtain rfl : "-O2" = flags := Option.some.inj h
    decide
  have hbuilds : buildOf plainHost env ≠ buildOf plainHost flagged := by decide +kernel
  have hdigests : buildDigest (buildTraits plainHost env) ≠ buildDigest (buildTraits plainHost flagged) := by
    decide +kernel
  obtain ⟨v, w, hv, hw, -, hdiffer⟩ :=
    @builds_have_own_caches plainHost plainHost env flagged [] [] "/" "/" _ _ hz hz' .refl .refl
  rcases (hdiffer hbuilds).1 with h | ⟨-, hmeet⟩
  · exact ⟨v, w, hv, hw, h⟩
  · exact absurd hmeet hdigests

end Whereabouts

import Whereabouts.Proofs.Session.CacheLayout
import Whereabouts.Proofs.Session.Resolvers

/-!
# Paths in normal form

A raw value means an absolute path of proper names that means itself wherever it is given as a value again. The
directories that a session keeps have such paths, for they come from raw values and from names below them
(`invariant_normal`); and what a call returns is what is kept after it.
-/

namespace Whereabouts

variable {host : Host} {env : Environment} {here : Option Location} {s : State} {p : Path} {segment : String}

/-! ## Raw values -/

/-- The path is absolute and in normal form. -/
structure Path.IsResolved (p : Path) : Prop where
  absolute : p.isAbsolute = true
  names : ∀ n ∈ p.names, n ≠ "" ∧ n ≠ "." ∧ n ≠ ".." ∧ '/' ∉ n.toList
  /-- The names follow one slash, or the two with which a text may begin. -/
  text : ∃ slashes, (slashes = "/" ∨ slashes = "//") ∧ p.toString = slashes ++ join '/' p.names.reverse
  again : ∀ host env here, absolutePath host env here p.toString = .ok p

theorem text_of_isAbsolute (h : p.isAbsolute = true) :
    ∃ slashes, (slashes = "/" ∨ slashes = "//") ∧ p.toString = slashes ++ join '/' p.names.reverse := by
  obtain ⟨anchor, names⟩ := p
  cases anchor with
  | here => cases h
  | root => exact ⟨"/", .inl rfl, rfl⟩
  | doubleRoot => exact ⟨"//", .inr rfl, rfl⟩

/-- No tilde and no working directory comes into it again. -/
theorem absolutePath_text (h : p.isNormal = true) : absolutePath host env here p.toString = .ok p := by
  have hslash := beginsWith_of_isAbsolute (Path.isNormal_iff.1 h).1
  unfold absolutePath
  rw [expandTilde_of_slash hslash]
  exact fromHere_text h

theorem isResolved_iff_isNormal : p.IsResolved ↔ p.isNormal = true := by
  constructor
  · intro h
    refine Path.isNormal_iff.2 ⟨h.absolute, fun n hm => ?_⟩
    obtain ⟨hne, hdot, hup, hslash⟩ := h.names n hm
    exact ⟨⟨hne, hslash⟩, hdot, hup⟩
  · intro h
    obtain ⟨ha, hn⟩ := Path.isNormal_iff.1 h
    refine ⟨ha, fun n hm => ?_, text_of_isAbsolute ha, fun _ _ _ => absolutePath_text h⟩
    obtain ⟨⟨hne, hslash⟩, hdot, hup⟩ := hn n hm
    exact ⟨hne, hdot, hup, hslash⟩

theorem absolutePath_of_here (hh : here ≠ none) (raw : String) : ∃ p, absolutePath host env here raw = .ok p := by
  unfold absolutePath fromHere
  split
  · exact ⟨_, rfl⟩
  · cases here with
    | none => exact absurd rfl hh
    | some loc => exact ⟨_, rfl⟩

theorem isNormal_homePath {source : HomeSource} (hs : s.IsPlaced) (h : homePath host s.env s.here = .ok (p, source)) :
    p.isNormal = true := by
  unfold homePath at h
  split at h
  · cases h
  · obtain ⟨q, hq, he⟩ := exists_of_map_ok h
    cases he
    exact isNormal_fromHere hs hq

/-! ## Kept directories -/

def NormalEntries (entries : List (String × Path)) : Prop :=
  ∀ segment p, Path.isName segment = true → entries.lookup segment = some p → p.isNormal = true

/-- The directories of the toolchain that are kept have paths in normal form. -/
structure Kept.IsNormal (k : Kept) : Prop where
  homeDir : ∀ p, k.homeDir = some p → p.isNormal = true
  configDir : ∀ p, k.configDir = some p → p.isNormal = true
  cacheRoot : ∀ p, k.cacheRoot = some p → p.isNormal = true
  cacheDirs : NormalEntries k.cacheDirs
  binaryDirs : NormalEntries k.binaryDirs

structure State.IsNormal (s : State) : Prop where
  placed : s.IsPlaced
  kept : s.kept.IsNormal

theorem NormalEntries.cons {entries : List (String × Path)} (h : NormalEntries entries)
    (hp : Path.isName segment = true → p.isNormal = true) : NormalEntries ((segment, p) :: entries) := by
  intro key q hkey hq
  by_cases he : key = segment
  · subst he
    rw [List.lookup_cons_self] at hq
    cases hq
    exact hp hkey
  · have hne : (key == segment) = false := beq_eq_false_iff_ne.2 he
    rw [List.lookup_cons, hne] at hq
    exact h key q hkey hq

theorem Kept.IsNormal.of_stays {k k' : Kept} (hk : k.Stays k') (h : k'.IsNormal) : k.IsNormal where
  homeDir p hp := h.homeDir p (hk.homeDir p hp)
  configDir p hp := h.configDir p (hk.configDir p hp)
  cacheRoot p hp := h.cacheRoot p (hk.cacheRoot p hp)
  cacheDirs key p hkey hp := h.cacheDirs key p hkey (hk.cacheDirs key p hp)
  binaryDirs key p hkey hp := h.binaryDirs key p hkey (hk.binaryDirs key p hp)

theorem isNormal_cacheRootIn (hs : s.IsNormal) (h : cacheRootIn host s = .ok p) : p.isNormal = true := by
  rcases cacheRootIn_ok h with hk | hp
  · exact hs.kept.cacheRoot p hk
  · exact isNormal_settledPath hs.placed hp

theorem isNormal_below {root : Path} (hr : root.isNormal = true) (hn : Path.isName segment = true) :
    (root ++ Path.ofString segment).isNormal = true := by
  rw [Path.append_of_isName hn]
  exact Path.isNormal_child_of_isName hr hn

theorem isNormal_segmentDirIn (hs : s.IsNormal) (hn : Path.isName segment = true)
    (h : (segmentDirIn host s segment).1 = .ok p) : p.isNormal = true := by
  rcases segmentDirIn_ok h with hk | ⟨-, root, hr, rfl, -⟩
  · exact hs.kept.cacheDirs segment p hn hk
  · exact isNormal_below (isNormal_cacheRootIn hs hr) hn

/-- A lookup in such a state stores no other path. -/
theorem Kept.IsNormal.store {α : Type} {slot : Slot α} {a : α} {k : Kept} (hk : k.IsNormal) (hs : s.IsNormal)
    (h : slot.StoresFrom host s a) : (slot.store k a).IsNormal := by
  cases h with
  | homeDir h => exact { hk with homeDir := fun _ hq => Option.some.inj hq ▸ isNormal_homePath hs.placed h }
  | configDir h => exact { hk with configDir := fun _ hq => Option.some.inj hq ▸ isNormal_settledPath hs.placed h }
  | cacheRoot h => exact { hk with cacheRoot := fun _ hq => Option.some.inj hq ▸ isNormal_settledPath hs.placed h }
  | cacheDir h =>
    have hroot := isNormal_cacheRootIn hs h
    exact { hk with cacheDirs := hk.cacheDirs.cons fun hn => isNormal_below hroot hn }
  | binaryDir h =>
    refine { hk with binaryDirs := hk.binaryDirs.cons fun hn => ?_ }
    exact Path.isNormal_child_of_isName (isNormal_segmentDirIn hs hn h) (by decide)
  | resourceDir | programPath | programDir | buildVersion | sdkPath => exact { hk with }

theorem invariant_normal (host : Host) : Invariant host State.IsNormal where
  same h _ hk _ hp := ⟨hp h.placed, hk ▸ h.kept⟩
  found h _ _ := ⟨h.placed, h.kept⟩
  stored _ _ _ _ h₀ _ h hb := ⟨h.placed, h.kept.store h₀ hb⟩

theorem isNormal_start (env : Environment) (plan : List Planned) (dir : String) :
    (State.start env plan dir).IsNormal where
  placed := placed_start env plan dir
  kept := {
    homeDir := nofun
    configDir := nofun
    cacheRoot := nofun
    cacheDirs := fun _ _ _ h => by cases h
    binaryDirs := fun _ _ _ h => by cases h }

theorem isNormal_cleared {st : Step} (h : s.IsNormal) :
    State.IsNormal { s with env := st.envAfter s.env, kept := st.cleared s.kept } :=
  ⟨h.placed, h.kept.of_stays (st.stays_cleared s.kept)⟩

/-! ## Calls -/

theorem run_of_returns {c : Call} {f : Action Path} (hc : c.action host = Result.path <$> f)
    (h : Returns host s c (.path p)) : f.run s = (.ok p, ((c.action host).run s).2) := by
  unfold Returns at h
  rw [hc, Action.run_map] at h ⊢
  obtain ⟨q, hq, he⟩ := exists_of_map_ok h
  cases he
  exact Prod.ext hq rfl

/-- A lookup by a version that ends well is one by a proper name. -/
theorem run_versioned_ok {version : Option String} {lookup : String → Action Path} {s' : State}
    (h : Action.run (versionSegment host version >>= lookup) s = (.ok p, s')) :
    ∃ segment u, Path.isName segment = true ∧ (lookup segment).run u = (.ok p, s') := by
  obtain ⟨b, hrun⟩ := run_versionSegment host version s
  rw [Action.run_bind, hrun] at h
  cases hs : segmentIn host s version with
  | none =>
    rw [hs] at h
    cases h
  | some segment =>
    rw [hs] at h
    exact ⟨segment, _, isName_of_versionSegment? hs, h⟩

theorem isNormal_of_returns {c : Call} (hs : s.IsNormal) (hc : c.isForDirectory = true ∨ c = .cacheRoot)
    (h : Returns host s c (.path p)) : p.isNormal = true := by
  have hafter : ((c.action host).run s).2.kept.IsNormal := (holds_call (invariant_normal host) c hs).kept
  cases c with
  | homeDir => exact hafter.homeDir p (kept_of_once Slot.lawful_homeDir (run_of_returns rfl h))
  | configDir => exact hafter.configDir p (kept_of_once Slot.lawful_configDir (run_of_returns rfl h))
  | cacheRoot => exact hafter.cacheRoot p (kept_of_once Slot.lawful_cacheRoot (run_of_returns rfl h))
  | cacheDir version =>
    obtain ⟨segment, u, hn, hrun⟩ := run_versioned_ok (run_of_returns rfl h)
    exact hafter.cacheDirs segment p hn (kept_of_once (Slot.lawful_cacheDir segment) hrun)
  | binaryCacheDir version =>
    obtain ⟨segment, u, hn, hrun⟩ := run_versioned_ok (run_of_returns rfl h)
    exact hafter.binaryDirs segment p hn (kept_of_once (Slot.lawful_binaryDir segment) hrun)
  | _ => rcases hc with hc | hc <;> cases hc

/-- In every state that a session reaches a raw value means a path in normal form, and it means one unless the
working directory is gone; and every call of a session for a directory of the toolchain, or for the root of the
caches, returns a path in normal form if it returns one. Every absolute path of proper names is in normal form. -/
theorem resolved_paths_are_normal {plan : List Planned} {dir : String} {steps : List Step} :
    let start := State.start env plan dir
    let s := (Session.run host start steps).2
    (∀ raw, (s.here ≠ none → ∃ p, absolutePath host s.env s.here raw = .ok p) ∧
      ∀ p, absolutePath host s.env s.here raw = .ok p → p.IsResolved) ∧
    (∀ c u, (c, u) ∈ Session.allTurns host start steps → c.isForDirectory = true ∨ c = .cacheRoot →
      ∀ p, Returns host u c (.path p) → p.IsResolved) ∧
    ∀ p : Path, p.IsResolved ↔ p.isNormal = true := by
  intro start s
  have hstart : start.IsNormal := isNormal_start env plan dir
  have hs : s.IsNormal := holds_run (invariant_normal host) (fun _ _ _ => isNormal_cleared) hstart
  refine ⟨fun raw => ⟨fun hh => absolutePath_of_here hh raw, fun p hp => ?_⟩, fun c u hm hc p hp => ?_,
    fun _ => isResolved_iff_isNormal⟩
  · exact isResolved_iff_isNormal.2 (isNormal_fromHere hs.placed hp)
  · have hu : u.IsNormal := holds_allTurns (invariant_normal host) (fun _ _ _ => isNormal_cleared) hstart hm
    exact isResolved_iff_isNormal.2 (isNormal_of_returns hu hc hp)

/-- Caches below the home of a user, which begins with two slashes. -/
theorem resolved_paths_are_normal_tilde :
    let host := { plainHost with accounts := some { named := [("me", "//srv/me//")] } }
    let env : Environment := ⟨[("JANK_CACHE_DIR", "~me/..//x/.")]⟩
    let start := State.start env [] "/"
    let c := Call.binaryCacheDir (some "1.0")
    let root : Path := ⟨.doubleRoot, ["x", "srv"]⟩
    let binaries : Path := ⟨.doubleRoot, ["bin", "1.0", "x", "srv"]⟩
    absolutePath host start.env start.here "~me/..//x/." = .ok root ∧ root.IsResolved ∧
      Returns host { start with log := [] } c (.path binaries) ∧ binaries.IsResolved := by
  intro host env start c root binaries
  have hroot : absolutePath host start.env start.here "~me/..//x/." = .ok root := by decide +kernel
  have hbinaries : Returns host { start with log := [] } c (.path binaries) := by decide +kernel
  obtain ⟨hraw, -⟩ := @resolved_paths_are_normal host env [] "/" []
  obtain ⟨-, hcalls, -⟩ := @resolved_paths_are_normal host env [] "/" [.call c]
  have hturn : (c, { start with log := [] }) ∈ Session.allTurns host start [.call c] := List.mem_cons_self
  exact ⟨hroot, (hraw _).2 root hroot, hbinaries, hcalls c _ hturn (.inl rfl) binaries hbinaries⟩

end Whereabouts

import Whereabouts.Proofs.Home
import Whereabouts.Proofs.Segments
import Whereabouts.Proofs.Session.Validity

/-!
# How caches lie

The cache of a version is named by the segment of the version and lies right below the root of the
caches, with the binary cache in it. Whatever the version, no path leaves the root, and the caches of
versions with different segments lie apart (`caches_lie_apart`).
-/

namespace Whereabouts

/-! ## Paths inside others -/

namespace Path

/-- The first path is the second or lies somewhere below it. -/
def IsWithin (p q : Path) : Prop := p.anchor = q.anchor ∧ q.names <:+ p.names

variable {p q r : Path} {a b name : String}

theorem IsWithin.refl (p : Path) : p.IsWithin p := ⟨rfl, List.suffix_refl _⟩

theorem IsWithin.trans (h : p.IsWithin q) (h' : q.IsWithin r) : p.IsWithin r :=
  ⟨h.1.trans h'.1, h'.2.trans h.2⟩

theorem isWithin_child (p : Path) (name : String) : (p.child name).IsWithin p :=
  ⟨rfl, List.suffix_cons name p.names⟩

@[simp] theorem parent_child (p : Path) (name : String) : (p.child name).parent = p := rfl

/-- A path lies in one child of a directory only. -/
theorem IsWithin.child_unique (ha : p.IsWithin (r.child a)) (hb : p.IsWithin (r.child b)) : a = b := by
  have hlength : (r.child a).names.length = (r.child b).names.length := rfl
  have hsuffix : (r.child a).names <:+ (r.child b).names :=
    List.suffix_of_suffix_length_le ha.2 hb.2 (Nat.le_of_eq hlength)
  exact (List.cons.inj (hsuffix.eq_of_length hlength)).1

theorem append_of_isName (h : isName name = true) : p ++ ofString name = p.child name := by
  rw [ofString_of_isName h, FileTree.append_of_relative rfl]
  rfl

theorem isNormal_child_of_isName (hp : p.isNormal = true) (h : isName name = true) :
    (p.child name).isNormal = true := by
  unfold isNormal at hp ⊢
  rw [Bool.and_eq_true] at hp ⊢
  exact ⟨hp.1, by simp [child, h, hp.2]⟩

end Path

/-! ## Calls that return -/

section
variable {host : Host} {start s u : State} {version w : Option String} {root p q : Path} {segment a b : String}

/-- The call returns the result if it is made in the state. -/
def Returns (host : Host) (s : State) (c : Call) (r : Result) : Prop := ((c.action host).run s).1 = .ok r

theorem toOption_eq_some_iff {ε α : Type} {x : Except ε α} {y : α} : x.toOption = some y ↔ x = .ok y := by
  cases x <;> simp [Except.toOption]

instance (c : Call) (r : Result) : Decidable (Returns host s c r) := decidable_of_iff _ toOption_eq_some_iff

theorem Yields.returned {α : Type} {f : Action α} {a : α} (k : α → Result) (h : Yields true f s a) :
    (Action.run (k <$> f) s).1 = .ok (k a) := by
  rw [Action.run_map, h.result]
  rfl

theorem Agree.returned {α : Type} {f : Action α} {Q : α → State → Prop} {k : α → Result} {r : Result}
    (h : Agree (Twins host true) f f s s Q) (hr : (Action.run (k <$> f) s).1 = .ok r) :
    ∃ a, k a = r ∧ Q a (Action.run (k <$> f) s).2 ∧ Extends s (Action.run (k <$> f) s).2 := by
  rw [Action.run_map] at hr ⊢
  obtain ⟨a, ha, he⟩ := exists_of_map_ok hr
  exact ⟨a, he, h.holds a ha, h.grown⟩

theorem returns_cacheRoot (hf : Faithful host s) (h : CacheRootAt host root s) :
    Returns host s .cacheRoot (.path root) :=
  (serves_cacheRoot.yields hf h).returned .path

theorem returns_versionSegment (hf : Faithful host s) (h : SegmentAt host version segment s) :
    Returns host s (.versionSegment version) (.text segment) :=
  (yields_versionSegment hf h).returned .text

theorem returns_cacheDir (hf : Faithful host s) (h : CacheOf host version p s) :
    Returns host s (.cacheDir version) (.path p) :=
  (yields_cacheDir hf h).returned .path

theorem segmentAt_of_returns (hf : Faithful host s) (h : Returns host s (.versionSegment version) (.text segment)) :
    SegmentAt host version segment s := by
  obtain ⟨a, he, hs, hgrown⟩ := (agree_versionSegment (.refl hf) version).returned h
  cases he
  exact hgrown.segmentAt_iff.1 hs

theorem cacheRootAt_of_returns (hf : Faithful host s) (h : Returns host s .cacheRoot (.path root)) :
    CacheRootAt host root s := by
  obtain ⟨p, he, hp, hgrown⟩ := (agree_cacheRoot (.refl hf)).returned h
  cases he
  exact hgrown.cacheRootAt_iff.1 hp

theorem cacheOf_of_returns (hf : Faithful host s) (h : Returns host s (.cacheDir version) (.path p)) :
    CacheOf host version p (((Call.cacheDir version).action host).run s).2 := by
  obtain ⟨q, he, hq, -⟩ := (agree_cacheDir (.refl hf) version).returned h
  cases he
  exact hq

theorem cacheOf_of_returns_binaries (hf : Faithful host s)
    (h : Returns host s (.binaryCacheDir version) (.path q)) :
    ∃ p, CacheOf host version p (((Call.binaryCacheDir version).action host).run s).2 ∧ q = p.child "bin" := by
  obtain ⟨path, he, ⟨segment, hs, p, hp, hpath, -⟩, -⟩ := (agree_binaryCacheDir (.refl hf) version).returned h
  cases he
  exact ⟨p, ⟨segment, hs, hp⟩, hpath⟩

/-! ## Roots of caches -/

theorem isNormal_settledPath {env : Environment} {here : Option Location} {var : String} {dir : UserDir}
    (hh : ∀ n ∈ here.getD [], n ≠ "" ∧ n ≠ "." ∧ '/' ∉ n.toList) (h : settledPath host var dir env here = .ok p) :
    p.isNormal = true := by
  rcases @settledPath_cases host env here var dir with ⟨raw, -, he⟩ | ⟨-, ⟨q, -, he⟩ | ⟨f, -, he⟩⟩
  · exact isNormal_fromHere hh (he.symm.trans h)
  · exact isNormal_fromHere hh (he.symm.trans h)
  · cases he.symm.trans h

/-- The cache of a version as the first state lets it be told. -/
structure NamedCache (host : Host) (start : State) (version : Option String) (root : Path) (segment : String) :
    Prop where
  root : CacheRootAt host root start
  segment : SegmentAt host version segment start

theorem NamedCache.isName (h : NamedCache host start version root segment) : Path.isName segment = true :=
  isName_of_versionSegment? h.segment

theorem NamedCache.path (h : NamedCache host start version root segment) :
    root ++ Path.ofString segment = root.child segment :=
  Path.append_of_isName h.isName

theorem NamedCache.same_root (h : NamedCache host start version root segment) {other : Path}
    (h' : NamedCache host start w other b) : root = other :=
  Except.ok.inj (h.root.symm.trans h'.root)

theorem namedCache_of_cacheOf (he : Extends start s) (h : CacheOf host version p s) :
    ∃ root segment, NamedCache host start version root segment ∧ p = root.child segment := by
  obtain ⟨segment, hs, root, hr, rfl, -⟩ := h
  have hnamed : NamedCache host start version root segment := ⟨he.cacheRootAt_iff.1 hr, he.segmentAt_iff.1 hs⟩
  exact ⟨root, segment, hnamed, hnamed.path⟩

theorem namedCache_of_returns (he : Extends start s) (hf : Faithful host s)
    (h : Returns host s (.cacheDir version) (.path p)) :
    ∃ root segment, NamedCache host start version root segment ∧ p = root.child segment :=
  namedCache_of_cacheOf (he.trans (hf.call _).1) (cacheOf_of_returns hf h)

/-! ## Caches of sessions -/

/-- The calls for the root and for the segment, made in the state, give the two parts of the path. -/
def LiesBelowRoot (host : Host) (s : State) (version : Option String) (p : Path) : Prop :=
  ∃ root segment, Returns host s .cacheRoot (.path root) ∧ Returns host s (.versionSegment version) (.text segment) ∧
    p = root ++ Path.ofString segment ∧ p.parent = root ∧ p.isNormal = true

/-- A call for the cache or for the binary cache of the version returns the path. -/
def ReturnsCache (host : Host) (s : State) (version : Option String) (p : Path) : Prop :=
  Returns host s (.cacheDir version) (.path p) ∨ Returns host s (.binaryCacheDir version) (.path p)

theorem NamedCache.liesBelowRoot (h : NamedCache host start version root segment) (hp : start.IsPlaced)
    (he : Extends start u) (hf : Faithful host u) : LiesBelowRoot host u version (root.child segment) := by
  have hnormal : root.isNormal = true := isNormal_settledPath hp h.root
  refine ⟨root, segment, ?_, ?_, h.path.symm, rfl, Path.isNormal_child_of_isName hnormal h.isName⟩
  · exact returns_cacheRoot hf (he.cacheRootAt h.root)
  · exact returns_versionSegment hf (he.segmentAt h.segment)

theorem ReturnsCache.within (h : ReturnsCache host s version p) (he : Extends start s) (hf : Faithful host s) :
    ∃ root segment, NamedCache host start version root segment ∧ p.IsWithin (root.child segment) := by
  rcases h with h | h
  · obtain ⟨root, segment, hnamed, rfl⟩ := namedCache_of_returns he hf h
    exact ⟨root, segment, hnamed, .refl _⟩
  · obtain ⟨dir, hdir, rfl⟩ := cacheOf_of_returns_binaries hf h
    obtain ⟨root, segment, hnamed, rfl⟩ := namedCache_of_cacheOf (he.trans (hf.call _).1) hdir
    exact ⟨root, segment, hnamed, Path.isWithin_child _ _⟩

end

/-- In any states of a session, the cache of a version is what the root and the segment say, the binary
cache lies in it, and both lie apart from the caches of every other segment. A cache in which the binary
cache was found is found again whatever calls and clearings come in between. -/
theorem caches_lie_apart {host : Host} {env : Environment} {plan : List Planned} {dir : String} {s u : State}
    {v : Option String} (hs : Reaches host (.start env plan dir) s) (hu : Reaches host (.start env plan dir) u) :
    (∀ p, Returns host s (.cacheDir v) (.path p) → LiesBelowRoot host u v p) ∧
    (∀ q, Returns host s (.binaryCacheDir v) (.path q) →
      LiesBelowRoot host u v q.parent ∧ q = q.parent ++ Path.ofString "bin" ∧
      ∀ later, Reaches host (((Call.binaryCacheDir v).action host).run s).2 later →
        Returns host later (.cacheDir v) (.path q.parent)) ∧
    ∀ w a b p q, Returns host s (.versionSegment v) (.text a) → Returns host u (.versionSegment w) (.text b) →
      a ≠ b → ReturnsCache host s v p → ReturnsCache host u w q → ¬p.IsWithin q ∧ ¬q.IsWithin p := by
  have hplaced : (State.start env plan dir).IsPlaced := placed_start env plan dir
  have hstart : Faithful host (.start env plan dir) := faithful_of_kept_nothing rfl
  obtain ⟨hse, hsf⟩ := hs.faithful hstart
  obtain ⟨hue, huf⟩ := hu.faithful hstart
  refine ⟨fun p hp => ?_, fun q hq => ?_, fun w a b p q ha hb hab hp hq => ?_⟩
  · obtain ⟨root, segment, hnamed, rfl⟩ := namedCache_of_returns hse hsf hp
    exact hnamed.liesBelowRoot hplaced hue huf
  · obtain ⟨hgrown, hf⟩ := hsf.call (.binaryCacheDir v)
    obtain ⟨dir, hdir, rfl⟩ := cacheOf_of_returns_binaries hsf hq
    obtain ⟨root, segment, hnamed, hpath⟩ := namedCache_of_cacheOf (hse.trans hgrown) hdir
    refine ⟨?_, ?_, fun later hl => ?_⟩
    · rw [Path.parent_child, hpath]
      exact hnamed.liesBelowRoot hplaced hue huf
    · rw [Path.append_of_isName (by decide), Path.parent_child]
    · -- the directory above the binary cache was found by this call, and stays usable as the tree grows
      obtain ⟨hlater, hlf⟩ := hl.faithful hf
      exact returns_cacheDir hlf (hlater.cacheOf hdir)
  · have hav := hse.segmentAt_iff.1 (segmentAt_of_returns hsf ha)
    have hbw := hue.segmentAt_iff.1 (segmentAt_of_returns huf hb)
    -- each path lies below the root by its own segment, and no path lies in two children of one directory
    obtain ⟨root, a', hna, hpa⟩ := hp.within hse hsf
    obtain ⟨other, b', hnb, hqb⟩ := hq.within hue huf
    obtain rfl := hna.same_root hnb
    obtain rfl : a = a' := Option.some.inj (hav.symm.trans hna.segment)
    obtain rfl : b = b' := Option.some.inj (hbw.symm.trans hnb.segment)
    exact ⟨fun h => hab (hpa.child_unique (h.trans hqb)), fun h => hab ((h.trans hpa).child_unique hqb)⟩

/-- A version that points upwards: its cache lies below the root all the same. -/
theorem caches_lie_apart_upwards :
    let s := State.start ⟨[("JANK_CACHE_DIR", "/c")]⟩ [] "/"
    let c := Call.binaryCacheDir (some "../x")
    let later := (Session.step plainHost ((c.action plainHost).run s).2 .clearAll).2
    let dir : Path := ⟨.root, ["..%2fx+d6b96a97d147daaae49eb87a5ca7bfbc", "c"]⟩
    Returns plainHost s c (.path (dir.child "bin")) ∧ LiesBelowRoot plainHost s (some "../x") dir ∧
      Returns plainHost later (.cacheDir (some "../x")) (.path dir) := by
  intro s c later dir
  have hq : Returns plainHost s c (.path (dir.child "bin")) := by decide +kernel
  have hlater : Reaches plainHost ((c.action plainHost).run s).2 later := .step .refl rfl
  obtain ⟨hbelow, -, hfound⟩ := (caches_lie_apart .refl .refl).2.1 _ hq
  exact ⟨hq, hbelow, hfound later hlater⟩

end Whereabouts

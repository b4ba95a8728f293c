import Whereabouts.Proofs.Session.Faithful

/-!
# What lookups of directories find

Each lookup of a directory as a function of the state that it is made in: what is kept, or else a private
directory at the path that the environment and the platform give. `finds_homeDir` and its siblings say
that the lookups compute these functions and change nothing else but what is kept and logged.
-/

namespace Whereabouts

open FileTree

variable {host : Host} {s : State}

/-- The value and the tree that a lookup leaves. -/
abbrev Finding := Except Failure Path × FileTree

/-! ## Found directories -/

/-- A private directory at a path, if the path is known. -/
def ensured (t : FileTree) (here : Option Location) : Except Failure Path → Finding
  | .error f => (.error f, t)
  | .ok p => ((ensurePrivate t here p).result.map fun _ => p, (ensurePrivate t here p).tree)

theorem ensured_ok (t : FileTree) (here : Option Location) (p : Path) :
    ensured t here (.ok p) = ((ensurePrivate t here p).result.map fun _ => p, (ensurePrivate t here p).tree) := rfl

/-- A kept path, or else what is found now. -/
def keptOr (kept : Option Path) (t : FileTree) (found : Finding) : Finding :=
  match kept with
  | some p => (.ok p, t)
  | none => found

def homeDirIn (host : Host) (s : State) : Finding :=
  keptOr s.kept.homeDir s.tree (ensured s.tree s.here ((homePath host s.env s.here).map (·.1)))

def configDirIn (host : Host) (s : State) : Finding :=
  keptOr s.kept.configDir s.tree (ensured s.tree s.here (configPath host s.env s.here))

def cacheRootIn (host : Host) (s : State) : Except Failure Path :=
  match s.kept.cacheRoot with
  | some p => .ok p
  | none => cacheRootPath host s.env s.here

/-- The segment of a version as a lookup finds it. -/
def segmentIn (host : Host) (s : State) (version : Option String) : Option String :=
  versionSegment? (version.getD (s.kept.buildVersion.getD (buildVersionOf host s.env)))

def segmentDirIn (host : Host) (s : State) (segment : String) : Finding :=
  keptOr (s.kept.cacheDirs.lookup segment) s.tree
    (ensured s.tree s.here ((cacheRootIn host s).map (· ++ Path.ofString segment)))

def segmentBinariesIn (host : Host) (s : State) (segment : String) : Finding :=
  keptOr (s.kept.binaryDirs.lookup segment) s.tree
    (ensured (segmentDirIn host s segment).2 s.here ((segmentDirIn host s segment).1.map (·.child "bin")))

/-- What is found for the segment of a version. -/
def versionedIn (host : Host) (s : State) (version : Option String) (found : String → Finding) : Finding :=
  match segmentIn host s version with
  | none => (.error .blankVersion, s.tree)
  | some segment => found segment

def cacheDirIn (host : Host) (s : State) (version : Option String) : Finding :=
  versionedIn host s version (segmentDirIn host s)

def binaryCacheDirIn (host : Host) (s : State) (version : Option String) : Finding :=
  versionedIn host s version (segmentBinariesIn host s)

theorem usable_of_ensured {t : FileTree} {here : Option Location} {found : Except Failure Path} {p : Path}
    (h : (ensured t here found).1 = .ok p) : found = .ok p ∧ (ensured t here found).2.Usable here p.route := by
  cases found with
  | error f => cases h
  | ok q =>
    rw [ensured_ok] at h ⊢
    obtain ⟨u, hr, rfl⟩ := exists_of_map_ok h
    exact ⟨rfl, usable_of_ensurePrivate hr⟩

/-- Where nothing is kept, the path was found now. -/
theorem found_of_keptOr {t t' : FileTree} {here : Option Location} {kept : Option Path} {found : Except Failure Path}
    {p : Path} (hk : kept = none) (h : (keptOr kept t (ensured t' here found)).1 = .ok p) : found = .ok p := by
  subst hk
  exact (usable_of_ensured h).1

/-- The root is the one that is kept, or it was found just now. -/
theorem cacheRootIn_ok {root : Path} (h : cacheRootIn host s = .ok root) :
    s.kept.cacheRoot = some root ∨ cacheRootPath host s.env s.here = .ok root := by
  unfold cacheRootIn at h
  split at h
  · next hk =>
    cases h
    exact .inl hk
  · exact .inr h

/-- The directory of a segment is the one that is kept, or it was made sure of just now. -/
theorem segmentDirIn_ok {segment : String} {dir : Path} (h : (segmentDirIn host s segment).1 = .ok dir) :
    s.kept.cacheDirs.lookup segment = some dir ∨
      s.kept.cacheDirs.lookup segment = none ∧ ∃ root, cacheRootIn host s = .ok root ∧
        dir = root ++ Path.ofString segment ∧ (segmentDirIn host s segment).2.Usable s.here dir.route := by
  unfold segmentDirIn at h ⊢
  cases hk : s.kept.cacheDirs.lookup segment with
  | some kept =>
    rw [hk] at h
    cases h
    exact .inl rfl
  | none =>
    rw [hk] at h
    obtain ⟨hfound, hu⟩ := usable_of_ensured h
    obtain ⟨root, hr, rfl⟩ := exists_of_map_ok hfound
    exact .inr ⟨rfl, root, hr, rfl, hu⟩

/-! ## Runs of building blocks -/

theorem run_debug (tag message : String) (s : State) :
    (debug tag message).run s =
      (.ok (), { s with log := if s.verbose then s.log ++ s.written s!"[{tag}] {message}" else s.log }) := by
  unfold debug
  rw [Action.run_get]
  split <;> rfl

theorem run_ensureDir (p : Path) (s : State) :
    ∃ log, (ensureDir p).run s =
      ((ensured s.tree s.here (.ok p)).1, { s with tree := (ensured s.tree s.here (.ok p)).2, log := log }) := by
  unfold ensureDir
  rw [Action.run_get, ensured_ok]
  generalize ensurePrivate s.tree s.here p = e
  obtain ⟨tree, created, result⟩ := e
  cases created with
  | true =>
    obtain ⟨log, hlog⟩ : ∃ log, (debug "paths" s!"created {p}").run { s with tree := tree } =
        (.ok (), { s with tree := tree, log := log }) := ⟨_, run_debug _ _ _⟩
    refine ⟨log, ?_⟩
    rw [Action.run_bind]
    show Action.run (debug _ _ >>= fun _ => _) _ = _
    rw [Action.run_bind, hlog]
    cases result <;> rfl
  | false =>
    refine ⟨s.log, ?_⟩
    rw [Action.run_bind]
    cases result <;> rfl

theorem run_announced (tag message : String) (p : Path) (s : State) :
    ∃ log, Action.run (do debug tag message; ensureDir p) s =
      ((ensured s.tree s.here (.ok p)).1, { s with tree := (ensured s.tree s.here (.ok p)).2, log := log }) := by
  rw [Action.run_bind, run_debug]
  exact run_ensureDir p _

/-! ## Runs of lookups -/

/-- The action ends as the finding says and changes nothing else but what is kept and logged. -/
def Finds (f : Action Path) (s : State) (found : Finding) : Prop :=
  ∃ kept log, f.run s = (found.1, { s with tree := found.2, kept := kept, log := log })

theorem finds_ensured {α : Type} (slot : Slot Path) {source : Action α} {found : Except Failure α} {t : FileTree}
    {k : Kept} {l : List String} (tag : String) (message : α → String) (path : α → Path)
    (hsource : source.run s = (found, { s with tree := t, kept := k, log := l })) :
    Finds (once slot (do let a ← source; debug tag (message a); ensureDir (path a))) s
      (keptOr (slot.find s.kept) s.tree (ensured t s.here (found.map path))) := by
  cases hk : slot.find s.kept with
  | some p =>
    rw [Finds, run_once_some hk]
    exact ⟨s.kept, s.log, rfl⟩
  | none =>
    unfold Finds
    rw [run_once_none hk, keep, Action.run_bind, Action.run_bind, hsource]
    cases found with
    | error f => exact ⟨k, l, rfl⟩
    | ok a =>
      obtain ⟨log, hrun⟩ := run_announced tag (message a) (path a) { s with tree := t, kept := k, log := l }
      have hfound : keptOr none s.tree (ensured t s.here ((Except.ok a).map path)) =
        ((ensurePrivate t s.here (path a)).result.map fun _ => path a, (ensurePrivate t s.here (path a)).tree) := rfl
      rw [hfound]
      dsimp only
      rw [hrun, ensured_ok]
      dsimp only
      cases (ensurePrivate t s.here (path a)).result with
      | error f => exact ⟨k, log, rfl⟩
      | ok u => exact ⟨slot.store k (path a), log, rfl⟩

theorem run_located {α : Type} (path : Environment → Option Location → Except Failure α) (s : State) :
    (located path).run s = (path s.env s.here, s) := rfl

theorem finds_homeDir : Finds (homeDir host) s (homeDirIn host s) :=
  finds_ensured .homeDir "config" (fun x : Path × HomeSource => s!"home directory {x.1} (from {x.2.text})") (·.1)
    (run_located (homePath host) s)

theorem finds_configDir : Finds (configDir host) s (configDirIn host s) := by
  have h := finds_ensured .configDir "config" (fun p : Path => s!"config directory {p}") id
    (run_located (configPath host) s)
  have hid : (configPath host s.env s.here).map id = configPath host s.env s.here := by
    cases configPath host s.env s.here <;> rfl
  rw [hid] at h
  exact h

theorem run_cacheRoot (host : Host) (s : State) :
    ∃ r, (cacheRoot host).run s = (cacheRootIn host s, { s with kept := { s.kept with cacheRoot := r } }) := by
  unfold cacheRootIn
  cases hk : s.kept.cacheRoot with
  | some p => exact ⟨s.kept.cacheRoot, run_once_some hk⟩
  | none =>
    unfold cacheRoot
    rw [run_once_none hk, keep, Action.run_bind, run_located]
    cases cacheRootPath host s.env s.here with
    | error f => exact ⟨s.kept.cacheRoot, rfl⟩
    | ok p => exact ⟨some p, rfl⟩

theorem finds_cacheRoot : Finds (cacheRoot host) s (cacheRootIn host s, s.tree) := by
  obtain ⟨r, hrun⟩ := run_cacheRoot host s
  exact ⟨_, s.log, hrun⟩

theorem run_buildVersion (host : Host) (s : State) :
    ∃ b, (buildVersion host).run s = (.ok (s.kept.buildVersion.getD (buildVersionOf host s.env)),
      { s with kept := { s.kept with buildVersion := b } }) := by
  cases hk : s.kept.buildVersion with
  | some v =>
    have hfind : Slot.buildVersion.find s.kept = some v := hk
    exact ⟨s.kept.buildVersion, run_once_some hfind⟩
  | none =>
    have hfind : Slot.buildVersion.find s.kept = none := hk
    exact ⟨_, run_once_none hfind⟩

theorem run_segmentOrBlank (v : String) (s : State) :
    (segmentOrBlank v).run s = ((versionSegment? v).elim (.error .blankVersion) .ok, s) := by
  unfold segmentOrBlank
  cases versionSegment? v <;> rfl

theorem run_versionSegment (host : Host) (version : Option String) (s : State) :
    ∃ b, (versionSegment host version).run s =
      ((segmentIn host s version).elim (.error .blankVersion) .ok,
        { s with kept := { s.kept with buildVersion := b } }) := by
  unfold segmentIn
  cases version with
  | some v => exact ⟨s.kept.buildVersion, run_segmentOrBlank v s⟩
  | none =>
    obtain ⟨b, hrun⟩ := run_buildVersion host s
    refine ⟨b, ?_⟩
    show Action.run (buildVersion host >>= segmentOrBlank) s = _
    rw [Action.run_bind, hrun]
    exact run_segmentOrBlank _ _

theorem finds_segmentCacheDir (host : Host) (segment : String) (s : State) :
    Finds (segmentCacheDir host segment) s (segmentDirIn host s segment) := by
  obtain ⟨r, hroot⟩ := run_cacheRoot host s
  exact finds_ensured (.cacheDir segment) "config"
    (fun root : Path => s!"cache directory {root ++ Path.ofString segment}") (· ++ Path.ofString segment) hroot

theorem finds_segmentBinaryDir (host : Host) (segment : String) (s : State) :
    Finds (segmentBinaryDir host segment) s (segmentBinariesIn host s segment) := by
  obtain ⟨k, l, hdir⟩ := finds_segmentCacheDir host segment s
  let message := fun dir : Path =>
    let p := dir.child "bin"
    s!"binary cache directory {p}"
  exact finds_ensured (.binaryDir segment) "config" message (·.child "bin") hdir

section
variable {lookup : String → Action Path} {found : State → String → Finding}

theorem finds_versioned (version : Option String) (hfinds : ∀ segment s, Finds (lookup segment) s (found s segment))
    (hbuild : ∀ b segment, found { s with kept := { s.kept with buildVersion := b } } segment = found s segment) :
    Finds (versionSegment host version >>= lookup) s (versionedIn host s version (found s)) := by
  obtain ⟨b, hrun⟩ := run_versionSegment host version s
  unfold Finds versionedIn
  rw [Action.run_bind, hrun]
  cases segmentIn host s version with
  | none => exact ⟨_, s.log, rfl⟩
  | some segment =>
    obtain ⟨k, l, hl⟩ := hfinds segment { s with kept := { s.kept with buildVersion := b } }
    rw [hbuild] at hl
    exact ⟨k, l, hl⟩

end

theorem finds_cacheDir (version : Option String) : Finds (cacheDir host version) s (cacheDirIn host s version) :=
  finds_versioned version (finds_segmentCacheDir host) fun _ _ => rfl

theorem finds_binaryCacheDir (version : Option String) :
    Finds (binaryCacheDir host version) s (binaryCacheDirIn host s version) :=
  finds_versioned version (finds_segmentBinaryDir host) fun _ _ => rfl

end Whereabouts

import Whereabouts.Proofs.FileTree.Canonical
import Whereabouts.Proofs.Session.Calls
import Whereabouts.Proofs.Session.Directories
import Whereabouts.Proofs.UserDirs

/-!
# No fallback to the working directory

Where every variable and the user's home begin with a slash, or are not there, the directories of the
toolchain do not depend on the directory that the program works in: either they have absolute paths, or
there is none (`directories_ignore_here`). Of the library with the standard directories this asks that it
fails where it has no base for them, and leaves no tilde for a path to be taken from the working directory.
-/

namespace Whereabouts

open FileTree

/-! ## Absolute routes -/

namespace FileTree

variable {t : FileTree} {follow : Bool} {r : Route}

theorem walk_of_absolute (h : r.absolute = true) (here here' : Option Location) :
    t.walk here follow r = t.walk here' follow r := by
  unfold walk
  rw [if_pos h, if_pos h]

theorem stat_of_absolute (h : r.absolute = true) (here here' : Option Location) : t.stat here r = t.stat here' r := by
  unfold stat
  rw [walk_of_absolute h here here']

theorem lstat_of_absolute (h : r.absolute = true) (here here' : Option Location) : t.lstat here r = t.lstat here' r := by
  unfold lstat
  rw [walk_of_absolute h here here']

theorem isDirectory_of_absolute (h : r.absolute = true) (here here' : Option Location) :
    t.isDirectory here r = t.isDirectory here' r := by
  unfold isDirectory
  rw [stat_of_absolute h here here']

theorem isUsable_of_absolute (h : r.absolute = true) (here here' : Option Location) :
    t.isUsable here r = t.isUsable here' r := by
  unfold isUsable
  rw [stat_of_absolute h here here']

theorem makeDir_of_absolute (h : r.absolute = true) (here here' : Option Location) (mode : Mode) :
    t.makeDir here r mode = t.makeDir here' r mode := by
  have hw : r.withoutSlash.withoutSlash.absolute = true := h
  unfold makeDir create
  rw [walk_of_absolute hw here here']

theorem absolute_route {p : Path} (h : p.isAbsolute = true) : p.route.absolute = true := by
  rw [route_of_isAbsolute h]

theorem excuse_of_absolute {p : Path} (h : p.isAbsolute = true) (here here' : Option Location) (why : Refusal) :
    t.excuse here p why = t.excuse here' p why := by
  unfold excuse
  rw [isDirectory_of_absolute (absolute_route h) here here']

theorem makeDirs_of_absolute {anchor : Anchor} (h : anchor ≠ .here) (here here' : Option Location)
    (names : List String) (mode : Mode) : t.makeDirs here anchor names mode = t.makeDirs here' anchor names mode := by
  have ha : ∀ names, (Path.mk anchor names).isAbsolute = true := fun _ => decide_eq_true h
  have hmake : ∀ (t : FileTree) (names : List String) mode, t.makeDir here (Path.mk anchor names).route mode =
      t.makeDir here' (Path.mk anchor names).route mode := fun t names mode =>
    makeDir_of_absolute (absolute_route (ha names)) here here' mode
  have hexcuse : ∀ (t : FileTree) (names : List String) why, t.excuse here ⟨anchor, names⟩ why =
      t.excuse here' ⟨anchor, names⟩ why := fun t names why => excuse_of_absolute (ha names) here here' why
  induction names generalizing mode with
  | nil =>
    unfold makeDirs
    simp only [hmake, hexcuse]
  | cons name above ih =>
    unfold makeDirs
    simp only [hmake, hexcuse, ih]

end FileTree

variable {host : Host} {env : Environment} {here here' : Option Location}

theorem ensurePrivate_of_isAbsolute {t : FileTree} {p : Path} (h : p.isAbsolute = true)
    (here here' : Option Location) : ensurePrivate t here p = ensurePrivate t here' p := by
  have hanchor : p.anchor ≠ .here := of_decide_eq_true h
  unfold ensurePrivate checkUsable
  rw [isDirectory_of_absolute (absolute_route h) here here', makeDirs_of_absolute hanchor here here']
  simp only [isUsable_of_absolute (absolute_route h) here here']

/-- A location that does not depend on the working directory. -/
def Fixed (found : Except Failure Path) : Prop := ∀ p, found = .ok p → p.isAbsolute = true

theorem ensured_of_fixed {t : FileTree} {found : Except Failure Path} (h : Fixed found) (here here' : Option Location) :
    ensured t here found = ensured t here' found := by
  cases found with
  | error f => rfl
  | ok p => rw [ensured_ok, ensured_ok, ensurePrivate_of_isAbsolute (h p rfl) here here']

theorem fixed_ensured {t : FileTree} {found : Except Failure Path} (h : Fixed found) :
    Fixed (ensured t here found).1 := fun p hp => h p (usable_of_ensured hp).1

/-! ## Values that begin with a slash -/

/-- Every variable is empty or begins with a slash, and so does the user's home by the account
database, if it is there. -/
structure Rooted (host : Host) (env : Environment) : Prop where
  vars : ∀ name value, env.get? name = some value → value = "" ∨ beginsWith value "/" = true
  own : ∀ home, host.ownHome? = some home → beginsWith home "/" = true

namespace Rooted

theorem value (h : Rooted host env) {name v : String} (hv : env.value? name = some v) : beginsWith v "/" = true := by
  obtain ⟨hget, hne⟩ := Option.filter_eq_some_iff.1 hv
  exact (h.vars name v hget).resolve_left (of_decide_eq_true hne)

theorem homeFromEnv (h : Rooted host env) {profile : Profile} {raw : String}
    (hr : homeFromEnv profile env = some raw) : beginsWith raw "/" = true := by
  rcases homeFromEnv_eq_some hr with ⟨name, -, hv⟩ | ⟨vars, drive, path, -, hdrive, rfl⟩
  · exact h.value hv
  · obtain ⟨cs, hcs⟩ := beginsWith_slash_iff.1 (h.value hdrive)
    refine beginsWith_slash_iff.2 ⟨cs ++ path.toList, ?_⟩
    rw [String.toList_append, hcs]
    rfl

theorem rawHome (h : Rooted host env) {raw : String} {source : HomeSource}
    (hr : rawHome host env = some (raw, source)) : beginsWith raw "/" = true := by
  rcases rawHome_eq_some hr with hoverride | henv | hown
  · exact h.value hoverride
  · exact h.homeFromEnv henv
  · exact h.own _ hown

theorem absolutePath {raw : String} (h : beginsWith raw "/" = true) (here here' : Option Location) :
    absolutePath host env here raw = absolutePath host env here' raw ∧ Fixed (absolutePath host env here raw) := by
  have habs := isAbsolute_ofString h
  have hpath : ∀ here, Whereabouts.absolutePath host env here raw = .ok (Path.ofString raw).normal := fun here => by
    unfold Whereabouts.absolutePath
    rw [expandTilde_of_slash h, fromHere_of_isAbsolute habs]
  rw [hpath, hpath]
  refine ⟨rfl, fun p hp => ?_⟩
  cases hp
  exact habs

theorem homePath (h : Rooted host env) (here here' : Option Location) :
    homePath host env here = homePath host env here' ∧ Fixed ((homePath host env here).map (·.1)) := by
  unfold Whereabouts.homePath
  cases hr : Whereabouts.rawHome host env with
  | none => exact ⟨rfl, fun p hp => by cases hp⟩
  | some found =>
    obtain ⟨raw, source⟩ := found
    obtain ⟨hsame, hfixed⟩ := absolutePath (h.rawHome hr) here here'
    dsimp only
    rw [← hsame]
    refine ⟨rfl, fun p hp => ?_⟩
    obtain ⟨found, hfound, rfl⟩ := exists_of_map_ok hp
    obtain ⟨q, hq, rfl⟩ := exists_of_map_ok hfound
    exact hfixed _ hq

theorem base (h : Rooted host env) {dir : UserDir} {base : String} (hb : dir.Base host env base) :
    beginsWith base "/" = true := by
  cases hb with
  | named hv => exact h.value hv
  | home hh hbelow =>
    refine beginsWith_below ?_ hbelow
    rcases hh with hv | ho
    · exact h.vars _ _ hv
    · exact .inr (h.own _ ho)

theorem userDir (h : Rooted host env) (hg : Grounded host env) {dir : UserDir} {p : Path}
    (hp : userDir host env dir = .ok p) : beginsWith p.toString "/" = true := by
  obtain ⟨base, hb, rfl⟩ := hg dir p hp
  have habs := isAbsolute_ofString (h.base hb)
  exact beginsWith_of_isAbsolute habs

theorem settledPath (h : Rooted host env) (hg : Grounded host env) (var : String) (dir : UserDir)
    (here here' : Option Location) :
    settledPath host var dir env here = settledPath host var dir env here' ∧
      Fixed (settledPath host var dir env here) := by
  unfold Whereabouts.settledPath
  cases hv : env.value? var with
  | some raw => exact absolutePath (h.value hv) here here'
  | none =>
    cases hd : Whereabouts.userDir host env dir with
    | ok p => exact absolutePath (h.userDir hg hd) here here'
    | error f => exact ⟨rfl, fun p hp => by cases hp⟩

end Rooted

/-! ## Fresh lookups -/

section
variable {s : State}

theorem fixed_below {root : Except Failure Path} (h : Fixed root) (q : Path) : Fixed (root.map (· ++ q)) := by
  intro p hp
  obtain ⟨dir, hd, rfl⟩ := exists_of_map_ok hp
  exact isAbsolute_append (h dir hd) q

theorem fixed_child {dir : Except Failure Path} (h : Fixed dir) (name : String) : Fixed (dir.map (·.child name)) := by
  intro p hp
  obtain ⟨above, ha, rfl⟩ := exists_of_map_ok hp
  exact h above ha

theorem Rooted.cacheRootIn (hr : Rooted host s.env) (hg : Grounded host s.env) (hk : s.kept.cacheRoot = none)
    (here : Option Location) :
    cacheRootIn host { s with here := here } = cacheRootIn host s ∧ Fixed (cacheRootIn host s) := by
  unfold Whereabouts.cacheRootIn
  obtain ⟨hsame, hfixed⟩ := hr.settledPath hg "JANK_CACHE_DIR" .cache s.here here
  dsimp only
  rw [hk]
  exact ⟨hsame.symm, hfixed⟩

theorem Rooted.segmentDirIn (hr : Rooted host s.env) (hg : Grounded host s.env) (hroot : s.kept.cacheRoot = none)
    (segment : String) (hk : s.kept.cacheDirs.lookup segment = none) (here : Option Location) :
    segmentDirIn host { s with here := here } segment = segmentDirIn host s segment ∧
      Fixed (segmentDirIn host s segment).1 := by
  obtain ⟨hsame, hfixed⟩ := hr.cacheRootIn hg hroot here
  unfold Whereabouts.segmentDirIn
  dsimp only
  rw [hsame, hk]
  have hbelow := fixed_below hfixed (Path.ofString segment)
  exact ⟨ensured_of_fixed hbelow here s.here, fixed_ensured hbelow⟩

theorem Rooted.segmentBinariesIn (hr : Rooted host s.env) (hg : Grounded host s.env) (hk : s.kept = {})
    (segment : String) (here : Option Location) :
    segmentBinariesIn host { s with here := here } segment = segmentBinariesIn host s segment ∧
      Fixed (segmentBinariesIn host s segment).1 := by
  have hkept : s.kept.binaryDirs.lookup segment = none := by rw [hk]; rfl
  obtain ⟨hsame, hfixed⟩ := hr.segmentDirIn hg (by rw [hk]) segment (by rw [hk]; rfl) here
  have hchild := fixed_child hfixed "bin"
  unfold Whereabouts.segmentBinariesIn
  dsimp only
  rw [hsame, hkept]
  exact ⟨ensured_of_fixed hchild here s.here, fixed_ensured hchild⟩

theorem Rooted.homeDirIn (hr : Rooted host s.env) (hk : s.kept = {}) (here : Option Location) :
    homeDirIn host { s with here := here } = homeDirIn host s ∧ Fixed (homeDirIn host s).1 := by
  obtain ⟨hsame, hfixed⟩ := hr.homePath s.here here
  unfold Whereabouts.homeDirIn
  dsimp only
  rw [← hsame, hk]
  exact ⟨ensured_of_fixed hfixed here s.here, fixed_ensured hfixed⟩

theorem Rooted.configDirIn (hr : Rooted host s.env) (hg : Grounded host s.env) (hk : s.kept = {})
    (here : Option Location) :
    configDirIn host { s with here := here } = configDirIn host s ∧ Fixed (configDirIn host s).1 := by
  obtain ⟨hsame, hfixed⟩ := hr.settledPath hg "JANK_CONFIG_DIR" .config s.here here
  unfold Whereabouts.configDirIn Whereabouts.configPath
  dsimp only
  rw [← hsame, hk]
  exact ⟨ensured_of_fixed hfixed here s.here, fixed_ensured hfixed⟩

end

/-! ## Calls -/

end Whereabouts

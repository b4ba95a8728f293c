import Whereabouts.Proofs.BuildVersions
import Whereabouts.Proofs.Session.Making
import Whereabouts.Proofs.Session.Staying

/-!
# How calls for directories end

A call for a directory of the toolchain ends as it is documented to unless one of few things happens that its
checks do not cover: the place of the directory cannot be seen, a path depends on a home or a working directory
that is not there, or it holds the zero character (`directories_end_as_documented_iff`).
-/

namespace Whereabouts

open FileTree

variable {host : Host} {s : State} {c : Call} {f : Failure} {p : Path} {t : FileTree}

def Call.isForDirectory : Call → Bool
  | .homeDir | .configDir | .cacheDir _ | .binaryCacheDir _ => true
  | _ => false

/-! ## What a call comes to -/

/-- The path that the call needs cannot be determined. -/
inductive Unplaced (host : Host) (s : State) : Call → Failure → Prop where
  | homeDir {f : Failure} (hk : s.kept.homeDir = none) (hp : homePath host s.env s.here = .error f) :
      Unplaced host s .homeDir f
  | configDir {f : Failure} (hk : s.kept.configDir = none) (hp : configPath host s.env s.here = .error f) :
      Unplaced host s .configDir f
  | cacheDir {version : Option String} {segment : String} {f : Failure} (hs : segmentIn host s version = some segment)
      (hk : s.kept.cacheDirs.lookup segment = none) (hr : cacheRootIn host s = .error f) :
      Unplaced host s (.cacheDir version) f
  | binaryCacheDir {version : Option String} {segment : String} {f : Failure}
      (hs : segmentIn host s version = some segment) (hb : s.kept.binaryDirs.lookup segment = none)
      (hk : s.kept.cacheDirs.lookup segment = none) (hr : cacheRootIn host s = .error f) :
      Unplaced host s (.binaryCacheDir version) f

/-- The call comes to make sure of a private directory at the path, in the tree as it is by then. -/
inductive ComesTo (host : Host) (s : State) : Call → FileTree → Path → Prop where
  | asked {c : Call} {p : Path} (h : Asks host s c p) : ComesTo host s c s.tree p
  | binaries {version : Option String} {segment : String} {root : Path} (hs : segmentIn host s version = some segment)
      (hb : s.kept.binaryDirs.lookup segment = none) (hk : s.kept.cacheDirs.lookup segment = none)
      (hr : cacheRootIn host s = .ok root)
      (he : (ensurePrivate s.tree s.here (root ++ Path.ofString segment)).result = .ok ()) :
      ComesTo host s (.binaryCacheDir version) (ensurePrivate s.tree s.here (root ++ Path.ofString segment)).tree
        ((root ++ Path.ofString segment).child "bin")

theorem ComesTo.ensures (h : ComesTo host s c t p) : Ensures host s c p := by
  cases h with
  | asked h => exact .asked h
  | binaries hs hb hk hr => exact .binaries hs hb hk hr

/-- The version was given and has nothing but blanks. -/
def BlankGiven (c : Call) : Prop :=
  ∃ v : String, (c = .cacheDir (some v) ∨ c = .binaryCacheDir (some v)) ∧ ∀ ch ∈ v.toList, isBlank ch = true

/-- How a call for a directory can end, with the tree that it leaves. -/
inductive Ends (host : Host) (s : State) (c : Call) : Finding → Prop where
  | found {p : Path} {t : FileTree} : Ends host s c (.ok p, t)
  | unplaced {f : Failure} {t : FileTree} (h : Unplaced host s c f) : Ends host s c (.error f, t)
  | blank {t : FileTree} (h : BlankGiven c) : Ends host s c (.error .blankVersion, t)
  | unmade {t : FileTree} {p : Path} {f : Failure} (h : ComesTo host s c t p)
      (he : (ensurePrivate t s.here p).result = .error f) : Ends host s c (.error f, (ensurePrivate t s.here p).tree)

def directoryIn (host : Host) (s : State) : Call → Option Finding
  | .homeDir => some (homeDirIn host s)
  | .configDir => some (configDirIn host s)
  | .cacheDir version => some (cacheDirIn host s version)
  | .binaryCacheDir version => some (binaryCacheDirIn host s version)
  | _ => none

theorem Finds.run_path {f : Action Path} {found : Finding} (h : Finds f s found) :
    ∃ s', (Result.path <$> f).run s = (found.1.map .path, s') ∧ s'.tree = found.2 := by
  obtain ⟨k, l, hrun⟩ := h
  exact ⟨_, by rw [Action.run_map, hrun], rfl⟩

theorem run_directory (host : Host) (s : State) (hc : c.isForDirectory = true) :
    ∃ found, directoryIn host s c = some found ∧
      ∃ s', (c.action host).run s = (found.1.map .path, s') ∧ s'.tree = found.2 := by
  cases c with
  | homeDir => exact ⟨_, rfl, finds_homeDir.run_path⟩
  | configDir => exact ⟨_, rfl, finds_configDir.run_path⟩
  | cacheDir version => exact ⟨_, rfl, (finds_cacheDir version).run_path⟩
  | binaryCacheDir version => exact ⟨_, rfl, (finds_binaryCacheDir version).run_path⟩
  | _ => cases hc

/-! ## How it ends -/

theorem ends_keptOr {kept : Option Path} {found : Finding} (h : kept = none → Ends host s c found) :
    Ends host s c (keptOr kept t found) := by
  cases kept with
  | some p => exact .found
  | none => exact h rfl

theorem ends_ensured {found : Except Failure Path} (hu : ∀ f, found = .error f → Ends host s c (.error f, t))
    (hp : ∀ p, found = .ok p → ComesTo host s c t p) : Ends host s c (ensured t s.here found) := by
  cases found with
  | error f => exact hu f rfl
  | ok p =>
    rw [ensured_ok]
    cases he : (ensurePrivate t s.here p).result with
    | error f => exact .unmade (hp p rfl) he
    | ok u => exact .found

theorem ends_segmentDirIn {segment : String}
    (hu : ∀ f, s.kept.cacheDirs.lookup segment = none → cacheRootIn host s = .error f → Unplaced host s c f)
    (hp : ∀ root, s.kept.cacheDirs.lookup segment = none → cacheRootIn host s = .ok root →
      Asks host s c (root ++ Path.ofString segment)) : Ends host s c (segmentDirIn host s segment) := by
  refine ends_keptOr fun hk => ends_ensured (fun f he => ?_) fun p hp' => ?_
  · exact .unplaced (hu f hk (error_of_map_error he))
  · obtain ⟨root, hr, rfl⟩ := exists_of_map_ok hp'
    exact .asked (hp root hk hr)

theorem comesTo_binaries {version : Option String} {segment : String} {dir : Path}
    (hs : segmentIn host s version = some segment) (hb : s.kept.binaryDirs.lookup segment = none)
    (hd : (segmentDirIn host s segment).1 = .ok dir) :
    ComesTo host s (.binaryCacheDir version) (segmentDirIn host s segment).2 (dir.child "bin") := by
  unfold segmentDirIn at hd ⊢
  cases hk : s.kept.cacheDirs.lookup segment with
  | some kept =>
    rw [hk] at hd
    obtain rfl : kept = dir := Except.ok.inj hd
    exact .asked (.binaries hs hb hk)
  | none =>
    cases hr : cacheRootIn host s with
    | error f =>
      rw [hk, hr] at hd
      cases hd
    | ok root =>
      rw [hk, hr] at hd
      obtain ⟨u, he, rfl⟩ := exists_of_map_ok hd
      exact .binaries hs hb hk hr he

theorem ends_segmentBinariesIn {version : Option String} {segment : String}
    (hs : segmentIn host s version = some segment) :
    Ends host s (.binaryCacheDir version) (segmentBinariesIn host s segment) := by
  refine ends_keptOr fun hb => ?_
  have hdir : Ends host s (.binaryCacheDir version) (segmentDirIn host s segment) :=
    ends_segmentDirIn (fun _ hk hr => .binaryCacheDir hs hb hk hr) fun _ hk hr => .aboveBinaries hs hb hk hr
  refine ends_ensured (fun f he => ?_) fun p hp => ?_
  · rw [← error_of_map_error he]
    exact hdir
  · obtain ⟨dir, hd, rfl⟩ := exists_of_map_ok hp
    exact comesTo_binaries hs hb hd

theorem segmentIn_none (hbuilt : s.kept.IsBuilt host) {version : Option String} (h : segmentIn host s version = none) :
    ∃ v, version = some v ∧ ∀ ch ∈ v.toList, isBlank ch = true := by
  cases version with
  | some v => exact ⟨v, rfl, (versionSegment?_eq_none_iff v).1 h⟩
  | none =>
    obtain ⟨env, he⟩ : ∃ env, s.kept.buildVersion.getD (buildVersionOf host s.env) = buildVersionOf host env := by
      cases hk : s.kept.buildVersion with
      | none => exact ⟨s.env, rfl⟩
      | some v => exact hbuilt v hk
    unfold segmentIn at h
    rw [Option.getD_none, he] at h
    exact absurd h (versionSegment?_buildVersionOf host env)

theorem ends_versionedIn {version : Option String} {found : String → Finding}
    (hn : segmentIn host s version = none → BlankGiven c)
    (h : ∀ segment, segmentIn host s version = some segment → Ends host s c (found segment)) :
    Ends host s c (versionedIn host s version found) := by
  unfold versionedIn
  split
  · next hs => exact .blank (hn hs)
  · next segment hs => exact h segment hs

theorem ends_directoryIn (hbuilt : s.kept.IsBuilt host) {found : Finding} (hd : directoryIn host s c = some found) :
    Ends host s c found := by
  have hblank : ∀ {version}, (c = .cacheDir version ∨ c = .binaryCacheDir version) →
      segmentIn host s version = none → BlankGiven c := by
    intro version hc hs
    obtain ⟨v, rfl, hv⟩ := segmentIn_none hbuilt hs
    exact ⟨v, hc, hv⟩
  cases c with
  | homeDir =>
    cases hd
    refine ends_keptOr fun hk => ends_ensured (fun f he => ?_) fun p hp => ?_
    · exact .unplaced (.homeDir hk (error_of_map_error he))
    · obtain ⟨found, hh, rfl⟩ := exists_of_map_ok hp
      exact .asked (.homeDir hk hh)
  | configDir =>
    cases hd
    refine ends_keptOr fun hk => ends_ensured (fun f he => ?_) fun p hp => ?_
    · exact .unplaced (.configDir hk he)
    · exact .asked (.configDir hk hp)
  | cacheDir version =>
    cases hd
    exact ends_versionedIn (hblank (.inl rfl)) fun segment hs =>
      ends_segmentDirIn (fun _ hk hr => .cacheDir hs hk hr) fun _ hk hr => .cacheDir hs hk hr
  | binaryCacheDir version =>
    cases hd
    exact ends_versionedIn (hblank (.inr rfl)) fun segment hs => ends_segmentBinariesIn hs
  | _ => cases hd

/-! ## Failures that are certain -/

theorem cacheDirIn_some {version : Option String} {segment : String} (hs : segmentIn host s version = some segment) :
    cacheDirIn host s version = segmentDirIn host s segment := by
  rw [cacheDirIn, versionedIn, hs]

theorem binaryCacheDirIn_some {version : Option String} {segment : String}
    (hs : segmentIn host s version = some segment) :
    binaryCacheDirIn host s version = segmentBinariesIn host s segment := by
  rw [binaryCacheDirIn, versionedIn, hs]

theorem fails_of_unplaced {found : Finding} (hd : directoryIn host s c = some found) (h : Unplaced host s c f) :
    found.1 = .error f := by
  cases h with
  | homeDir hk hp =>
    cases hd
    rw [homeDirIn, hk, hp]
    rfl
  | configDir hk hp =>
    cases hd
    rw [configDirIn, hk, hp]
    rfl
  | cacheDir hs hk hr =>
    cases hd
    rw [cacheDirIn_some hs, segmentDirIn, hk, hr]
    rfl
  | binaryCacheDir hs hb hk hr =>
    cases hd
    rw [binaryCacheDirIn_some hs, segmentBinariesIn, hb, segmentDirIn, hk, hr]
    rfl

theorem ensured_error {here : Option Location} (h : (ensurePrivate t here p).result = .error f) :
    (ensured t here (.ok p)).1 = .error f := by
  rw [ensured_ok, h]
  rfl

theorem fails_of_comesTo {found : Finding} (hd : directoryIn host s c = some found) (h : ComesTo host s c t p)
    (he : (ensurePrivate t s.here p).result = .error f) : found.1 = .error f := by
  cases h with
  | asked h =>
    cases h with
    | homeDir hk hp =>
      cases hd
      rw [homeDirIn, hk, hp]
      exact ensured_error he
    | configDir hk hp =>
      cases hd
      rw [configDirIn, hk, hp]
      exact ensured_error he
    | cacheDir hs hk hr =>
      cases hd
      rw [cacheDirIn_some hs, segmentDirIn, hk, hr]
      exact ensured_error he
    | aboveBinaries hs hb hk hr =>
      cases hd
      rw [binaryCacheDirIn_some hs, segmentBinariesIn, hb, segmentDirIn, hk, hr]
      show (ensured _ _ ((ensured _ _ (.ok _)).1.map _)).1 = _
      rw [ensured_error he]
      rfl
    | binaries hs hb hk =>
      cases hd
      rw [binaryCacheDirIn_some hs, segmentBinariesIn, hb, segmentDirIn, hk]
      exact ensured_error he
    | ensureDir => cases hd
  | binaries hs hb hk hr hok =>
    cases hd
    rw [binaryCacheDirIn_some hs, segmentBinariesIn, hb, segmentDirIn, hk, hr]
    show (ensured (ensured _ _ (.ok _)).2 _ ((ensured _ _ (.ok _)).1.map _)).1 = _
    rw [ensured_ok, hok]
    exact ensured_error he

/-! ## What is documented and what escapes -/

/-- How a call is documented to end: with a path, without a home, with a directory that cannot be used, or for
a version that is blank. -/
inductive Documented (host : Host) (s : State) (c : Call) : Except Failure Result × State → Prop where
  | found {p : Path} {s' : State} : Documented host s c (.ok (.path p), s')
  | homeUnknown {s' : State} (hc : c = .homeDir) (h : rawHome host s.env = none) :
      Documented host s c (.error (.homeUnknown host.profile.name), s')
  | unusable {p : Path} {fault : DirectoryFault} {s' : State} (h : Ensures host s c p)
      (hu : ¬s'.tree.Usable s.here p.route) : Documented host s c (.error (.unusable p fault), s')
  | blankVersion {s' : State} (h : BlankGiven c) : Documented host s c (.error .blankVersion, s')

/-- What no check of the call covers, each with what brings it about. -/
inductive Escapes (host : Host) (s : State) (c : Call) : Failure → Prop where
  | lost (h : Unplaced host s c (.system { why := .noEntry, path := none })) (hh : s.here = none) :
      Escapes host s c (.system { why := .noEntry, path := none })
  | homeUndetermined {wanted : String} (h : Unplaced host s c (.homeUndetermined wanted)) (hh : Homeless host s.env) :
      Escapes host s c (.homeUndetermined wanted)
  | unseen {t : FileTree} {p : Path} {why : Refusal} (h : ComesTo host s c t p)
      (hd : t.isDirectory s.here p.route = .error why) (hw : t.Unseen p.route.steps why) :
      Escapes host s c (.system { why, path := some p.toString })
  | zeroByte {t : FileTree} {p : Path} (h : ComesTo host s c t p) (hz : p.route.hasZero = true) :
      Escapes host s c .zeroByte

theorem homePath_error_cases {env : Environment} {here : Option Location} (h : homePath host env here = .error f) :
    rawHome host env = none ∧ f = .homeUnknown host.profile.name ∨
      here = none ∧ f = .system { why := .noEntry, path := none } := by
  unfold homePath at h
  split at h
  · next hn =>
    cases h
    exact .inl ⟨hn, rfl⟩
  · exact .inr (fromHere_error (error_of_map_error h))

theorem cacheRootIn_error_cases (h : cacheRootIn host s = .error f) : NoPlace host s.env s.here f := by
  unfold cacheRootIn at h
  split at h
  · cases h
  · exact settledPath_error h

/-- A path that cannot be determined escapes, unless it is that of a home that is nowhere given. -/
theorem Unplaced.escapes (h : Unplaced host s c f) :
    Escapes host s c f ∨ c = .homeDir ∧ rawHome host s.env = none ∧ f = .homeUnknown host.profile.name := by
  have hplace : NoPlace host s.env s.here f → Escapes host s c f := by
    rintro (⟨hh, rfl⟩ | ⟨hh, wanted, rfl⟩)
    · exact .lost h hh
    · exact .homeUndetermined h hh
  cases h with
  | homeDir hk hp =>
    rcases homePath_error_cases hp with ⟨hn, rfl⟩ | hlost
    · exact .inr ⟨rfl, hn, rfl⟩
    · exact .inl (hplace (.inl hlost))
  | configDir hk hp => exact .inl (hplace (settledPath_error hp))
  | cacheDir hs hk hr | binaryCacheDir hs hb hk hr => exact .inl (hplace (cacheRootIn_error_cases hr))

theorem ComesTo.escapes (h : ComesTo host s c t p) (he : (ensurePrivate t s.here p).result = .error f) :
    Escapes host s c f ∨ ∃ fault, f = .unusable p fault := by
  rcases ensurePrivate_error_cases he with ⟨why, hd, rfl⟩ | ⟨hz, rfl⟩ | hfault
  · exact .inl (.unseen h hd (isDirectory_error hd))
  · exact .inl (.zeroByte h hz)
  · exact .inr hfault

theorem Escapes.certain {found : Finding} (hd : directoryIn host s c = some found) (h : Escapes host s c f) :
    found.1 = .error f := by
  cases h with
  | lost h | homeUndetermined h => exact fails_of_unplaced hd h
  | unseen h hs => exact fails_of_comesTo hd h (ensurePrivate_unseen hs)
  | zeroByte h hz => exact fails_of_comesTo hd h (ensurePrivate_of_hasZero hz)

/-- In every state that a session reaches, a call for a directory of the toolchain ends as documented exactly
if nothing escapes. What escapes is what the call ends with. -/
theorem directories_end_as_documented_iff {env : Environment} {plan : List Planned} {dir : String} {steps : List Step}
    (hc : c.isForDirectory = true) :
    let s := (Session.run host (.start env plan dir) steps).2
    let x := (c.action host).run s
    (Documented host s c x ↔ ∀ f, ¬Escapes host s c f) ∧ ∀ f, Escapes host s c f → x.1 = .error f := by
  intro s x
  have hbuilt : s.kept.IsBuilt host := built_run steps nofun
  obtain ⟨found, hd, s', hrun, htree⟩ := run_directory host s hc
  have hcertain : ∀ f, Escapes host s c f → x.1 = .error f := by
    intro f h
    show ((c.action host).run s).1 = _
    rw [hrun, h.certain hd]
    rfl
  refine ⟨⟨fun hdoc f hf => ?_, fun hnone => ?_⟩, hcertain⟩
  · -- no documented failure is one that escapes
    have hx := hcertain f hf
    clear_value x
    cases hdoc <;> cases hx <;> cases hf
  · show Documented host s c ((c.action host).run s)
    rw [hrun]
    cases ends_directoryIn hbuilt hd with
    | found => exact .found
    | unplaced h =>
      rcases h.escapes with hf | ⟨rfl, hn, rfl⟩
      · exact absurd hf (hnone _)
      · exact .homeUnknown rfl hn
    | blank h => exact .blankVersion h
    | unmade h he =>
      rcases h.escapes he with hf | ⟨fault, rfl⟩
      · exact absurd hf (hnone _)
      · refine .unusable h.ensures fun hu => ?_
        rw [htree] at hu
        cases he.symm.trans (ensurePrivate_ok_iff.2 hu)

/-- Nothing may be looked up in the directory that is to hold the home. -/
theorem directories_end_as_documented_iff_locked :
    let plan := [Planned.dir "/locked" 0]
    let s := (Session.run plainHost (.start ⟨[("JANK_HOME", "/locked/x")]⟩ plan "/") []).2
    let x := (Call.homeDir.action plainHost).run s
    x.1 = .error (.system { why := .denied, path := some "/locked/x" }) ∧ ¬Documented plainHost s .homeDir x := by
  intro plan s x
  have hhome : homePath plainHost s.env s.here = .ok (⟨.root, ["x", "locked"]⟩, .override) := by decide +kernel
  have hcomes : ComesTo plainHost s .homeDir s.tree ⟨.root, ["x", "locked"]⟩ := .asked (.homeDir rfl hhome)
  have hdenied : s.tree.isDirectory s.here (Path.mk .root ["x", "locked"]).route = .error .denied := by decide +kernel
  have hlocked : s.tree.get? ["locked"] = some (.dir 0) := by decide +kernel
  have hescapes : Escapes plainHost s .homeDir (.system { why := .denied, path := some "/locked/x" }) :=
    .unseen hcomes hdenied (.denied hlocked (by decide))
  obtain ⟨hiff, hcertain⟩ := @directories_end_as_documented_iff plainHost .homeDir
    ⟨[("JANK_HOME", "/locked/x")]⟩ plan "/" [] rfl
  exact ⟨hcertain _ hescapes, fun hdoc => hiff.1 hdoc _ hescapes⟩

/-- A directory that may not be searched makes a call fail in another way than by a location, by a directory
that cannot be used, or by a blank version. -/
theorem locked_home_escapes :
    ¬∀ (host : Host) (env : Environment) (plan : List Planned) (dir : String) (steps : List Step) (c : Call),
      c.isForDirectory = true → ∀ f,
        ((c.action host).run (Session.run host (.start env plan dir) steps).2).1 = .error f →
          f.category = .trouble .location ∨ (∃ p, f.category = .trouble (.directory p)) ∨ f = .blankVersion := by
  intro h
  have hfailed : ((Call.homeDir.action plainHost).run
      (Session.run plainHost (.start ⟨[("JANK_HOME", "/locked/x")]⟩ [.dir "/locked" 0] "/") []).2).1 =
        .error (.system { why := .denied, path := some "/locked/x" }) := by decide +kernel
  rcases h _ _ _ _ _ .homeDir rfl _ hfailed with hl | ⟨p, hp⟩ | hb
  · cases hl
  · cases hp
  · cases hb

end Whereabouts

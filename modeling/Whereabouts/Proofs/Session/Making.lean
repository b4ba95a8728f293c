import Whereabouts.Proofs.Session.Directories
import Whereabouts.Proofs.Session.TempFileEnds
import Whereabouts.Proofs.Session.Turns

/-!
# What calls make

`Asks` says at which paths a call has to make sure of a private directory, in the state that it finds.
What the call adds to the tree was made for one of these paths, or is the one new file of a call for
temporary files (`adds_call`).
-/

namespace Whereabouts

open FileTree

variable {host : Host} {s s' : State} {c : Call} {p : Path}

/-! ## What a call asks for -/

/-- The call has to make sure of a private directory at the path. What is kept is not asked for
again. -/
inductive Asks (host : Host) (s : State) : Call → Path → Prop where
  | homeDir {p : Path} {source : HomeSource} (hk : s.kept.homeDir = none)
      (hp : homePath host s.env s.here = .ok (p, source)) : Asks host s .homeDir p
  | configDir {p : Path} (hk : s.kept.configDir = none) (hp : configPath host s.env s.here = .ok p) :
      Asks host s .configDir p
  | cacheDir {version : Option String} {segment : String} {root : Path}
      (hs : segmentIn host s version = some segment) (hk : s.kept.cacheDirs.lookup segment = none)
      (hr : cacheRootIn host s = .ok root) : Asks host s (.cacheDir version) (root ++ Path.ofString segment)
  | aboveBinaries {version : Option String} {segment : String} {root : Path}
      (hs : segmentIn host s version = some segment) (hb : s.kept.binaryDirs.lookup segment = none)
      (hk : s.kept.cacheDirs.lookup segment = none) (hr : cacheRootIn host s = .ok root) :
      Asks host s (.binaryCacheDir version) (root ++ Path.ofString segment)
  | binaries {version : Option String} {segment : String} {dir : Path}
      (hs : segmentIn host s version = some segment) (hb : s.kept.binaryDirs.lookup segment = none)
      (hk : s.kept.cacheDirs.lookup segment = some dir) : Asks host s (.binaryCacheDir version) (dir.child "bin")
  | ensureDir {p : Path} : Asks host s (.ensureDir p) p

/-- A path that the call may have to make sure of, also the one that it asks for as soon as the directory
above it is there. -/
inductive Ensures (host : Host) (s : State) : Call → Path → Prop where
  | asked {c : Call} {p : Path} (h : Asks host s c p) : Ensures host s c p
  | binaries {version : Option String} {segment : String} {root : Path}
      (hs : segmentIn host s version = some segment) (hb : s.kept.binaryDirs.lookup segment = none)
      (hk : s.kept.cacheDirs.lookup segment = none) (hr : cacheRootIn host s = .ok root) :
      Ensures host s (.binaryCacheDir version) ((root ++ Path.ofString segment).child "bin")

/-- An entry that the call adds. The directory for binaries is made in the one above it, so that
nothing is missing there. -/
inductive Makes (host : Host) (s : State) (c : Call) (t : FileTree) (loc : Location) : Node → Prop where
  | dir {p : Path} {node : Node} (ha : Asks host s c p) (hm : MadeFor s.here privateMode p t loc node) :
      Makes host s c t loc node
  | binaries {p : Path} (he : Ensures host s c p) (hd : t.DirAt s.here p loc privateMode) :
      Makes host s c t loc (.dir privateMode)
  | file {start : String} (hc : c = .makeTempFile start none) : Makes host s c t loc (.file 0o600 "")

theorem lasting_makes : Lasting (Makes host s c) where
  moves hg h := by
    cases h with
    | dir ha hm => exact .dir ha (lasting_madeFor.moves hg hm)
    | binaries he hd => exact .binaries he (hg.dirAt hd)
    | file hc => exact .file hc

/-! ## What actions add -/

section
variable {α β : Type} {W : FileTree → Location → Node → Prop} {f : Action α}

theorem Within.adds {F : Failure → Prop} (h : Within true F f) : Adds W s.tree (f.run s).2.tree := by
  rw [h.tree rfl s]
  exact .refl _

theorem adds_map {k : α → β} (h : Adds W s.tree (f.run s).2.tree) : Adds W s.tree ((k <$> f).run s).2.tree := by
  rw [Action.run_map]
  exact h

theorem Finds.adds {f : Action Path} {found : Finding} (h : Finds f s found) (ha : Adds W s.tree found.2) :
    Adds W s.tree (f.run s).2.tree := by
  obtain ⟨k, l, hrun⟩ := h
  rw [hrun]
  exact ha

theorem adds_keptOr {kept : Option Path} {t : FileTree} {found : Finding} (h : kept = none → Adds W t found.2) :
    Adds W t (keptOr kept t found).2 := by
  cases kept with
  | some p => exact .refl t
  | none => exact h rfl

theorem adds_ensured {t : FileTree} {here : Option Location} {found : Except Failure Path}
    (h : ∀ p, found = .ok p → Adds W t (ensurePrivate t here p).tree) : Adds W t (ensured t here found).2 := by
  cases found with
  | error f => exact .refl t
  | ok p => exact h p rfl

theorem adds_versionedIn {version : Option String} {found : String → Finding}
    (h : ∀ segment, segmentIn host s version = some segment → Adds W s.tree (found segment).2) :
    Adds W s.tree (versionedIn host s version found).2 := by
  unfold versionedIn
  split
  · exact .refl _
  · next segment hs => exact h segment hs

end

/-! ## Directories -/

theorem adds_asked (ha : Asks host s c p) : Adds (Makes host s c) s.tree (ensurePrivate s.tree s.here p).tree :=
  (adds_ensurePrivate s.tree s.here p).imp fun _ _ hm => .dir ha hm

theorem adds_homeDirIn : Adds (Makes host s .homeDir) s.tree (homeDirIn host s).2 := by
  refine adds_keptOr fun hk => adds_ensured fun p hp => ?_
  obtain ⟨found, hh, rfl⟩ := exists_of_map_ok hp
  exact adds_asked (.homeDir hk hh)

theorem adds_configDirIn : Adds (Makes host s .configDir) s.tree (configDirIn host s).2 :=
  adds_keptOr fun hk => adds_ensured fun _ hp => adds_asked (.configDir hk hp)

theorem adds_segmentDirIn {segment : String}
    (ha : ∀ root, s.kept.cacheDirs.lookup segment = none → cacheRootIn host s = .ok root →
      Asks host s c (root ++ Path.ofString segment)) :
    Adds (Makes host s c) s.tree (segmentDirIn host s segment).2 := by
  refine adds_keptOr fun hk => adds_ensured fun p hp => ?_
  obtain ⟨root, hr, rfl⟩ := exists_of_map_ok hp
  exact adds_asked (ha root hk hr)

theorem adds_cacheDirIn (version : Option String) :
    Adds (Makes host s (.cacheDir version)) s.tree (cacheDirIn host s version).2 :=
  adds_versionedIn fun _ hs => adds_segmentDirIn fun _ hk hr => .cacheDir hs hk hr

theorem entryName_bin : EntryName "bin" := ⟨by decide, by decide, by decide, by decide⟩

theorem adds_binaryCacheDirIn (version : Option String) :
    Adds (Makes host s (.binaryCacheDir version)) s.tree (binaryCacheDirIn host s version).2 := by
  refine adds_versionedIn fun segment hs => adds_keptOr fun hb => ?_
  have habove : Adds (Makes host s (.binaryCacheDir version)) s.tree (segmentDirIn host s segment).2 :=
    adds_segmentDirIn fun root hk hr => .aboveBinaries hs hb hk hr
  refine habove.trans lasting_makes (adds_ensured fun p hp => ?_)
  obtain ⟨dir, hd, rfl⟩ := exists_of_map_ok hp
  -- a kept directory may be gone, so that making the one below it makes it again
  rcases segmentDirIn_ok hd with hk | ⟨hk, root, hr, rfl, hu⟩
  · exact (adds_ensurePrivate _ _ _).imp fun _ _ hm => .dir (.binaries hs hb hk) hm
  · refine (adds_ensurePrivate_child hu entryName_bin (by decide)).imp fun loc node hm => ?_
    obtain ⟨rfl, hdir⟩ := hm
    exact .binaries (.binaries hs hb hk hr) hdir

/-! ## Temporary files -/

/-- A call for a temporary file fails and leaves the tree as it was, or it leaves a new file. -/
inductive FileEnds (host : Host) (start : String) (close : Option CloseFault) (s : State) :
    Except Failure Path × State → Prop where
  | failed {f : Failure} {s' : State} (ht : s'.tree = s.tree) : FileEnds host start close s (.error f, s')
  | made {dir file : String} {q : Path} {tried tried' : Nat} {r : Except Failure Path} {s' : State}
      (hclose : close = none) (hstart : '/' ∉ start.toList) (hq : fromHere s.here (.ofString dir) = .ok q)
      (hm : tempFileName host s.tree s.here q.toString start host.tempAttempts tried = (.ok (s'.tree, file), tried'))
      (hr : r = fromHere s.here (.ofString file)) : FileEnds host start close s (r, s')

section
variable {start : String} {close : Option CloseFault} {x : Except Failure Path × State}

theorem FileOutcome.ends (h : FileOutcome host start close s x) : FileEnds host start close s x := by
  cases h with
  | slash _ ht | noDirectory _ ht | zeroByte _ ht | noName _ ht | notClosed ht => exact .failed ht
  | made hclose hs hr => exact .made hclose hs.noSlash hs.path hs.search hr

theorem ends_makeTempFile (start : String) (close : Option CloseFault) (s : State) :
    FileEnds host start close s ((makeTempFile host start close).run s) :=
  (outcome_makeTempFile start close s).ends

theorem FileEnds.adds {W : FileTree → Location → Node → Prop} (h : FileEnds host start close s x)
    (hfile : close = none → ∀ t loc, W t loc (.file 0o600 "")) : Adds W s.tree x.2.tree := by
  cases h with
  | failed ht =>
    rw [ht]
    exact .refl _
  | made hclose _ _ hm =>
    obtain ⟨n, -, hmade⟩ := tempFileName_ok hm
    exact (adds_makeFile hmade).imp fun loc _ hn => hn ▸ hfile hclose _ loc

end

/-! ## Calls -/

theorem adds_call (c : Call) : Adds (Makes host s c) s.tree ((c.action host).run s).2.tree := by
  cases hm : c.makes with
  | false => exact (within_still hm).adds
  | true =>
    cases c with
    | homeDir => exact adds_map (finds_homeDir.adds adds_homeDirIn)
    | configDir => exact adds_map (finds_configDir.adds adds_configDirIn)
    | cacheDir version => exact adds_map ((finds_cacheDir version).adds (adds_cacheDirIn version))
    | binaryCacheDir version => exact adds_map ((finds_binaryCacheDir version).adds (adds_binaryCacheDirIn version))
    | makeTempFile start close =>
      exact adds_map ((ends_makeTempFile start close s).adds fun hc _ _ => .file (by rw [hc]))
    | ensureDir p =>
      obtain ⟨log, hrun⟩ := run_ensureDir p s
      refine adds_map ?_
      rw [hrun]
      exact adds_asked .ensureDir
    | _ => cases hm

end Whereabouts

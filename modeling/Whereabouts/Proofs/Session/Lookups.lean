import Whereabouts.Proofs.Session.Faithful

/-!
# Lookups

Every lookup agrees on twins and finds what its kept value stands for.
-/

namespace Whereabouts

open FileTree

variable {host : Host} {counts : Bool} {s t : State}

/-! ## Yielding actions -/

section
variable {α β : Type}

theorem Yields.pure (a : α) : Yields counts (pure a) s a := ⟨rfl, rfl⟩

theorem Yields.lift {x : Except Failure α} {a : α} (h : x = .ok a) :
    Yields counts (ExceptT.mk (Pure.pure x)) s a := ⟨h, rfl⟩

theorem Yields.get {F : State → Action α} {a : α} (h : Yields counts (F s) s a) :
    Yields counts (MonadState.get >>= F) s a := ⟨h.result, h.bare⟩

theorem Yields.bind_run {f : Action α} {F : α → Action β} {a : α} {b : β} (h : Yields counts f s a)
    (next : Yields counts (F a) (f.run s).2 b) : Yields counts (f >>= F) s b := by
  obtain ⟨hr, hb⟩ := h
  obtain ⟨hr', hb'⟩ := next
  have hrun := Action.run_bind f F (s := s)
  generalize f.run s = x at hr hb hr' hb' hrun
  obtain ⟨r, s'⟩ := x
  cases hr
  constructor
  · rw [hrun]
    exact hr'
  · rw [hrun]
    exact hb'.trans hb

theorem Yields.bind {f : Action α} {F : α → Action β} {a : α} {b : β} (h : Yields counts f s a)
    (next : ∀ s', s'.bare counts = s.bare counts → Yields counts (F a) s' b) : Yields counts (f >>= F) s b :=
  h.bind_run (next _ h.bare)

theorem Yields.debug (tag message : String) : Yields counts (debug tag message) s () := by
  unfold Whereabouts.debug
  refine .get ?_
  split
  · exact ⟨rfl, rfl⟩
  · exact ⟨rfl, rfl⟩

theorem Yields.located {path : Environment → Option Location → Except Failure α} {a : α}
    (h : path s.env s.here = .ok a) : Yields counts (located path) s a :=
  .get (.lift h)

theorem Yields.ensureDir {p : Path} (h : s.tree.Usable s.here p.route) :
    Yields counts (ensureDir p) s p := by
  unfold Whereabouts.ensureDir
  refine .get ?_
  rw [ensurePrivate_of_usable h]
  exact ⟨rfl, rfl⟩

end

/-! ## Building blocks -/

section
variable {α : Type}

theorem agree_warn (hst : Twins host counts s t) (tag message : String) :
    Agree (Twins host counts) (warn tag message) (warn tag message) s t fun _ _ => True := by
  refine .modify (hst.move ⟨rfl, rfl, .refl _⟩ ⟨rfl, rfl, .refl _⟩ rfl rfl ?_) ⟨rfl, rfl, .refl _⟩ trivial
  exact hst.bare

theorem agree_debug (hst : Twins host counts s t) (tag message : String) :
    Agree (Twins host counts) (debug tag message) (debug tag message) s t fun _ _ => True := by
  unfold debug
  refine .get ?_
  rw [hst.verbose]
  split
  · exact agree_warn hst tag message
  · exact .pure hst trivial

theorem agree_located (hst : Twins host counts s t)
    (path : Environment → Option Location → Except Failure α) :
    Agree (Twins host counts) (located path) (located path) s t fun a s' => path s'.env s'.here = .ok a := by
  unfold located
  refine .get ?_
  rw [hst.env, hst.here]
  exact .lift hst fun a ha => ha

theorem agree_returned (hst : Twins host counts s t) (p : Path) (r : Except Failure Unit)
    {Q : Path → State → Prop} : (r = .ok () → Q p s) →
    Agree (Twins host counts) (match r with | .ok () => pure p | .error f => throw f)
      (match r with | .ok () => pure p | .error f => throw f) s t Q := by
  intro h
  cases r with
  | ok _ => exact .pure hst (h rfl)
  | error f => exact .throw hst

theorem agree_ensureDir (hst : Twins host counts s t) (p : Path) :
    Agree (Twins host counts) (ensureDir p) (ensureDir p) s t
      fun q s' => q = p ∧ s'.tree.Usable s'.here p.route := by
  unfold ensureDir
  refine .get ?_
  have hsame : ensurePrivate t.tree t.here p = ensurePrivate s.tree s.here p := by
    rw [hst.tree, hst.here]
  rw [hsame]
  have hgrows := grows_ensurePrivate s.tree s.here p
  have husable : (ensurePrivate s.tree s.here p).result = .ok () → _ := usable_of_ensurePrivate
  generalize ensurePrivate s.tree s.here p = e at hgrows husable
  refine .bind (P := fun _ s' => e.result = .ok () → s'.tree.Usable s'.here p.route)
    (.set (hst.withTree hgrows) ⟨rfl, rfl, hgrows⟩ husable) fun _ s' t' hst' _ hu => ?_
  dsimp only
  split
  · refine .bind (agree_debug hst' _ _) fun _ s'' t'' hst'' he _ => ?_
    exact agree_returned hst'' p e.result fun hr => ⟨rfl, he.usable (hu hr)⟩
  · exact agree_returned hst' p e.result fun hr => ⟨rfl, hu hr⟩

end

theorem Yields.announced {p : Path} (h : s.tree.Usable s.here p.route) (tag message : String) :
    Yields counts (do Whereabouts.debug tag message; Whereabouts.ensureDir p) s p :=
  .bind (.debug tag message) fun _ hs' => .ensureDir ((extends_of_bare hs'.symm).usable h)

theorem agree_announced (hst : Twins host counts s t) (p : Path) (tag message : String) :
    Agree (Twins host counts) (do debug tag message; ensureDir p) (do debug tag message; ensureDir p) s t
      fun q s' => q = p ∧ s'.tree.Usable s'.here p.route :=
  .bind (agree_debug hst tag message) fun _ _ _ hst' _ _ => agree_ensureDir hst' p

/-! ## Directories of the toolchain -/

theorem serves_homeDir : Serves host counts .homeDir
    (do
      let (p, source) ← located (homePath host)
      debug "config" s!"home directory {p} (from {source.text})"
      ensureDir p) (HomeAt host) where
  find hf hk := hf.homeDir _ hk
  store hf hp := { hf with homeDir := fun p h => by cases h; exact hp }
  resource _ _ := rfl
  moves he hp := he.homeAt hp
  again _ hp := by
    obtain ⟨⟨source, hh⟩, hu⟩ := hp
    exact .bind (.located hh) fun s' hs' => .announced ((extends_of_bare hs'.symm).usable hu) _ _
  agree hst := by
    refine .bind (agree_located hst (homePath host)) fun (p, source) s' t' hst' _ hh => ?_
    refine (agree_announced hst' p _ _).mono fun q s'' he hq => ?_
    obtain ⟨rfl, hu⟩ := hq
    refine ⟨⟨source, ?_⟩, hu⟩
    rw [he.env, he.here]
    exact hh

theorem agree_homeDir (hst : Twins host counts s t) :
    Agree (Twins host counts) (homeDir host) (homeDir host) s t (HomeAt host) :=
  serves_homeDir.once hst

theorem serves_configDir : Serves host counts .configDir
    (do
      let p ← located (configPath host)
      debug "config" s!"config directory {p}"
      ensureDir p) (ConfigAt host) where
  find hf hk := hf.configDir _ hk
  store hf hp := { hf with configDir := fun p h => by cases h; exact hp }
  resource _ _ := rfl
  moves he hp := he.configAt hp
  again _ hp := .bind (.located hp.1) fun s' hs' => .announced ((extends_of_bare hs'.symm).usable hp.2) _ _
  agree hst := by
    refine .bind (agree_located hst (configPath host)) fun p s' t' hst' _ hc => ?_
    refine (agree_announced hst' p _ _).mono fun q s'' he hq => ?_
    obtain ⟨rfl, hu⟩ := hq
    refine ⟨?_, hu⟩
    rw [he.env, he.here]
    exact hc

theorem agree_configDir (hst : Twins host counts s t) :
    Agree (Twins host counts) (configDir host) (configDir host) s t (ConfigAt host) :=
  serves_configDir.once hst

theorem serves_cacheRoot : Serves host counts .cacheRoot (located (cacheRootPath host)) (CacheRootAt host) where
  find hf hk := hf.cacheRoot _ hk
  store hf hp := { hf with cacheRoot := fun p h => by cases h; exact hp }
  resource _ _ := rfl
  moves he hp := he.cacheRootAt hp
  again _ hp := .located hp
  agree hst := agree_located hst (cacheRootPath host)

theorem agree_cacheRoot (hst : Twins host counts s t) :
    Agree (Twins host counts) (cacheRoot host) (cacheRoot host) s t (CacheRootAt host) :=
  serves_cacheRoot.once hst

theorem lookup_cons_eq_some {κ ν : Type} [BEq κ] [LawfulBEq κ] {entries : List (κ × ν)} {key key' : κ}
    {value value' : ν} (h : List.lookup key' ((key, value) :: entries) = some value') :
    (key' = key ∧ value' = value) ∨ entries.lookup key' = some value' := by
  rw [List.lookup_cons] at h
  split at h
  · next he => exact .inl ⟨eq_of_beq he, (Option.some.inj h).symm⟩
  · exact .inr h

theorem serves_segmentCacheDir (segment : String) : Serves host counts (.cacheDir segment)
    (do
      let p := (← cacheRoot host) ++ Path.ofString segment
      debug "config" s!"cache directory {p}"
      ensureDir p) (CacheAt host segment) where
  find hf hk := hf.cacheDirs _ _ hk
  store hf hp :=
    { hf with
      cacheDirs := fun seg p h => by
        rcases lookup_cons_eq_some h with ⟨rfl, rfl⟩ | h
        · exact hp
        · exact hf.cacheDirs seg p h }
  resource _ _ := rfl
  moves he hp := he.cacheAt hp
  again hf hp := by
    obtain ⟨root, hr, rfl, hu⟩ := hp
    refine .bind (serves_cacheRoot.yields hf hr) fun s' hs' => ?_
    exact .announced ((extends_of_bare hs'.symm).usable hu) _ _
  agree hst := by
    refine .bind (agree_cacheRoot hst) fun root s' t' hst' _ hr => ?_
    refine (agree_announced hst' _ _ _).mono fun q s'' he hq => ?_
    obtain ⟨rfl, hu⟩ := hq
    exact ⟨root, he.cacheRootAt hr, rfl, hu⟩

theorem agree_segmentCacheDir (hst : Twins host counts s t) (segment : String) :
    Agree (Twins host counts) (segmentCacheDir host segment) (segmentCacheDir host segment) s t
      (CacheAt host segment) :=
  (serves_segmentCacheDir segment).once hst

theorem serves_segmentBinaryDir (segment : String) : Serves host counts (.binaryDir segment)
    (do
      let p := (← segmentCacheDir host segment).child "bin"
      debug "config" s!"binary cache directory {p}"
      ensureDir p) (BinaryAt host segment) where
  find hf hk := hf.binaryDirs _ _ hk
  store hf hp :=
    { hf with
      binaryDirs := fun seg p h => by
        rcases lookup_cons_eq_some h with ⟨rfl, rfl⟩ | h
        · exact hp
        · exact hf.binaryDirs seg p h }
  resource _ _ := rfl
  moves he hp := he.binaryAt hp
  again hf hp := by
    obtain ⟨dir, hd, rfl, hu⟩ := hp
    refine .bind ((serves_segmentCacheDir segment).yields hf hd) fun s' hs' => ?_
    exact .announced ((extends_of_bare hs'.symm).usable hu) _ _
  agree hst := by
    refine .bind (agree_segmentCacheDir hst segment) fun dir s' t' hst' _ hd => ?_
    refine (agree_announced hst' _ _ _).mono fun q s'' he hq => ?_
    obtain ⟨rfl, hu⟩ := hq
    exact ⟨dir, he.cacheAt hd, rfl, hu⟩

theorem agree_segmentBinaryDir (hst : Twins host counts s t) (segment : String) :
    Agree (Twins host counts) (segmentBinaryDir host segment) (segmentBinaryDir host segment) s t
      (BinaryAt host segment) :=
  (serves_segmentBinaryDir segment).once hst

/-! ## The program and its build -/

theorem serves_processPath : Serves host counts .programPath
    (do
      let s ← get
      let p ← ExceptT.mk (pure (programPath host s.tree s.here))
      debug "process" s!"process path {p}"
      pure p) (ProgramAt host) where
  find hf hk := hf.programPath _ hk
  store hf hp := { hf with programPath := fun p h => by cases h; exact hp }
  resource _ _ := rfl
  moves he hp := he.programAt hp
  again _ hp := .get (.bind (.lift hp) fun _ _ => .bind (.debug _ _) fun _ _ => .pure _)
  agree {s t} hst := by
    refine .get ?_
    rw [hst.tree, hst.here]
    refine .bind (P := ProgramAt host) (.lift hst fun p hp => hp) fun p s' t' hst' _ hp => ?_
    exact .bind (agree_debug hst' _ _) fun _ s'' t'' hst'' he _ => .pure hst'' (he.programAt hp)

theorem agree_processPath (hst : Twins host counts s t) :
    Agree (Twins host counts) (processPath host) (processPath host) s t (ProgramAt host) :=
  serves_processPath.once hst

theorem serves_processDir : Serves host counts .programDir
    (do pure (← processPath host).parent) (ProgramDirAt host) where
  find hf hk := hf.programDir _ hk
  store hf hp := { hf with programDir := fun p h => by cases h; exact hp }
  resource _ _ := rfl
  moves he hp := he.programDirAt hp
  again hf hp := by
    obtain ⟨q, hq, rfl⟩ := hp
    exact .bind (serves_processPath.yields hf hq) fun _ _ => .pure _
  agree hst := .bind (agree_processPath hst) fun q _ _ hst' _ hq => .pure hst' ⟨q, hq, rfl⟩

theorem agree_processDir (hst : Twins host counts s t) :
    Agree (Twins host counts) (processDir host) (processDir host) s t (ProgramDirAt host) :=
  serves_processDir.once hst

theorem serves_buildVersion : Serves host counts .buildVersion
    (do pure (buildVersionOf host (← get).env)) (BuildAt host) where
  find hf hk := hf.buildVersion _ hk
  store hf hp := { hf with buildVersion := fun p h => by cases h; exact hp }
  resource _ _ := rfl
  moves he hp := he.buildAt hp
  again _ hp := hp ▸ .get (.pure _)
  agree hst := by
    refine .get ?_
    rw [hst.env]
    exact .pure hst rfl

theorem agree_buildVersion (hst : Twins host counts s t) :
    Agree (Twins host counts) (buildVersion host) (buildVersion host) s t (BuildAt host) :=
  serves_buildVersion.once hst

theorem agree_versionSegment (hst : Twins host counts s t) (version : Option String) :
    Agree (Twins host counts) (versionSegment host version) (versionSegment host version) s t
      (SegmentAt host version) := by
  cases version with
  | some v => exact agree_segmentOrBlank hst v
  | none =>
    refine .bind (agree_buildVersion hst) fun v s' _ hst' _ hv => ?_
    refine (agree_segmentOrBlank hst' v).mono fun segment s'' he hs => ?_
    have hbuild : v = buildVersionOf host s''.env := he.buildAt hv
    rw [hbuild] at hs
    exact hs

theorem agree_cacheDir (hst : Twins host counts s t) (version : Option String) :
    Agree (Twins host counts) (cacheDir host version) (cacheDir host version) s t (CacheOf host version) := by
  refine .bind (agree_versionSegment hst version) fun segment _ _ hst' _ hs => ?_
  exact (agree_segmentCacheDir hst' segment).mono fun _ _ he hp => ⟨segment, he.segmentAt hs, hp⟩

theorem agree_binaryCacheDir (hst : Twins host counts s t) (version : Option String) :
    Agree (Twins host counts) (binaryCacheDir host version) (binaryCacheDir host version) s t
      (BinariesOf host version) := by
  refine .bind (agree_versionSegment hst version) fun segment _ _ hst' _ hs => ?_
  exact (agree_segmentBinaryDir hst' segment).mono fun _ _ he hp => ⟨segment, he.segmentAt hs, hp⟩

/-! ## Versions found again -/

theorem yields_segmentOrBlank {v segment : String} (h : versionSegment? v = some segment) :
    Yields counts (segmentOrBlank v) s segment := by
  unfold segmentOrBlank
  rw [h]
  exact .pure segment

theorem yields_versionSegment (hf : Faithful host s) {version : Option String} {segment : String}
    (h : SegmentAt host version segment s) : Yields counts (versionSegment host version) s segment := by
  cases version with
  | some v => exact yields_segmentOrBlank h
  | none =>
    have hbuild : BuildAt host (buildVersionOf host s.env) s := rfl
    -- the end of the lookup by its name: matched as it is written, the version would be unfolded
    show Yields counts (buildVersion host >>= segmentOrBlank) s segment
    exact .bind (serves_buildVersion.yields hf hbuild) fun _ _ => yields_segmentOrBlank h

/-- The cache of a version is found again. -/
theorem yields_cacheDir (hf : Faithful host s) {version : Option String} {p : Path} (h : CacheOf host version p s) :
    Yields counts (cacheDir host version) s p := by
  obtain ⟨segment, hs, hp⟩ := h
  have hy : Yields counts (versionSegment host version) s segment := yields_versionSegment hf hs
  have hagree : Agree (Twins host counts) (versionSegment host version) (versionSegment host version) s s
      (SegmentAt host version) := agree_versionSegment (.refl hf) version
  have hp' : CacheAt host segment p ((versionSegment host version).run s).2 := hagree.grown.cacheAt hp
  exact hy.bind_run ((serves_segmentCacheDir segment).yields hagree.related.left hp')

/-! ## System flags -/

theorem serves_sdkPath : Serves host counts .sdkPath
    (do
      match (← get).env.value? "SDKROOT" with
      | some path => pure (some path)
      | none =>
        modify fun s => { s with sdkRuns := s.sdkRuns + 1 }
        match host.sdkTool.output with
        | .ok output => pure (sdkPathOf output)
        | .error why =>
          debug "flags" s!"xcrun failed: {why}"
          pure none) (SdkAt host) where
  find hf hk := hf.sdkPath _ hk
  store hf hp := { hf with sdkPath := fun p h => by cases h; exact hp }
  resource _ _ := rfl
  moves he hp := he.sdkAt hp
  again {s path} _ hp := by
    unfold SdkAt freshSdkPath at hp
    refine .get ?_
    split
    · next hv =>
      rw [hv] at hp
      exact hp ▸ .pure _
    · next hv =>
      rw [hv] at hp
      refine .bind (a := ()) ⟨rfl, rfl⟩ fun s' _ => ?_
      split
      · next ho =>
        rw [ho] at hp
        exact hp ▸ .pure _
      · next ho =>
        rw [ho] at hp
        exact .bind (.debug _ _) fun _ _ => hp ▸ .pure _
  agree {s t} hst := by
    refine .get ?_
    rw [hst.env]
    cases hv : s.env.value? "SDKROOT" with
    | some path =>
      refine .pure hst ?_
      unfold SdkAt freshSdkPath
      rw [hv]
    | none =>
      have hst' : Twins host counts { s with sdkRuns := s.sdkRuns + 1 } { t with sdkRuns := t.sdkRuns + 1 } :=
        hst.move ⟨rfl, rfl, .refl _⟩ ⟨rfl, rfl, .refl _⟩ rfl rfl hst.bare
      refine .bind (P := fun _ _ => True) (.modify hst' ⟨rfl, rfl, .refl _⟩ trivial) fun _ s' t' hst' he _ => ?_
      cases ho : host.sdkTool.output with
      | ok output =>
        refine .pure hst' (he.sdkAt ?_)
        unfold SdkAt freshSdkPath
        rw [hv, ho]
      | error why =>
        refine .bind (agree_debug hst' _ _) fun _ s'' t'' hst'' he' _ => .pure hst'' (he'.sdkAt (he.sdkAt ?_))
        unfold SdkAt freshSdkPath
        rw [hv, ho]

theorem agree_sdkPath (hst : Twins host counts s t) :
    Agree (Twins host counts) (sdkPath host) (sdkPath host) s t (SdkAt host) :=
  serves_sdkPath.once hst

theorem agree_systemFlags (hst : Twins host counts s t) :
    Agree (Twins host counts) (systemFlags host) (systemFlags host) s t fun _ _ => True := by
  unfold systemFlags
  split
  · refine .bind (agree_sdkPath hst) fun path _ _ hst' _ _ => ?_
    cases path with
    | some path => exact .pure hst' trivial
    | none => exact .bind (agree_warn hst' _ _) fun _ _ _ hst'' _ _ => .pure hst'' trivial
  · exact .pure hst trivial

theorem agree_addSystemFlags (hst : Twins host counts s t) (args : List String) :
    Agree (Twins host counts) (addSystemFlags host args) (addSystemFlags host args) s t fun _ _ => True :=
  .bind (agree_systemFlags hst) fun _ _ _ hst' _ _ => .pure hst' trivial

/-! ## Resources -/

theorem agree_resourceCandidates (hst : Twins host counts s t) :
    Agree (Twins host counts) (resourceCandidates host) (resourceCandidates host) s t fun _ _ => True := by
  unfold resourceCandidates
  refine .get ?_
  dsimp only
  rw [hst.env]
  cases s.env.value? "JANK_RESOURCE_DIR" with
  | some raw =>
    dsimp only
    split
    · exact .pure hst trivial
    · exact .bind (agree_processDir hst) fun _ _ _ hst' _ _ => .pure hst' trivial
  | none =>
    refine .bind (P := fun _ _ => True) (.tryCatch ?_ fun f s' t' hst' _ => ?_) fun _ _ _ hst' _ _ =>
      .pure hst' trivial
    · exact .map (agree_processDir hst) fun _ _ _ => trivial
    · split
      · exact .bind (agree_debug hst' _ _) fun _ _ _ hst'' _ _ => .pure hst'' trivial
      · exact .throw hst'

theorem isDirectory_of_firstDirectory {t : FileTree} {here : Option Location} {p : Path}
    {source : ResourceSource} {candidates : List (Path × ResourceSource)}
    (h : firstDirectory t here candidates = .ok (some (p, source))) : t.isDirectory here p.route = .ok true := by
  induction candidates with
  | nil => cases h
  | cons c rest ih =>
    obtain ⟨q, src⟩ := c
    unfold firstDirectory at h
    split at h
    · next hd =>
      cases h
      exact hd
    · exact ih h
    · cases h

theorem canonical_of_canonicalDir {t : FileTree} {here : Option Location} {p q : Path}
    (h : canonicalDir t here p = .ok q) : t.canonical here p = .ok q := by
  unfold canonicalDir at h
  split at h
  · next hc =>
    cases h
    exact hc
  · cases h
  · cases h

/-- The resource directory is served only to states that keep the same one. -/
theorem agree_resourceDir (hst : Twins host true s t) :
    Agree (Twins host true) (resourceDir host) (resourceDir host) s t ResourceAt := by
  unfold resourceDir
  cases hs : s.kept.resourceDir with
  | some p =>
    have ht : t.kept.resourceDir = some p := hst.resourceDir.trans hs
    exact .of_runs (run_once_some hs) (run_once_some ht) hst (.refl s) (hst.left.resourceDir p hs)
  | none =>
    have ht : t.kept.resourceDir = none := hst.resourceDir.trans hs
    refine .after (run_once_none hs) (run_once_none ht) (.refl s) (.bind (P := ResourceAt) ?_ ?_)
    · refine .bind (agree_resourceCandidates hst) fun candidates s' t' hst' _ _ => .get ?_
      rw [hst'.tree, hst'.here]
      refine .bind (P := fun found _ => firstDirectory s'.tree s'.here candidates = .ok found)
        (.lift hst' fun _ hd => hd) fun found s'' t'' hst'' he hd => ?_
      cases found with
      | none => exact .throw hst''
      | some found =>
        obtain ⟨q, source⟩ := found
        have hq : ∀ p, canonicalDir s'.tree s'.here q = .ok p → ResourceAt p s' := fun p hc =>
          ⟨q, isDirectory_of_firstDirectory hd, canonical_of_canonicalDir hc⟩
        refine .bind (.lift hst'' fun p hc => he.resourceAt (hq p hc)) fun p s₃ t₃ hst₃ _ hp => ?_
        exact .bind (agree_debug hst₃ _ _) fun _ _ _ hst₄ he' _ => .pure hst₄ (he'.resourceAt hp)
    · intro p s' t' hst' _ hp
      refine .bind (P := fun _ => ResourceAt p) (.modify ?_ ⟨rfl, rfl, .refl _⟩ hp)
        fun _ _ _ hst'' _ hp' => .pure hst'' hp'
      refine ⟨?_, ?_, ?_⟩
      · exact congrArg (fun b : State => { b with kept := { b.kept with resourceDir := some p } }) hst'.bare
      · exact { hst'.left with resourceDir := fun q h => by cases h; exact hp }
      · exact { hst'.right with resourceDir := fun q h => by cases h; exact hst'.extends.resourceAt hp }

end Whereabouts

import Whereabouts.Proofs.Environment
import Whereabouts.Proofs.Session.Calls
import Whereabouts.Proofs.Session.Directories
import Whereabouts.Proofs.Session.Keeping

/-!
# What calls do not read

`Unread host tildes R`: states that `R` relates differ only in what no call reads, and what calls do keeps
them related. They answer every call alike (`agree_unread`).
-/

namespace Whereabouts

open FileTree

/-- The change neither reads nor touches the environment, the logger and the log. -/
def Aside (c : State → State) : Prop :=
  ∀ (u : State) env logger log, c { u with env := env, toLogger := logger, log := log } =
    { c u with env := env, toLogger := logger, log := log }

theorem Aside.same {c : State → State} (hc : Aside c) (u : State) :
    (c u).env = u.env ∧ (c u).toLogger = u.toLogger ∧ (c u).log = u.log := by
  have henv := congrArg State.env (hc u u.env u.toLogger u.log)
  have hlogger := congrArg State.toLogger (hc u u.env u.toLogger u.log)
  have hlog := congrArg State.log (hc u u.env u.toLogger u.log)
  exact ⟨henv, hlogger, hlog⟩

theorem aside_store {α : Type} (slot : Slot α) (a : α) :
    Aside fun u => { u with kept := slot.store u.kept a } := fun _ _ _ _ => rfl

/-- What a lookup that begins in the state stores in its slot. -/
inductive Slot.StoresFrom (host : Host) (s : State) : {α : Type} → Slot α → α → Prop where
  | homeDir {p : Path} {source : HomeSource} (h : homePath host s.env s.here = .ok (p, source)) :
      StoresFrom host s .homeDir p
  | configDir {p : Path} (h : configPath host s.env s.here = .ok p) : StoresFrom host s .configDir p
  | cacheRoot {p : Path} (h : cacheRootPath host s.env s.here = .ok p) : StoresFrom host s .cacheRoot p
  | cacheDir {segment : String} {root : Path} (h : cacheRootIn host s = .ok root) :
      StoresFrom host s (.cacheDir segment) (root ++ Path.ofString segment)
  | binaryDir {segment : String} {dir : Path} (h : (segmentDirIn host s segment).1 = .ok dir) :
      StoresFrom host s (.binaryDir segment) (dir.child "bin")
  | resourceDir (p : Path) : StoresFrom host s .resourceDir p
  | programPath (p : Path) : StoresFrom host s .programPath p
  | programDir (p : Path) : StoresFrom host s .programDir p
  | buildVersion : StoresFrom host s .buildVersion (buildVersionOf host s.env)
  | sdkPath : StoresFrom host s .sdkPath (freshSdkPath host s.env)

namespace Slot.StoresFrom

variable {host : Host} {s : State} {α : Type} {slot : Slot α} {a : α} {k : Kept}

/-- A version that comes into the table is the one of the state. -/
theorem buildVersion_cases (h : slot.StoresFrom host s a) {v : String} (hv : (slot.store k a).buildVersion = some v) :
    k.buildVersion = some v ∨ v = buildVersionOf host s.env := by
  cases h with
  | buildVersion => exact .inr (Option.some.inj hv).symm
  | _ => exact .inl hv

/-- An SDK's path that comes into the table is the one of the state. -/
theorem sdkPath_cases (h : slot.StoresFrom host s a) {p : Option String} (hp : (slot.store k a).sdkPath = some p) :
    k.sdkPath = some p ∨ p = freshSdkPath host s.env := by
  cases h with
  | sdkPath => exact .inr (Option.some.inj hp).symm
  | _ => exact .inl hp

end Slot.StoresFrom

structure Unread (host : Host) (tildes : Bool) (R : State → State → Prop) : Prop where
  env : ∀ {s t}, R s t → ReadAlike host tildes s.env t.env
  tree : ∀ {s t}, R s t → t.tree = s.tree
  here : ∀ {s t}, R s t → t.here = s.here
  kept : ∀ {s t}, R s t → t.kept = s.kept
  tempDir : ∀ {s t}, R s t → t.tempDir = s.tempDir
  tempTried : ∀ {s t}, R s t → t.tempTried = s.tempTried
  changed : ∀ {s t} {c : State → State}, R s t → Aside c → (∀ u, (c u).kept = u.kept) →
    (∀ u, (c u).tempDir = u.tempDir) → (∀ u, (c u).here = u.here) → R (c s) (c t)
  /-- A directory for temporary files that was found. -/
  found : ∀ {s t}, R s t → ∀ dir, holdsFiles s.tree s.here dir = true →
    R { s with tempDir := some dir } { t with tempDir := some dir }
  /-- The value of a slot that was empty when its lookup began. -/
  stored : ∀ {α : Type} {slot : Slot α}, slot.Lawful → ∀ {s₀ t₀ s t}, R s₀ t₀ → slot.find s₀.kept = none →
    R s t → ∀ a, slot.StoresFrom host s₀ a →
      R { s with kept := slot.store s.kept a } { t with kept := slot.store t.kept a }
  warned : ∀ {s t}, R s t → ∀ text,
    R { s with log := s.log ++ s.written text } { t with log := t.log ++ t.written text }
  debugged : ∀ {s t}, R s t → ∀ text,
    R { s with log := if s.verbose then s.log ++ s.written text else s.log }
      { t with log := if t.verbose then t.log ++ t.written text else t.log }

variable {host : Host} {tildes : Bool} {R : State → State → Prop} {s t : State} {α : Type}

namespace Unread

theorem withTree (hR : Unread host tildes R) (hst : R s t) (tree : FileTree) :
    R { s with tree := tree } { t with tree := tree } :=
  hR.changed (c := ({ · with tree := tree })) hst (fun _ _ _ _ => rfl) (fun _ => rfl) (fun _ => rfl) fun _ => rfl

theorem withTempTried (hR : Unread host tildes R) (hst : R s t) (tried : Nat) :
    R { s with tempTried := tried } { t with tempTried := tried } :=
  hR.changed (c := ({ · with tempTried := tried })) hst (fun _ _ _ _ => rfl) (fun _ => rfl) (fun _ => rfl) fun _ => rfl

theorem countedRun (hR : Unread host tildes R) (hst : R s t) :
    R { s with sdkRuns := s.sdkRuns + 1 } { t with sdkRuns := t.sdkRuns + 1 } :=
  hR.changed (c := fun u => { u with sdkRuns := u.sdkRuns + 1 }) hst (fun _ _ _ _ => rfl) (fun _ => rfl)
    (fun _ => rfl) fun _ => rfl

end Unread

/-! ## Building blocks -/

theorem run_warn (tag message : String) (s : State) :
    (warn tag message).run s = (.ok (), { s with log := s.log ++ s.written s!"[{tag}] {message}" }) := rfl

theorem unread_warn (hR : Unread host tildes R) (hst : R s t) (tag message : String) :
    Agree R (warn tag message) (warn tag message) s t fun _ _ => True :=
  .of_runs (run_warn tag message s) (run_warn tag message t) (hR.warned hst _) ⟨rfl, rfl, .refl _⟩ trivial

theorem unread_debug (hR : Unread host tildes R) (hst : R s t) (tag message : String) :
    Agree R (debug tag message) (debug tag message) s t fun _ _ => True :=
  .of_runs (run_debug tag message s) (run_debug tag message t) (hR.debugged hst _) ⟨rfl, rfl, .refl _⟩ trivial

theorem unread_located (hR : Unread host tildes R) (hst : R s t)
    {path : Environment → Option Location → Except Failure α}
    (hpath : ∀ {env}, ReadAlike host tildes s.env env → path env s.here = path s.env s.here) :
    Agree R (located path) (located path) s t fun _ _ => True := by
  unfold located
  refine .get ?_
  rw [hR.here hst, hpath (hR.env hst)]
  exact .lift hst fun _ _ => trivial

theorem unread_ensureDir (hR : Unread host tildes R) (hst : R s t) (p : Path) :
    Agree R (ensureDir p) (ensureDir p) s t fun _ _ => True := by
  unfold ensureDir
  refine .get ?_
  have hsame : ensurePrivate t.tree t.here p = ensurePrivate s.tree s.here p := by rw [hR.tree hst, hR.here hst]
  rw [hsame]
  have hgrows := grows_ensurePrivate s.tree s.here p
  generalize ensurePrivate s.tree s.here p = e at hgrows
  refine .bind (P := fun _ _ => True) (.set (hR.withTree hst e.tree) ⟨rfl, rfl, hgrows⟩ trivial)
    fun _ s' t' hst' _ _ => ?_
  dsimp only
  cases e.result with
  | ok u =>
    split
    · exact .bind (unread_debug hR hst' _ _) fun _ _ _ hst'' _ _ => .pure hst'' trivial
    · exact .pure hst' trivial
  | error f =>
    split
    · exact .bind (unread_debug hR hst' _ _) fun _ _ _ hst'' _ _ => .throw hst''
    · exact .throw hst'

theorem unread_once (hR : Unread host tildes R) {slot : Slot α} (hslot : slot.Lawful) {f : Action α}
    {P : α → State → Prop} (hst : R s t) (hf : Agree R f f s t P)
    (hP : slot.find s.kept = none → ∀ a s', P a s' → slot.StoresFrom host s a) :
    Agree R (once slot f) (once slot f) s t fun _ _ => True := by
  cases hs : slot.find s.kept with
  | some a => exact .of_runs (run_once_some hs) (run_once_some (hR.kept hst ▸ hs)) hst (.refl s) trivial
  | none =>
    refine .after (run_once_none hs) (run_once_none (hR.kept hst ▸ hs)) (.refl s) (.bind hf fun a s' t' hst' _ ha => ?_)
    have hstored := hR.stored hslot hst hs hst' a (hP hs a s' ha)
    exact .bind (P := fun _ _ => True) (.modify hstored ⟨rfl, rfl, .refl _⟩ trivial) fun _ _ _ hst'' _ _ =>
      .pure hst'' trivial

theorem result_once {slot : Slot α} {f : Action α} {a : α} (hs : slot.find s.kept = none)
    (h : (f.run s).1 = .ok a) : ((once slot f).run s).1 = .ok a := by
  rw [run_once_none hs, keep, Action.run_bind]
  generalize f.run s = x at h
  obtain ⟨r, s'⟩ := x
  obtain rfl : r = .ok a := h
  rfl

/-- A lookup whose finding is known stores what it finds. -/
theorem unread_found (hR : Unread host tildes R) {slot : Slot Path} (hslot : slot.Lawful) {f : Action Path}
    {P : Path → State → Prop} {found : Finding} (hst : R s t) (hf : Agree R f f s t P)
    (hfinds : Finds (once slot f) s found)
    (hP : slot.find s.kept = none → ∀ p, found.1 = .ok p → slot.StoresFrom host s p) :
    Agree R (once slot f) (once slot f) s t fun _ _ => True := by
  obtain ⟨kept, log, hrun⟩ := hfinds
  have hends : Agree R f f s t fun p _ => (f.run s).1 = .ok p := ⟨hf.result, hf.related, hf.grown, fun _ hp => hp⟩
  refine unread_once hR hslot hst hends fun hs p _ hp => hP hs p ?_
  have hresult := result_once hs hp
  rw [hrun] at hresult
  exact hresult

theorem unread_announced (hR : Unread host tildes R) (hst : R s t) (p : Path) (tag message : String) :
    Agree R (do debug tag message; ensureDir p) (do debug tag message; ensureDir p) s t
      fun _ _ => True :=
  .bind (unread_debug hR hst tag message) fun _ _ _ hst' _ _ => unread_ensureDir hR hst' p

/-! ## Directories -/

theorem unread_homeDir (hR : Unread host tildes R) (hst : R s t) :
    Agree R (homeDir host) (homeDir host) s t fun _ _ => True := by
  refine unread_found hR Slot.lawful_homeDir hst (.bind (unread_located hR hst fun he => he.homePath)
    fun _ _ _ hst' _ _ => unread_announced hR hst' _ _ _) finds_homeDir fun hk p hp => ?_
  obtain ⟨x, hx, rfl⟩ := exists_of_map_ok (found_of_keptOr hk hp)
  exact .homeDir hx

theorem unread_configDir (hR : Unread host tildes R) (hst : R s t) :
    Agree R (configDir host) (configDir host) s t fun _ _ => True := by
  refine unread_found hR Slot.lawful_configDir hst (.bind (unread_located hR hst fun he => he.configPath)
    fun _ _ _ hst' _ _ => unread_announced hR hst' _ _ _) finds_configDir fun hk p hp => ?_
  exact .configDir (found_of_keptOr hk hp)

theorem unread_cacheRoot (hR : Unread host tildes R) (hst : R s t) :
    Agree R (cacheRoot host) (cacheRoot host) s t fun _ _ => True := by
  refine unread_found hR Slot.lawful_cacheRoot hst (unread_located hR hst fun he => he.cacheRootPath) finds_cacheRoot
    fun hk p hp => ?_
  unfold cacheRootIn at hp
  rw [show s.kept.cacheRoot = none from hk] at hp
  exact .cacheRoot hp

theorem unread_segmentCacheDir (hR : Unread host tildes R) (hst : R s t) (segment : String) :
    Agree R (segmentCacheDir host segment) (segmentCacheDir host segment) s t fun _ _ => True := by
  refine unread_found hR (Slot.lawful_cacheDir segment) hst (.bind (unread_cacheRoot hR hst)
    fun _ _ _ hst' _ _ => unread_announced hR hst' _ _ _) (finds_segmentCacheDir host segment s) fun hk p hp => ?_
  obtain ⟨root, hr, rfl⟩ := exists_of_map_ok (found_of_keptOr hk hp)
  exact .cacheDir hr

theorem unread_segmentBinaryDir (hR : Unread host tildes R) (hst : R s t) (segment : String) :
    Agree R (segmentBinaryDir host segment) (segmentBinaryDir host segment) s t fun _ _ => True := by
  refine unread_found hR (Slot.lawful_binaryDir segment) hst (.bind (unread_segmentCacheDir hR hst segment)
    fun _ _ _ hst' _ _ => unread_announced hR hst' _ _ _) (finds_segmentBinaryDir host segment s) fun hk p hp => ?_
  obtain ⟨dir, hd, rfl⟩ := exists_of_map_ok (found_of_keptOr hk hp)
  exact .binaryDir hd

/-! ## The program and its build -/

theorem unread_processPath (hR : Unread host tildes R) (hst : R s t) :
    Agree R (processPath host) (processPath host) s t fun _ _ => True := by
  refine unread_once (P := fun _ _ => True) hR Slot.lawful_programPath hst (.get ?_) fun _ p _ _ => .programPath p
  rw [hR.tree hst, hR.here hst]
  refine .bind (P := fun _ _ => True) (.lift hst fun _ _ => trivial) fun p _ _ hst' _ _ => ?_
  exact .bind (unread_debug hR hst' _ _) fun _ _ _ hst'' _ _ => .pure hst'' trivial

theorem unread_processDir (hR : Unread host tildes R) (hst : R s t) :
    Agree R (processDir host) (processDir host) s t fun _ _ => True :=
  unread_once (P := fun _ _ => True) hR Slot.lawful_programDir hst
    (.bind (unread_processPath hR hst) fun _ _ _ hst' _ _ => .pure hst' trivial) fun _ p _ _ => .programDir p

theorem unread_buildVersion (hR : Unread host tildes R) (hst : R s t) :
    Agree R (buildVersion host) (buildVersion host) s t fun _ _ => True := by
  refine unread_once (P := fun v _ => v = buildVersionOf host s.env) hR Slot.lawful_buildVersion hst (.get ?_) ?_
  · rw [(hR.env hst).buildVersionOf]
    exact .pure hst rfl
  · rintro - _ _ rfl
    exact .buildVersion

theorem unread_versionSegment (hR : Unread host tildes R) (hst : R s t) (version : Option String) :
    Agree R (versionSegment host version) (versionSegment host version) s t fun _ _ => True := by
  have hfound : ∀ v {s t}, R s t →
      Agree R (segmentOrBlank v) (segmentOrBlank v) s t fun _ _ => True :=
    fun v _ _ hst => (agree_segmentOrBlank hst v).mono fun _ _ _ _ => trivial
  cases version with
  | some v => exact hfound v hst
  | none => exact .bind (unread_buildVersion hR hst) fun v _ _ hst' _ _ => hfound v hst'

theorem unread_cacheDir (hR : Unread host tildes R) (hst : R s t) (version : Option String) :
    Agree R (cacheDir host version) (cacheDir host version) s t fun _ _ => True :=
  .bind (unread_versionSegment hR hst version) fun segment _ _ hst' _ _ => unread_segmentCacheDir hR hst' segment

theorem unread_binaryCacheDir (hR : Unread host tildes R) (hst : R s t) (version : Option String) :
    Agree R (binaryCacheDir host version) (binaryCacheDir host version) s t fun _ _ => True :=
  .bind (unread_versionSegment hR hst version) fun segment _ _ hst' _ _ => unread_segmentBinaryDir hR hst' segment

/-! ## System flags -/

theorem unread_sdkPath (hR : Unread host tildes R) (hst : R s t) :
    Agree R (sdkPath host) (sdkPath host) s t fun _ _ => True := by
  refine unread_once (P := fun p _ => p = freshSdkPath host s.env) hR Slot.lawful_sdkPath hst (.get ?_) ?_
  · rw [(hR.env hst).value]
    unfold freshSdkPath
    cases s.env.value? "SDKROOT" with
    | some path => exact .pure hst rfl
    | none =>
      refine .bind (P := fun _ _ => True) (.modify (hR.countedRun hst) ⟨rfl, rfl, .refl _⟩ trivial)
        fun _ _ _ hst' _ _ => ?_
      cases host.sdkTool.output with
      | ok output => exact .pure hst' rfl
      | error why => exact .bind (unread_debug hR hst' _ _) fun _ _ _ hst'' _ _ => .pure hst'' rfl
  · rintro - _ _ rfl
    exact .sdkPath

theorem unread_addSystemFlags (hR : Unread host tildes R) (hst : R s t) (args : List String) :
    Agree R (addSystemFlags host args) (addSystemFlags host args) s t fun _ _ => True := by
  have hflags : Agree R (systemFlags host) (systemFlags host) s t fun _ _ => True := by
    unfold systemFlags
    split
    · refine .bind (unread_sdkPath hR hst) fun path _ _ hst' _ _ => ?_
      cases path with
      | some path => exact .pure hst' trivial
      | none => exact .bind (unread_warn hR hst' _ _) fun _ _ _ hst'' _ _ => .pure hst'' trivial
    · exact .pure hst trivial
  exact .bind hflags fun _ _ _ hst' _ _ => .pure hst' trivial

/-! ## Resources -/

theorem unread_resourceCandidates (hR : Unread host tildes R) (hst : R s t) :
    Agree R (resourceCandidates host) (resourceCandidates host) s t fun _ _ => True := by
  unfold resourceCandidates
  refine .get ?_
  dsimp only
  rw [(hR.env hst).value]
  cases hv : s.env.value? "JANK_RESOURCE_DIR" with
  | some raw =>
    dsimp only
    rw [(hR.env hst).expandTilde fun ht => ht.vars _ (by simp [expandedVars]) _ hv]
    split
    · exact .pure hst trivial
    · exact .bind (unread_processDir hR hst) fun _ _ _ hst' _ _ => .pure hst' trivial
  | none =>
    refine .bind (P := fun _ _ => True) (.tryCatch ?_ fun f s' t' hst' _ => ?_) fun _ _ _ hst' _ _ =>
      .pure hst' trivial
    · exact .map (unread_processDir hR hst) fun _ _ _ => trivial
    · split
      · exact .bind (unread_debug hR hst' _ _) fun _ _ _ hst'' _ _ => .pure hst'' trivial
      · exact .throw hst'

theorem unread_resourceDir (hR : Unread host tildes R) (hst : R s t) :
    Agree R (resourceDir host) (resourceDir host) s t fun _ _ => True := by
  refine unread_once (P := fun _ _ => True) hR Slot.lawful_resourceDir hst
    (.bind (unread_resourceCandidates hR hst) fun candidates s' t' hst' _ _ => .get ?_) fun _ p _ _ => .resourceDir p
  rw [hR.tree hst', hR.here hst']
  refine .bind (P := fun _ _ => True) (.lift hst' fun _ _ => trivial) fun found _ _ hst'' _ _ => ?_
  cases found with
  | none => exact .throw hst''
  | some found =>
    refine .bind (P := fun _ _ => True) (.lift hst'' fun _ _ => trivial) fun q _ _ hst₃ _ _ => ?_
    exact .bind (unread_debug hR hst₃ _ _) fun _ _ _ hst₄ _ _ => .pure hst₄ trivial

/-! ## Temporary files -/

theorem firstTempDir_ok {tree : FileTree} {here : Option Location} {candidates : List String} {dir : String}
    (h : firstTempDir tree here candidates = .ok (some dir)) : holdsFiles tree here dir = true := by
  induction candidates with
  | nil => cases h
  | cons candidate rest ih =>
    unfold firstTempDir at h
    cases hd : tempDirPath here candidate with
    | error f =>
      rw [hd] at h
      cases h
    | ok d =>
      rw [hd] at h
      by_cases hf : holdsFiles tree here d = true
      · simp only [bind, Except.bind, hf, if_true, pure, Except.pure] at h
        cases h
        exact hf
      · simp only [bind, Except.bind, hf] at h
        exact ih h

theorem unread_tempDir (hR : Unread host tildes R) (hst : R s t) (start : String) :
    Agree R (tempDir start) (tempDir start) s t fun _ _ => True := by
  unfold tempDir
  refine .get ?_
  rw [hR.tempDir hst]
  cases s.tempDir with
  | some dir => exact .pure hst trivial
  | none =>
    have hcandidates : tempDirCandidates t.env t.here = tempDirCandidates s.env s.here := by
      rw [hR.here hst, (hR.env hst).tempDirCandidates]
    have hdir : ∀ cs, firstTempDir t.tree t.here cs = firstTempDir s.tree s.here cs := fun cs => by
      rw [hR.tree hst, hR.here hst]
    dsimp only
    rw [hcandidates, hdir]
    split
    · exact .throw hst
    · exact .throw hst
    · next dir hf =>
      have hst' := hR.found hst dir (firstTempDir_ok hf)
      exact .bind (P := fun _ _ => True) (.set hst' ⟨rfl, rfl, .refl _⟩ trivial) fun _ _ _ hst'' _ _ =>
        .pure hst'' trivial

theorem unread_fileIn (hR : Unread host tildes R) (hst : R s t) (start dir : String) (close : Option CloseFault) :
    Agree R (fileIn host start close s dir) (fileIn host start close t dir) s t fun _ _ => True := by
  unfold fileIn
  have hsame : tempFileName host t.tree t.here dir start host.tempAttempts t.tempTried =
      tempFileName host s.tree s.here dir start host.tempAttempts s.tempTried := by
    rw [hR.tree hst, hR.here hst, hR.tempTried hst]
  rw [hsame]
  cases hm : tempFileName host s.tree s.here dir start host.tempAttempts s.tempTried with
  | mk made tried =>
    have hst' := hR.withTempTried hst tried
    refine .bind (P := fun _ s' => s'.tree = s.tree) (.set hst' ⟨rfl, rfl, .refl _⟩ rfl)
      fun _ s' t' hst' _ htree => ?_
    split
    · exact .throw hst'
    · exact .throw hst'
    · next tree file =>
      cases close with
      | some fault => exact .throw hst'
      | none =>
        obtain ⟨n, -, hfile⟩ := tempFileName_ok hm
        have hgrows : Grows s'.tree tree := htree ▸ grows_makeFile hfile
        refine .bind (P := fun _ _ => True) (.modify (hR.withTree hst' tree) ⟨rfl, rfl, hgrows⟩ trivial)
          fun _ _ _ hst'' _ _ => ?_
        rw [hR.here hst]
        refine .bind (P := fun _ _ => True) (.lift hst'' fun _ _ => trivial) fun p _ _ hst₃ _ _ => ?_
        exact .bind (unread_debug hR hst₃ _ _) fun _ _ _ hst₄ _ _ => .pure hst₄ trivial

theorem unread_fileFrom (hR : Unread host tildes R) (hst : R s t) (start : String) (close : Option CloseFault) :
    Agree R (fileFrom host start close) (fileFrom host start close) s t fun _ _ => True := by
  unfold fileFrom
  split
  · exact .throw_bind hst
  · refine .bind (unread_tempDir hR hst start) fun dir s' t' hst' _ _ => .get ?_
    rw [hR.here hst']
    cases fromHere s'.here (Path.ofString dir) with
    | error f => exact .throw hst'
    | ok q => exact unread_fileIn hR hst' start _ close

theorem unread_makeTempFile (hR : Unread host tildes R) (hst : R s t) (start : String) (close : Option CloseFault) :
    Agree R (makeTempFile host start close) (makeTempFile host start close) s t fun _ _ => True := by
  rw [makeTempFile_eq]
  dsimp only
  split
  · refine .bind (P := fun _ _ => True) ?_ fun _ _ _ hst' _ _ => unread_fileFrom hR hst' start close
    refine .tryCatch (.map (unread_tempDir hR hst start) fun _ _ _ => trivial) fun _ _ _ hst' _ => ?_
    exact .pure hst' trivial
  · exact unread_fileFrom hR hst start close

/-! ## Calls -/

/-- Related states answer every call alike and stay related. -/
theorem agree_unread (hR : Unread host tildes R) (c : Call) (hst : R s t) :
    Agree R (c.action host) (c.action host) s t fun _ _ => True := by
  cases c with
  | homeDir => exact .map (unread_homeDir hR hst) fun _ _ h => h
  | configDir => exact .map (unread_configDir hR hst) fun _ _ h => h
  | cacheRoot => exact .map (unread_cacheRoot hR hst) fun _ _ h => h
  | cacheDir version => exact .map (unread_cacheDir hR hst version) fun _ _ h => h
  | binaryCacheDir version => exact .map (unread_binaryCacheDir hR hst version) fun _ _ h => h
  | resourceDir => exact .map (unread_resourceDir hR hst) fun _ _ h => h
  | processPath => exact .map (unread_processPath hR hst) fun _ _ h => h
  | processDir => exact .map (unread_processDir hR hst) fun _ _ h => h
  | buildVersion => exact .map (unread_buildVersion hR hst) fun _ _ h => h
  | versionSegment version => exact .map (unread_versionSegment hR hst version) fun _ _ h => h
  | sdkPath => exact .map (unread_sdkPath hR hst) fun _ _ h => h
  | addSystemFlags args => exact .map (unread_addSystemFlags hR hst args) fun _ _ h => h
  | makeTempFile start close => exact .map (unread_makeTempFile hR hst start close) fun _ _ h => h
  | ensureDir path => exact .map (unread_ensureDir hR hst path) fun _ _ h => h
  | targetTriple | profile | homeFromAccounts => exact .pure hst trivial
  | envVar name =>
    refine .get ?_
    have hvalue : t.env.value? = s.env.value? := funext (hR.env hst).value
    dsimp only
    rw [hvalue]
    exact .pure hst trivial
  | homeFromEnv profile =>
    refine .get ?_
    dsimp only
    rw [(hR.env hst).homeFromEnv]
    exact .pure hst trivial
  | executablePath profile =>
    refine .get ?_
    rw [hR.tree hst, hR.here hst]
    split
    · exact .pure hst trivial
    · exact .throw hst

end Whereabouts

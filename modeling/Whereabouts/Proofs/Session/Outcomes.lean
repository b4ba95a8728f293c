import Whereabouts.Proofs.Executable
import Whereabouts.Proofs.FileTree.Failing
import Whereabouts.Proofs.Home
import Whereabouts.Proofs.Session.Directories
import Whereabouts.Session.TempFiles
import Whereabouts.Session.Step

/-!
# How lookups can end

`Within still F f`: every failure of the action `f` is one of `F`, and if `still` is set no run of it
changes the tree. There is one rule for each way to build an action. `Lookup.Fails` lists the failures
of each lookup.
-/

namespace Whereabouts

structure Within {α : Type} (still : Bool) (F : Failure → Prop) (f : Action α) : Prop where
  tree : still = true → ∀ s, (f.run s).2.tree = s.tree
  failure : ∀ {s e}, (f.run s).1 = .error e → F e

namespace Within

variable {α β : Type} {still : Bool} {F G : Failure → Prop} {f : Action α}

theorem pure (a : α) : Within still F (pure a) := ⟨fun _ _ => rfl, fun h => by cases h⟩

theorem throw {e : Failure} (h : F e) : Within still F (throw e : Action α) where
  tree _ _ := rfl
  failure he := by
    cases he
    exact h

theorem lift {x : Except Failure α} (h : ∀ e, x = .error e → F e) :
    Within still F (ExceptT.mk (Pure.pure x) : Action α) where
  tree _ _ := rfl
  failure he := h _ he

theorem modify {c : State → State} (h : ∀ s, (c s).tree = s.tree) :
    Within still F (modify c : Action Unit) where
  tree _ s := h s
  failure he := by cases he

theorem set {s' : State} : Within false F (MonadStateOf.set s' : Action Unit) where
  tree h := by cases h
  failure he := by cases he

theorem get {g : State → Action α} (h : ∀ s, Within still F (g s)) :
    Within still F (MonadState.get >>= g) where
  tree hs s := (h s).tree hs s
  failure {s _} he := (h s).failure he

theorem imp (h : Within still F f) (hfg : ∀ e, F e → G e) : Within still G f where
  tree := h.tree
  failure he := hfg _ (h.failure he)

theorem moving (h : Within true F f) : Within false F f where
  tree hs := by cases hs
  failure := h.failure

theorem bind {g : α → Action β} (hf : Within still F f) (hg : ∀ a, Within still F (g a)) :
    Within still F (f >>= g) where
  tree hs s := by
    have ht := hf.tree hs s
    rw [Action.run_bind]
    generalize f.run s = x at ht
    obtain ⟨r, s'⟩ := x
    cases r with
    | error e => exact ht
    | ok a => exact ((hg a).tree hs s').trans ht
  failure {s e} he := by
    have hfe : ∀ e, (f.run s).1 = .error e → F e := fun _ => hf.failure
    rw [Action.run_bind] at he
    generalize f.run s = x at hfe he
    obtain ⟨r, s'⟩ := x
    cases r with
    | error e' =>
      cases he
      exact hfe _ rfl
    | ok a => exact (hg a).failure he

theorem tryCatch {handler : Failure → Action α} (hf : Within still F f)
    (hh : ∀ e, F e → Within still G (handler e)) : Within still G (tryCatch f handler) where
  tree hs s := by
    have ht := hf.tree hs s
    have hfe : ∀ e, (f.run s).1 = .error e → F e := fun _ => hf.failure
    rw [Action.run_tryCatch]
    generalize f.run s = x at ht hfe
    obtain ⟨r, s'⟩ := x
    cases r with
    | ok a => exact ht
    | error e => exact ((hh e (hfe _ rfl)).tree hs s').trans ht
  failure {s e} he := by
    have hfe : ∀ e, (f.run s).1 = .error e → F e := fun _ => hf.failure
    rw [Action.run_tryCatch] at he
    generalize f.run s = x at hfe he
    obtain ⟨r, s'⟩ := x
    cases r with
    | ok a => cases he
    | error e' => exact (hh e' (hfe _ rfl)).failure he

theorem map {c : α → β} (h : Within still F f) : Within still F (c <$> f) where
  tree hs s := by
    rw [Action.run_map]
    exact h.tree hs s
  failure {s e} he := by
    rw [Action.run_map] at he
    exact h.failure (error_of_map_error he)

theorem once {slot : Slot α} (h : Within still F f) : Within still F (once slot f) := by
  refine .get fun s => ?_
  split
  · exact .pure _
  · refine h.bind fun a => .bind (.modify fun s => ?_) fun _ => .pure a
    rfl

theorem debug (tag message : String) : Within still F (Whereabouts.debug tag message) := by
  refine .get fun s => ?_
  split
  · exact modify fun _ => rfl
  · exact .pure ()

theorem located {path : Environment → Option Location → Except Failure α}
    (h : ∀ env here e, path env here = .error e → F e) : Within still F (located path) :=
  .get fun s => .lift (h s.env s.here)

end Within

/-! ## What a lookup can fail by -/

/-- The directory cannot be had or used. A place that the system refuses to look at is reported as it
is. -/
inductive NoDir (p : Path) : Failure → Prop where
  | unusable {fault : DirectoryFault} : NoDir p (.unusable p fault)
  | zeroByte : NoDir p .zeroByte
  | unseen {why : Refusal} (h : why = .denied ∨ why = .nameTooLong) :
      NoDir p (.system { why, path := some p.toString })

/-- The program's own path cannot be had. A link that leads back to itself is no matter of the
program's own reports. -/
inductive NoProgram : Failure → Prop where
  | reported {f : Failure} (h : f.category = .trouble .executable) : NoProgram f
  | zeroByte : NoProgram .zeroByte
  | linkLoop {link : Path} : NoProgram (.linkLoop link)

inductive Lookup.Fails (host : Host) : Lookup → Failure → Prop where
  | homeUnknown : Fails host .homeDir (.homeUnknown host.profile.name)
  | homeUndetermined {l : Lookup} {wanted : String}
      (hl : l ∈ [configDir, cacheRoot, cacheDir, binaryDir]) : Fails host l (.homeUndetermined wanted)
  | lost {l : Lookup} (hl : l ∈ [homeDir, configDir, cacheRoot, cacheDir, binaryDir]) :
      Fails host l (.system { why := .noEntry, path := none })
  | noDir {l : Lookup} {p : Path} {f : Failure} (hl : l ∈ [homeDir, configDir, cacheDir, binaryDir])
      (h : NoDir p f) : Fails host l f
  | noProgram {l : Lookup} {f : Failure} (hl : l ∈ [programPath, programDir, resourceDir])
      (h : NoProgram f) : Fails host l f
  | noResources {tried : List Path} : Fails host .resourceDir (.noResources tried)
  | unresolved {e : SystemError} : Fails host .resourceDir (.system e)

/-! ## Places -/

section
variable {host : Host} {env : Environment} {here : Option Location} {f : Failure} {l : Lookup}

theorem fromHere_error {p : Path} (h : fromHere here p = .error f) :
    here = none ∧ f = .system { why := .noEntry, path := none } := by
  unfold fromHere at h
  split at h
  · cases h
  · cases here with
    | none =>
      cases h
      exact ⟨rfl, rfl⟩
    | some loc => cases h

theorem homePath_error (h : homePath host env here = .error f) : Lookup.Fails host .homeDir f := by
  unfold homePath at h
  split at h
  · cases h
    exact .homeUnknown
  · next raw source _ =>
    rw [(fromHere_error (error_of_map_error h)).2]
    exact .lost (by decide)

/-- A path depends on a working directory or on a home that is not there. -/
def NoPlace (host : Host) (env : Environment) (here : Option Location) (f : Failure) : Prop :=
  here = none ∧ f = .system { why := .noEntry, path := none } ∨
    Homeless host env ∧ ∃ wanted, f = .homeUndetermined wanted

theorem settledPath_error {var : String} {dir : UserDir} (h : settledPath host var dir env here = .error f) :
    NoPlace host env here f := by
  rcases @settledPath_cases host env here var dir with ⟨raw, -, he⟩ | ⟨-, ⟨p, -, he⟩ | ⟨f', hd, he⟩⟩
  · exact .inl (fromHere_error (he.symm.trans h))
  · exact .inl (fromHere_error (he.symm.trans h))
  · obtain rfl := Except.error.inj (he.symm.trans h)
    exact .inr (userDir_error hd)

theorem NoPlace.fails (h : NoPlace host env here f) (hl : l ∈ [.configDir, .cacheRoot, .cacheDir, .binaryDir]) :
    Lookup.Fails host l f := by
  rcases h with ⟨-, rfl⟩ | ⟨-, wanted, rfl⟩
  · exact .lost (List.mem_cons_of_mem _ hl)
  · exact .homeUndetermined hl

theorem configPath_error (h : configPath host env here = .error f) : Lookup.Fails host .configDir f :=
  (settledPath_error h).fails (by decide)

theorem cacheRootPath_error (hl : l ∈ [.cacheRoot, .cacheDir, .binaryDir])
    (h : cacheRootPath host env here = .error f) : Lookup.Fails host l f :=
  (settledPath_error h).fails (List.mem_cons_of_mem _ hl)

/-! ## Directories -/

theorem ensurePrivate_error {t : FileTree} {p : Path} (h : (ensurePrivate t here p).result = .error f) :
    NoDir p f := by
  rcases ensurePrivate_error_cases h with ⟨why, hd, rfl⟩ | ⟨-, rfl⟩ | ⟨fault, rfl⟩
  · exact .unseen (FileTree.why_of_unseen (FileTree.isDirectory_error hd))
  · exact .zeroByte
  · exact .unusable

theorem within_ensureDir (p : Path) : Within false (NoDir p) (ensureDir p) := by
  refine .get fun s => ?_
  have he : ∀ f, (ensurePrivate s.tree s.here p).result = .error f → NoDir p f := fun _ => ensurePrivate_error
  generalize ensurePrivate s.tree s.here p = e at he
  refine .bind .set fun _ => ?_
  dsimp only
  cases hr : e.result with
  | ok u =>
    split
    · exact .bind (.debug _ _) fun _ => .pure p
    · exact .pure p
  | error f =>
    have hf := he f hr
    split
    · exact .bind (.debug _ _) fun _ => .throw hf
    · exact .throw hf

theorem within_announced (hl : l ∈ [.homeDir, .configDir, .cacheDir, .binaryDir]) (tag message : String) (p : Path) :
    Within false (Lookup.Fails host l) (do debug tag message; ensureDir p) :=
  .bind (.debug tag message) fun _ => (within_ensureDir p).imp fun _ h => .noDir hl h

theorem within_homeDir : Within false (Lookup.Fails host .homeDir) (homeDir host) :=
  .once (.bind (.located fun _ _ _ h => homePath_error h) fun _ => within_announced (by decide) _ _ _)

theorem within_configDir : Within false (Lookup.Fails host .configDir) (configDir host) :=
  .once (.bind (.located fun _ _ _ h => configPath_error h) fun _ => within_announced (by decide) _ _ _)

theorem within_cacheRoot (hl : l ∈ [.cacheRoot, .cacheDir, .binaryDir]) :
    Within true (Lookup.Fails host l) (cacheRoot host) :=
  .once (.located fun _ _ _ h => cacheRootPath_error hl h)

theorem within_segmentCacheDir (hl : l ∈ [.cacheDir, .binaryDir]) (segment : String) :
    Within false (Lookup.Fails host l) (segmentCacheDir host segment) :=
  .once (.bind (within_cacheRoot (List.mem_cons_of_mem _ hl)).moving fun _ =>
    within_announced (List.mem_cons_of_mem _ (List.mem_cons_of_mem _ hl)) _ _ _)

theorem within_segmentBinaryDir (segment : String) :
    Within false (Lookup.Fails host .binaryDir) (segmentBinaryDir host segment) :=
  .once (.bind (within_segmentCacheDir (by decide) segment) fun _ => within_announced (by decide) _ _ _)

/-! ## The program and its build -/

theorem askModuleName_error {name : String} {size : Nat} (h : askModuleName name size = .error f) :
    f.category = .trouble .executable := by
  fun_induction askModuleName name size with
  | case1 => cases h; rfl
  | case2 => cases h
  | case3 _ _ _ _ _ _ _ ih => exact ih h
  | case4 => cases h; rfl

theorem executablePath_error {t : FileTree} {profile : Profile}
    (h : executablePath host t here profile = .error f) : f.category = .trouble .executable ∨ f = .zeroByte := by
  unfold executablePath at h
  split at h
  · cases h
  · split at h
    · cases h
    · cases h
      exact .inr rfl
    · cases h
      exact .inl rfl
  · unfold imagePath at h
    split at h
    · cases h
      exact .inl rfl
    · cases h
  · unfold moduleName at h
    split at h
    · cases h
      exact .inl rfl
    · exact .inl (askModuleName_error h)
  · cases h
    exact .inl rfl

theorem programPath_error {t : FileTree} (h : programPath host t here = .error f) : NoProgram f := by
  cases programPath_error_iff.1 h with
  | unreported he =>
    rcases executablePath_error he with hc | rfl
    · exact .reported hc
    · exact .zeroByte
  | looped => exact .linkLoop
  | zeroByte => exact .zeroByte
  | missing => exact .reported rfl

theorem within_processPath : Within true NoProgram (processPath host) :=
  .once (.get fun _ => .bind (.lift fun _ h => programPath_error h) fun _ => .bind (.debug _ _) fun _ => .pure _)

theorem within_processDir : Within true NoProgram (processDir host) :=
  .once (.bind within_processPath fun _ => .pure _)

theorem within_buildVersion : Within true (fun _ => False) (buildVersion host) :=
  .once (.get fun _ => .pure _)

theorem within_segmentOrBlank (v : String) : Within true (· = .blankVersion) (segmentOrBlank v) := by
  unfold segmentOrBlank
  split
  · exact .pure _
  · exact .throw rfl

theorem within_versionSegment (version : Option String) :
    Within true (· = .blankVersion) (versionSegment host version) := by
  cases version with
  | some v => exact .bind (.pure v) within_segmentOrBlank
  | none => exact .bind (within_buildVersion.imp fun _ h => h.elim) within_segmentOrBlank

theorem within_cacheDir (version : Option String) :
    Within false (fun f => f = .blankVersion ∨ Lookup.Fails host .cacheDir f) (cacheDir host version) :=
  .bind ((within_versionSegment version).moving.imp fun _ => .inl) fun segment =>
    (within_segmentCacheDir (by decide) segment).imp fun _ => .inr

theorem within_binaryCacheDir (version : Option String) :
    Within false (fun f => f = .blankVersion ∨ Lookup.Fails host .binaryDir f) (binaryCacheDir host version) :=
  .bind ((within_versionSegment version).moving.imp fun _ => .inl) fun segment =>
    (within_segmentBinaryDir segment).imp fun _ => .inr

/-! ## Resources -/

theorem within_resourceCandidates : Within true NoProgram (resourceCandidates host) := by
  refine .get fun s => ?_
  dsimp only
  split
  · split
    · exact .pure _
    · exact .bind within_processDir fun _ => .pure _
  · refine .bind (.tryCatch (.map within_processDir) fun f hf => ?_) fun _ => .pure _
    split
    · exact .bind (.debug _ _) fun _ => .pure _
    · exact .throw hf

theorem fails_ofRefusal (why : Refusal) (path : Option String) :
    Lookup.Fails host .resourceDir (.ofRefusal why path) := by
  unfold Failure.ofRefusal
  split
  · exact .noProgram (by decide) .zeroByte
  · exact .unresolved

theorem firstDirectory_error {t : FileTree} {candidates : List (Path × ResourceSource)}
    (h : firstDirectory t here candidates = .error f) : Lookup.Fails host .resourceDir f := by
  induction candidates with
  | nil => cases h
  | cons c rest ih =>
    unfold firstDirectory at h
    split at h
    · cases h
    · exact ih h
    · cases h
      exact fails_ofRefusal _ _

theorem canonicalDir_error {t : FileTree} {p : Path} (h : canonicalDir t here p = .error f) :
    Lookup.Fails host .resourceDir f := by
  unfold canonicalDir at h
  split at h
  · cases h
  · cases h
    exact .noProgram (by decide) .linkLoop
  · cases h
    exact fails_ofRefusal _ _

theorem within_resourceDir : Within true (Lookup.Fails host .resourceDir) (resourceDir host) := by
  refine .once (.bind (within_resourceCandidates.imp fun _ h => .noProgram (by decide) h) fun candidates => ?_)
  refine .get fun s => .bind (.lift fun _ h => firstDirectory_error h) fun found => ?_
  split
  · exact .throw .noResources
  · exact .bind (.lift fun _ h => canonicalDir_error h) fun _ => .bind (.debug _ _) fun _ => .pure _

/-! ## Flags and temporary directories -/

theorem within_sdkPath : Within true (fun _ => False) (sdkPath host) := by
  refine .once (.get fun s => ?_)
  split
  · exact .pure _
  · refine .bind (.modify fun _ => rfl) fun _ => ?_
    split
    · exact .pure _
    · exact .bind (.debug _ _) fun _ => .pure _

theorem within_systemFlags : Within true (fun _ => False) (systemFlags host) := by
  unfold systemFlags
  split
  · refine .bind within_sdkPath fun path => ?_
    cases path with
    | some path => exact .pure _
    | none => exact .bind (.modify fun _ => rfl) fun _ => .pure _
  · exact .pure _

theorem within_addSystemFlags (args : List String) : Within true (fun _ => False) (addSystemFlags host args) :=
  .bind within_systemFlags fun _ => .pure _

theorem tempFaultOf_ne (f : Failure) : tempFaultOf f ≠ .namesExhausted := by
  cases f <;> nofun

theorem run_tempDir (start : String) (s : State) :
    (∃ dir, (∀ d, s.tempDir = some d → d = dir) ∧ (tempDir start).run s = (.ok dir, { s with tempDir := some dir })) ∨
      ∃ fault, fault ≠ .namesExhausted ∧ (tempDir start).run s = (.error (.noTempFile start fault), s) := by
  unfold tempDir
  rw [Action.run_get]
  cases hd : s.tempDir with
  | some dir =>
    have hs : { s with tempDir := some dir } = s := by rw [← hd]
    exact .inl ⟨dir, fun d he => (Option.some.inj he).symm, by rw [hs]; rfl⟩
  | none =>
    dsimp only
    split
    · next f _ => exact .inr ⟨_, tempFaultOf_ne f, rfl⟩
    · exact .inr ⟨.noDirectory _, nofun, rfl⟩
    · next dir _ => exact .inl ⟨dir, nofun, rfl⟩

/-! ## Calls -/

def Call.makes : Call → Bool
  | .homeDir | .configDir | .cacheDir _ | .binaryCacheDir _ | .ensureDir _ | .makeTempFile .. => true
  | _ => false

theorem within_still {c : Call} (h : c.makes = false) : Within true (fun _ => True) (c.action host) := by
  have hany : ∀ {α : Type} {F : Failure → Prop} {f : Action α}, Within true F f → Within true (fun _ => True) f :=
    fun h => h.imp fun _ _ => trivial
  cases c with
  | cacheRoot => exact .map (hany (within_cacheRoot (l := .cacheRoot) (by decide)))
  | resourceDir => exact .map (hany within_resourceDir)
  | processPath => exact .map (hany within_processPath)
  | processDir => exact .map (hany within_processDir)
  | buildVersion => exact .map (hany within_buildVersion)
  | versionSegment version => exact .map (hany (within_versionSegment version))
  | sdkPath => exact .map (hany within_sdkPath)
  | addSystemFlags args => exact .map (hany (within_addSystemFlags args))
  | targetTriple | profile | homeFromAccounts => exact .pure _
  | envVar | homeFromEnv => exact .get fun _ => .pure _
  | executablePath =>
    refine .get fun s => ?_
    split
    · exact .pure _
    · exact .throw trivial
  | _ => cases h

end

end Whereabouts

import Whereabouts.Proofs.Home
import Whereabouts.Proofs.Session.ProgramLookups
import Whereabouts.Proofs.Session.Resolvers

/-!
# Overrides decide alone

A variable that overrides the place of a directory, and whose value does not begin with a tilde, decides on that
place alone: a program in another environment and with other accounts finds the same one, and makes the same
directories (`override_decides_alone`).
-/

namespace Whereabouts

variable {host host' : Host} {s s' : State} {raw : String}

/-! ## Worlds that may differ in the environment and in the accounts -/

/-- The hosts have one platform and one executable, and the states one tree, one working directory and the same
kept values. -/
structure SameGround (host host' : Host) (s s' : State) : Prop where
  platform : host'.platform = host.platform
  frozen : host'.frozen = host.frozen
  image : host'.image = host.image
  module : host'.module = host.module
  tree : s'.tree = s.tree
  here : s'.here = s.here
  kept : s'.kept = s.kept

/-- The override has this value, which stands for itself. -/
structure Overridden (var raw : String) (s s' : State) : Prop where
  left : s.env.value? var = some raw
  right : s'.env.value? var = some raw
  plain : raw.toList.head? ≠ some '~'

theorem absolutePath_of_ne {env : Environment} (h : raw.toList.head? ≠ some '~') (here : Option Location) :
    absolutePath host env here raw = fromHere here (.ofString raw) := by
  unfold absolutePath
  rw [expandTilde_of_ne h]

theorem homePath_of_override {env : Environment} (hv : env.value? "JANK_HOME" = some raw)
    (h : raw.toList.head? ≠ some '~') (here : Option Location) :
    homePath host env here = (fromHere here (.ofString raw)).map (·, .override) := by
  unfold homePath rawHome
  rw [hv]
  exact congrArg (Except.map _) (absolutePath_of_ne h here)

theorem settledPath_of_override {env : Environment} {var : String} (hv : env.value? var = some raw)
    (h : raw.toList.head? ≠ some '~') (dir : UserDir) (here : Option Location) :
    settledPath host var dir env here = fromHere here (.ofString raw) := by
  unfold settledPath
  rw [hv]
  exact absolutePath_of_ne h here

/-! ## What is found in both -/

namespace SameGround

variable (h : SameGround host host' s s')
include h

theorem homeDirIn (ho : Overridden "JANK_HOME" raw s s') : homeDirIn host' s' = homeDirIn host s := by
  unfold Whereabouts.homeDirIn
  rw [homePath_of_override ho.left ho.plain, homePath_of_override ho.right ho.plain, h.tree, h.here, h.kept]

theorem configDirIn (ho : Overridden "JANK_CONFIG_DIR" raw s s') : configDirIn host' s' = configDirIn host s := by
  unfold Whereabouts.configDirIn configPath
  rw [settledPath_of_override ho.left ho.plain, settledPath_of_override ho.right ho.plain, h.tree, h.here, h.kept]

theorem cacheRootIn (ho : Overridden "JANK_CACHE_DIR" raw s s') : cacheRootIn host' s' = cacheRootIn host s := by
  unfold Whereabouts.cacheRootIn cacheRootPath
  rw [settledPath_of_override ho.left ho.plain, settledPath_of_override ho.right ho.plain, h.here, h.kept]

theorem segmentDirIn (ho : Overridden "JANK_CACHE_DIR" raw s s') (segment : String) :
    segmentDirIn host' s' segment = segmentDirIn host s segment := by
  unfold Whereabouts.segmentDirIn
  rw [h.cacheRootIn ho, h.tree, h.here, h.kept]

theorem segmentBinariesIn (ho : Overridden "JANK_CACHE_DIR" raw s s') (segment : String) :
    segmentBinariesIn host' s' segment = segmentBinariesIn host s segment := by
  unfold Whereabouts.segmentBinariesIn
  rw [h.segmentDirIn ho, h.tree, h.here, h.kept]

theorem versionedIn {found found' : String → Finding} (hf : ∀ segment, found' segment = found segment)
    (version : String) : versionedIn host' s' (some version) found' = versionedIn host s (some version) found := by
  unfold Whereabouts.versionedIn segmentIn
  rw [Option.getD_some, Option.getD_some, h.tree, funext hf]

theorem programPath : programPath host' s'.tree s'.here = programPath host s.tree s.here := by
  unfold Whereabouts.programPath executablePath Host.profile
  rw [h.platform, h.frozen, h.image, h.module, h.tree, h.here]

theorem programDirIn : programDirIn host' s' = programDirIn host s := by
  unfold Whereabouts.programDirIn programPathIn
  rw [h.programPath, h.kept]

theorem resourceDirIn (ho : Overridden "JANK_RESOURCE_DIR" raw s s') :
    resourceDirIn host' s' = resourceDirIn host s := by
  have hcandidates : candidatesIn host' s' = candidatesIn host s := by
    unfold candidatesIn
    rw [ho.left, ho.right]
    dsimp only
    rw [expandTilde_of_ne ho.plain, expandTilde_of_ne ho.plain, h.programDirIn]
  have hchosen : chosenFrom s' = chosenFrom s := by
    funext candidates
    unfold chosenFrom
    rw [h.tree, h.here]
  unfold Whereabouts.resourceDirIn
  rw [hcandidates, hchosen, h.kept]

end SameGround

/-! ## Calls -/

/-- The variable that the directory of the call is taken from if it is set. -/
def Call.override? : Call → Option String
  | .homeDir => some "JANK_HOME"
  | .configDir => some "JANK_CONFIG_DIR"
  | .resourceDir => some "JANK_RESOURCE_DIR"
  | .cacheRoot | .cacheDir (some _) | .binaryCacheDir (some _) => some "JANK_CACHE_DIR"
  | _ => none

/-- Both calls end alike and leave one tree. -/
structure SameEnds {α : Type} (x y : Except Failure α × State) : Prop where
  result : x.1 = y.1
  tree : x.2.tree = y.2.tree

theorem sameEnds_of_finds {f f' : Action Path} {found found' : Finding} (hf : Finds f s found)
    (hf' : Finds f' s' found') (h : found' = found) :
    SameEnds ((Result.path <$> f').run s') ((Result.path <$> f).run s) := by
  obtain ⟨t, hrun, ht⟩ := hf.run_path
  obtain ⟨t', hrun', ht'⟩ := hf'.run_path
  rw [hrun, hrun', h]
  exact ⟨rfl, by rw [ht, ht', h]⟩

/-- Where the override of a directory has one value that does not begin with a tilde, the directory is the same
whatever else is in the environment and in the accounts, or it fails alike, and the tree is changed alike. -/
theorem override_decides_alone {c : Call} {var : String} (h : SameGround host host' s s') (hc : c.override? = some var)
    (ho : Overridden var raw s s') : SameEnds ((c.action host').run s') ((c.action host).run s) := by
  cases c with
  | homeDir =>
    cases hc
    exact sameEnds_of_finds finds_homeDir finds_homeDir (h.homeDirIn ho)
  | configDir =>
    cases hc
    exact sameEnds_of_finds finds_configDir finds_configDir (h.configDirIn ho)
  | cacheRoot =>
    cases hc
    exact sameEnds_of_finds finds_cacheRoot finds_cacheRoot (by rw [h.cacheRootIn ho, h.tree])
  | cacheDir version =>
    cases version with
    | none => cases hc
    | some version =>
      cases hc
      exact sameEnds_of_finds (finds_cacheDir _) (finds_cacheDir _) (h.versionedIn (h.segmentDirIn ho) version)
  | binaryCacheDir version =>
    cases version with
    | none => cases hc
    | some version =>
      cases hc
      exact sameEnds_of_finds (finds_binaryCacheDir _) (finds_binaryCacheDir _)
        (h.versionedIn (h.segmentBinariesIn ho) version)
  | resourceDir =>
    cases hc
    exact sameEnds_of_finds (looks_resourceDir host s).finds (looks_resourceDir host' s').finds
      (by rw [h.resourceDirIn ho, h.tree])
  | _ => cases hc

/-- The caches lie below the working directory for both users, also for the one without a home. -/
theorem override_decides_alone_relative :
    let c := Call.binaryCacheDir (some "1.0")
    let host := { plainHost with accounts := some { own := some "/home/me" } }
    let host' := { plainHost with accounts := none }
    let s := State.start ⟨[("HOME", "/home/me"), ("XDG_CACHE_HOME", "/var"), ("JANK_CACHE_DIR", "caches")]⟩
      [.dir "/work" 0o755] "/work"
    let s' := State.start ⟨[("JANK_CACHE_DIR", "caches"), ("JANK_BUILD_FLAGS", "-O3")]⟩ [.dir "/work" 0o755] "/work"
    ((c.action host).run s).1 = .ok (.path ⟨.root, ["bin", "1.0", "caches", "work"]⟩) ∧
      SameEnds ((c.action host').run s') ((c.action host).run s) := by
  intro c host host' s s'
  have hground : SameGround host host' s s' := ⟨rfl, rfl, rfl, rfl, rfl, rfl, rfl⟩
  have ho : Overridden "JANK_CACHE_DIR" "caches" s s' := ⟨rfl, rfl, by decide⟩
  exact ⟨by decide +kernel, override_decides_alone hground rfl ho⟩

end Whereabouts

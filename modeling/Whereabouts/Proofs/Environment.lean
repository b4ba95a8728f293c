import Whereabouts.Proofs.Home
import Whereabouts.Session.TempFiles

/-!
# Environments that read alike

Two environments read alike if their variables have the same values, where an empty value counts as none.
Every location is the same in both, but for one reader: a tilde that stands for the user's own home tells
an empty home variable from one that is not set. So either the home variable is the same, or no value
begins with such a tilde.
-/

namespace Whereabouts

variable {host : Host} {env env' : Environment} {here : Option Location}

/-! ## Changed environments -/

namespace Environment

theorem lookup_filter_ne_name (vars : List (String × String)) (name n : String) :
    (vars.filter (·.1 ≠ name)).lookup n = if n = name then none else vars.lookup n := by
  induction vars with
  | nil => simp
  | cons x vars ih =>
    obtain ⟨k, v⟩ := x
    by_cases hk : k = name
    · subst hk
      rw [List.filter_cons, if_neg (by simp), ih]
      by_cases hn : n = k
      · rw [if_pos hn, if_pos hn]
      · rw [if_neg hn, if_neg hn, List.lookup_cons, beq_false_of_ne hn]
    · rw [List.filter_cons, if_pos (by simpa using hk), List.lookup_cons, List.lookup_cons]
      by_cases hn : n = k
      · subst hn
        simp [hk]
      · rw [beq_false_of_ne hn]
        exact ih

theorem get?_unset (env : Environment) (name n : String) :
    (env.unset name).get? n = if n = name then none else env.get? n :=
  lookup_filter_ne_name env.vars name n

theorem get?_set (env : Environment) (name value n : String) :
    (env.set name value).get? n = if n = name then some value else env.get? n := by
  unfold set get?
  rw [List.lookup_cons]
  by_cases hn : n = name
  · rw [if_pos hn, beq_iff_eq.2 hn]
  · rw [if_neg hn, beq_false_of_ne hn, lookup_filter_ne_name, if_neg hn]

/-- Without the empty variables, the variables that are left are those with a value. -/
theorem get?_withoutEmpty (hd : (env.vars.map (·.1)).Nodup) (name : String) :
    env.withoutEmpty.get? name = env.value? name := by
  unfold withoutEmpty value? get?
  generalize env.vars = vars at hd
  dsimp only
  induction vars with
  | nil => rfl
  | cons x vars ih =>
    obtain ⟨k, v⟩ := x
    rw [List.map_cons, List.nodup_cons] at hd
    rw [List.filter_cons, List.lookup_cons]
    by_cases hn : name = k
    · subst hn
      have hnone : vars.lookup name = none := by
        refine List.lookup_eq_none_iff.2 fun y hy => ?_
        have hne : name ≠ y.1 := fun he => hd.1 (List.mem_map.2 ⟨y, hy, he.symm⟩)
        simpa using hne
      by_cases hv : v = ""
      · rw [if_neg (by simp [hv]), ih hd.2, hnone, hv]
        simp [Option.filter]
      · rw [if_pos (by simpa using hv), List.lookup_cons]
        simp [Option.filter, hv]
    · rw [beq_false_of_ne hn, ← ih hd.2]
      split
      · rw [List.lookup_cons, beq_false_of_ne hn]
      · rfl

end Environment

/-! ## Reading alike -/

/-- The text begins with a tilde that stands for the user's own home. -/
def usesOwnHome (raw : String) : Bool :=
  match raw.toList with
  | '~' :: rest => rest.head? = none || rest.head? = some '/'
  | _ => false

/-- The variables with paths that may begin with a tilde. -/
def expandedVars (profile : Profile) : List String :=
  ["JANK_HOME", "JANK_CONFIG_DIR", "JANK_CACHE_DIR", "JANK_RESOURCE_DIR"] ++ profile.homeVars ++
    (profile.homeDriveVars.map (·.1)).toList

/-- The library takes an empty home variable for one that is not set, and leaves no tilde for the own home in a
path. -/
structure UserDirs.IgnoresEmpty (dirs : UserDirs) : Prop where
  reads : ∀ {env env' : Environment}, (∀ name, env'.value? name = env.value? name) →
    ∀ platform accounts app dir, dirs.find platform accounts env' app dir = dirs.find platform accounts env app dir
  expanded : ∀ {platform accounts env app dir p}, dirs.find platform accounts env app dir = .ok p →
    usesOwnHome p.toString = false

/-- No variable and no entry of the user uses the own home by a tilde, and no standard directory depends on an
empty home variable. -/
structure TildeFree (host : Host) (env : Environment) : Prop where
  vars : ∀ name ∈ expandedVars host.profile, ∀ v, env.value? name = some v → usesOwnHome v = false
  own : ∀ v, host.ownHome? = some v → usesOwnHome v = false
  library : host.userDirs.IgnoresEmpty

theorem usesOwnHome_of_slash {raw : String} (h : beginsWith raw "/" = true) : usesOwnHome raw = false := by
  obtain ⟨cs, hs⟩ := beginsWith_slash_iff.1 h
  unfold usesOwnHome
  rw [hs]
  rfl

theorem UserDirs.ignoresEmpty_standard : UserDirs.standard.IgnoresEmpty where
  reads h platform accounts app dir := by
    rw [find_standard, find_standard, base?_of_value h]
  expanded h := usesOwnHome_of_slash (beginsWith_of_isAbsolute (isAbsolute_of_standard h))

/-- The variable gets a path that uses the own home by a tilde. -/
def setsOwnHome (profile : Profile) (name value : String) : Bool :=
  name ≠ "HOME" && name ∈ expandedVars profile && usesOwnHome value

/-- The variables have the same values. Unless tildes are used, the home variable may be empty in one
environment and not set in the other. -/
structure ReadAlike (host : Host) (tildes : Bool) (env env' : Environment) : Prop where
  value : ∀ name, env'.value? name = env.value? name
  home : env'.get? "HOME" = env.get? "HOME" ∨ tildes = false ∧ TildeFree host env

namespace ReadAlike

variable {tildes : Bool}

theorem value_set (name v n : String) :
    (env.set name v).value? n = if n = name then (some v).filter (· ≠ "") else env.value? n := by
  unfold Environment.value?
  rw [Environment.get?_set]
  split <;> rfl

theorem value_unset (name n : String) : (env.unset name).value? n = if n = name then none else env.value? n := by
  unfold Environment.value?
  rw [Environment.get?_unset]
  split <;> rfl

theorem set (h : ReadAlike host tildes env env') {name v : String}
    (hv : tildes = false → setsOwnHome host.profile name v = false) :
    ReadAlike host tildes (env.set name v) (env'.set name v) where
  value n := by rw [value_set, value_set, h.value]
  home := by
    rw [Environment.get?_set, Environment.get?_set]
    by_cases hname : "HOME" = name
    · rw [if_pos hname, if_pos hname]
      exact .inl rfl
    rw [if_neg hname, if_neg hname]
    refine h.home.imp_right fun ⟨hno, ht⟩ => ⟨hno, fun n hn w hw => ?_, ht.own, ht.library⟩
    rw [value_set] at hw
    split at hw
    · next he =>
      subst he
      cases (Option.filter_eq_some_iff.1 hw).1
      have hset := hv hno
      unfold setsOwnHome at hset
      simpa [Ne.symm hname, hn] using hset
    · exact ht.vars n hn w hw

theorem unset (h : ReadAlike host tildes env env') (name : String) : ReadAlike host tildes (env.unset name) (env'.unset name) where
  value n := by rw [value_unset, value_unset, h.value]
  home := by
    rcases h.home with he | ⟨hno, ht⟩
    · left
      rw [Environment.get?_unset, Environment.get?_unset, he]
    · right
      refine ⟨hno, fun n hn w hw => ?_, ht.own, ht.library⟩
      rw [value_unset] at hw
      split at hw
      · cases hw
      · exact ht.vars n hn w hw

/-! ## Homes -/

theorem expandTilde_of_home {raw : String} (hh : env'.get? "HOME" = env.get? "HOME") :
    expandTilde host env' raw = expandTilde host env raw := by
  unfold expandTilde tildeHome?
  rw [hh]

theorem expandTilde (h : ReadAlike host tildes env env') {raw : String} (hr : TildeFree host env → usesOwnHome raw = false) :
    expandTilde host env' raw = expandTilde host env raw := by
  rcases h.home with he | ⟨-, ht⟩
  · exact expandTilde_of_home he
  · have hown := hr ht
    unfold usesOwnHome at hown
    unfold Whereabouts.expandTilde
    split
    · next rest hs =>
      rw [hs] at hown
      -- the user's name is not empty, so that the home variable is not asked
      have huser : String.ofList (rest.takeWhile (· ≠ '/')) ≠ "" := by
        intro he
        have hnil : rest.takeWhile (· ≠ '/') = [] := by
          rw [← String.toList_ofList (l := rest.takeWhile _), he]
          rfl
        cases rest with
        | nil => simp at hown
        | cons c rest =>
          by_cases hc : c = '/'
          · simp [hc] at hown
          · simp [hc] at hnil
      unfold tildeHome?
      rw [if_neg huser, if_neg huser]
    · rfl

theorem homeFromEnv (h : ReadAlike host tildes env env') (profile : Profile) :
    homeFromEnv profile env' = homeFromEnv profile env := by
  have hv : env'.value? = env.value? := funext h.value
  unfold Whereabouts.homeFromEnv
  rw [hv]

theorem rawHome (h : ReadAlike host tildes env env') : rawHome host env' = rawHome host env := by
  unfold Whereabouts.rawHome
  rw [h.value, h.homeFromEnv]

theorem usesOwnHome_append {drive : String} (h : usesOwnHome drive = false) (path : String) :
    drive = "" ∨ usesOwnHome (drive ++ path) = false := by
  unfold usesOwnHome at h ⊢
  rw [String.toList_append]
  cases hd : drive.toList with
  | nil => exact .inl (String.toList_eq_nil_iff.1 hd)
  | cons c rest =>
    rw [hd] at h
    right
    rw [List.cons_append]
    split
    · next rest' he =>
      obtain ⟨rfl, rfl⟩ := List.cons.inj he
      cases rest with
      | nil => simp at h
      | cons d rest => exact h
    · rfl

/-- A home that is not written with the own home is not in need of it. -/
theorem usesOwnHome_of_rawHome (ht : TildeFree host env) {raw : String} {source : HomeSource}
    (hr : Whereabouts.rawHome host env = some (raw, source)) : usesOwnHome raw = false := by
  rcases rawHome_eq_some hr with hoverride | henv | hown
  · exact ht.vars _ (by simp [expandedVars]) _ hoverride
  · rcases homeFromEnv_eq_some henv with ⟨name, hname, hv⟩ | ⟨vars, drive, path, hvars, hdrive, rfl⟩
    · exact ht.vars name (by simp [expandedVars, hname]) _ hv
    · have hread : vars.1 ∈ expandedVars host.profile := by simp [expandedVars, hvars]
      refine (usesOwnHome_append (ht.vars _ hread _ hdrive) path).resolve_left ?_
      exact of_decide_eq_true (Option.filter_eq_some_iff.1 hdrive).2
  · exact ht.own _ hown

/-! ## Locations -/

theorem absolutePath (h : ReadAlike host tildes env env') {raw : String} (hr : TildeFree host env → usesOwnHome raw = false) :
    absolutePath host env' here raw = absolutePath host env here raw := by
  unfold Whereabouts.absolutePath
  rw [h.expandTilde hr]

theorem homePath (h : ReadAlike host tildes env env') : homePath host env' here = homePath host env here := by
  unfold Whereabouts.homePath
  rw [h.rawHome]
  cases hr : Whereabouts.rawHome host env with
  | none => rfl
  | some found =>
    obtain ⟨raw, source⟩ := found
    dsimp only
    rw [h.absolutePath fun ht => usesOwnHome_of_rawHome ht hr]

theorem userDir (h : ReadAlike host tildes env env') (dir : UserDir) : userDir host env' dir = userDir host env dir := by
  have hfind : host.userDirs.find host.platform host.accounts env' "jank" dir =
      host.userDirs.find host.platform host.accounts env "jank" dir := by
    rcases h.home with he | ⟨-, ht⟩
    · exact host.userDirs.reads h.value he _ _ _ _
    · exact ht.library.reads h.value _ _ _ _
  unfold Whereabouts.userDir
  rw [hfind]

theorem usesOwnHome_of_userDir (ht : TildeFree host env) {dir : UserDir} {p : Path}
    (hp : Whereabouts.userDir host env dir = .ok p) : usesOwnHome p.toString = false :=
  ht.library.expanded (userDir_ok hp)

theorem settledPath (h : ReadAlike host tildes env env') {var : String} (hread : var ∈ expandedVars host.profile)
    (dir : UserDir) : settledPath host var dir env' here = settledPath host var dir env here := by
  unfold Whereabouts.settledPath
  rw [h.value, h.userDir]
  cases hv : env.value? var with
  | some raw => exact h.absolutePath fun ht => ht.vars _ hread _ hv
  | none =>
    cases hd : Whereabouts.userDir host env dir with
    | ok p => exact h.absolutePath fun ht => usesOwnHome_of_userDir ht hd
    | error f => rfl

theorem configPath (h : ReadAlike host tildes env env') : configPath host env' here = configPath host env here :=
  h.settledPath (by simp [expandedVars]) _

theorem cacheRootPath (h : ReadAlike host tildes env env') : cacheRootPath host env' here = cacheRootPath host env here :=
  h.settledPath (by simp [expandedVars]) _

theorem buildVersionOf (h : ReadAlike host tildes env env') : buildVersionOf host env' = buildVersionOf host env := by
  have htraits : buildTraits host env' = buildTraits host env := by
    unfold buildTraits
    rw [h.value]
  unfold Whereabouts.buildVersionOf
  rw [htraits]

theorem tempDirCandidates (h : ReadAlike host tildes env env') : tempDirCandidates env' here = tempDirCandidates env here := by
  have hv : env'.value? = env.value? := funext h.value
  unfold Whereabouts.tempDirCandidates
  rw [hv]

end ReadAlike

end Whereabouts

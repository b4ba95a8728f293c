import Whereabouts.Home
import Whereabouts.Proofs.PathText
import Whereabouts.Session.Directories

/-!
# Where homes and standard directories are

Standard directories have absolute paths, and a value that begins with a slash is one: no tilde is
expanded in it, and the working directory does not matter.
-/

namespace Whereabouts

variable {host : Host} {env : Environment} {here : Option Location}

/-! ## Absolute paths -/

theorem isAbsolute_ofString {s : String} (h : beginsWith s "/" = true) : (Path.ofString s).isAbsolute = true := by
  obtain ⟨cs, hs⟩ := beginsWith_slash_iff.1 h
  exact Path.isAbsolute_ofString_of_slash hs

theorem isAbsolute_append {p : Path} (h : p.isAbsolute = true) (q : Path) : (p ++ q).isAbsolute = true := by
  show (if q.isAbsolute then q else { p with names := q.names ++ p.names }).isAbsolute = true
  split
  · next hq => exact hq
  · exact h

theorem fromHere_of_isAbsolute {p : Path} (h : p.isAbsolute = true) : fromHere here p = .ok p.normal := if_pos h

theorem beginsWith_of_isAbsolute {p : Path} (h : p.isAbsolute = true) : beginsWith p.toString "/" = true := by
  rw [beginsWith_slash_iff, Path.toList_toString h]
  rcases Path.anchor_of_isAbsolute h with hr | hr <;> simp [hr]

/-! ## Tildes -/

theorem expandTilde_of_ne {raw : String} (h : raw.toList.head? ≠ some '~') : expandTilde host env raw = raw := by
  unfold expandTilde
  split
  · next hs => rw [hs] at h; exact absurd rfl h
  · rfl

theorem expandTilde_of_slash {raw : String} (h : beginsWith raw "/" = true) : expandTilde host env raw = raw := by
  obtain ⟨cs, hs⟩ := beginsWith_slash_iff.1 h
  refine expandTilde_of_ne ?_
  rw [hs]
  simp

theorem expandTilde_of_tilde {raw : String} {rest : List Char} (h : raw.toList = '~' :: rest) :
    expandTilde host env raw =
      (tildeHome? host env (String.ofList (rest.takeWhile (· ≠ '/')))).elim raw fun home =>
        let path := withoutTrailingSlashes home ++ String.ofList (rest.dropWhile (· ≠ '/'))
        if path = "" then "/" else path := by
  unfold expandTilde
  rw [h]
  split
  · next rest' he =>
    obtain rfl := (List.cons.inj he).2
    cases tildeHome? host env (String.ofList (rest.takeWhile (· ≠ '/'))) <;> rfl
  · next hne => exact absurd rfl (hne rest)

/-! ## Homes -/

theorem homeFromEnv_eq_some {profile : Profile} {raw : String} (h : homeFromEnv profile env = some raw) :
    (∃ name ∈ profile.homeVars, env.value? name = some raw) ∨
      ∃ vars drive path, profile.homeDriveVars = some vars ∧ env.value? vars.1 = some drive ∧ raw = drive ++ path := by
  unfold homeFromEnv at h
  rcases Option.or_eq_some_iff.1 h with hv | ⟨-, hd⟩
  · exact .inl (List.exists_of_findSome?_eq_some hv)
  · simp only [bind, Option.bind_eq_some_iff, pure, Option.some.injEq] at hd
    obtain ⟨vars, hvars, drive, hdrive, path, -, rfl⟩ := hd
    exact .inr ⟨vars, drive, path, hvars, hdrive, rfl⟩

theorem rawHome_eq_some {raw : String} {source : HomeSource} (h : rawHome host env = some (raw, source)) :
    env.value? "JANK_HOME" = some raw ∨ homeFromEnv host.profile env = some raw ∨ host.ownHome? = some raw := by
  unfold rawHome at h
  rcases Option.or_eq_some_iff.1 h with hoverride | ⟨-, h⟩
  · obtain ⟨_, hv, he⟩ := Option.map_eq_some_iff.1 hoverride
    cases he
    exact .inl hv
  rcases Option.or_eq_some_iff.1 h with henv | ⟨-, h⟩
  · obtain ⟨_, hv, he⟩ := Option.map_eq_some_iff.1 henv
    cases he
    exact .inr (.inl hv)
  · split at h
    · obtain ⟨_, hv, he⟩ := Option.map_eq_some_iff.1 h
      cases he
      exact .inr (.inr (Option.filter_eq_some_iff.1 hv).1)
    · cases h

/-! ## Standard directories -/

theorem UserDirs.standard_ok {platform : String} {accounts : Option Accounts} {app : String} {dir : UserDir} {p : Path}
    (h : UserDirs.standard.find platform accounts env app dir = .ok p) :
    ∃ base, UserDirs.base? platform accounts env dir = some base ∧ p = (Path.ofString base).child app := by
  rw [UserDirs.find_standard] at h
  cases hb : UserDirs.base? platform accounts env dir with
  | some base =>
    rw [hb] at h
    cases h
    exact ⟨base, rfl, rfl⟩
  | none =>
    rw [hb] at h
    cases h

theorem UserDirs.beginsWith_base? {platform : String} {accounts : Option Accounts} {dir : UserDir} {base : String}
    (h : UserDirs.base? platform accounts env dir = some base) : beginsWith base "/" = true := by
  rcases Option.or_eq_some_iff.1 h with hv | ⟨-, hb⟩
  · exact (Option.filter_eq_some_iff.1 hv).2
  · exact (Option.filter_eq_some_iff.1 hb).2

theorem UserDirs.isAbsolute_of_standard {platform : String} {accounts : Option Accounts} {app : String} {dir : UserDir}
    {p : Path} (h : UserDirs.standard.find platform accounts env app dir = .ok p) : p.isAbsolute = true := by
  obtain ⟨base, hb, rfl⟩ := standard_ok h
  exact isAbsolute_ofString (beginsWith_base? hb)

/-- Neither the home variable nor the account gives an absolute path. -/
def Homeless (host : Host) (env : Environment) : Prop := NoHome host.accounts env

theorem userDir_ok {dir : UserDir} {p : Path} (h : userDir host env dir = .ok p) :
    host.userDirs.find host.platform host.accounts env "jank" dir = .ok p := by
  unfold userDir at h
  cases hf : host.userDirs.find host.platform host.accounts env "jank" dir with
  | ok q =>
    rw [hf] at h
    cases h
    rfl
  | error wanted =>
    rw [hf] at h
    cases h

theorem userDir_error {dir : UserDir} {f : Failure} (h : userDir host env dir = .error f) :
    Homeless host env ∧ ∃ wanted, f = .homeUndetermined wanted := by
  unfold userDir at h
  cases hf : host.userDirs.find host.platform host.accounts env "jank" dir with
  | ok p =>
    rw [hf] at h
    cases h
  | error wanted =>
    rw [hf] at h
    cases h
    exact ⟨host.userDirs.fails hf, wanted, rfl⟩

/-- A path comes from the override's value or from the library's directory, and there is no other way. -/
theorem settledPath_cases (var : String) (dir : UserDir) :
    (∃ raw, env.value? var = some raw ∧ settledPath host var dir env here = absolutePath host env here raw) ∨
      env.value? var = none ∧
        ((∃ p, userDir host env dir = .ok p ∧
            settledPath host var dir env here = absolutePath host env here p.toString) ∨
          ∃ f, userDir host env dir = .error f ∧ settledPath host var dir env here = .error f) := by
  unfold settledPath
  cases hv : env.value? var with
  | some raw => exact .inl ⟨raw, rfl, rfl⟩
  | none =>
    refine .inr ⟨rfl, ?_⟩
    cases hd : userDir host env dir with
    | ok p => exact .inl ⟨p, rfl, rfl⟩
    | error f => exact .inr ⟨f, rfl, rfl⟩

end Whereabouts

import Whereabouts.Environment
import Whereabouts.Path
import Whereabouts.Text.Affix

/-!
# Standard directories

The directories that a platform sets aside for the configuration and the caches of applications are
told by a library that is no part of the program. `UserDirs` is such a library with what is relied on
everywhere; `UserDirs.standard` is the one that programs run with.
-/

namespace Whereabouts

inductive UserDir where
  | config
  | cache
deriving DecidableEq, Repr

namespace UserDir

/-- The variable that names another base directory. -/
def baseVar : UserDir → String
  | config => "XDG_CONFIG_HOME"
  | cache => "XDG_CACHE_HOME"

/-- The place of the base directory below the home. -/
def place (platform : String) : UserDir → String
  | config => if platform = "darwin" then "/Library/Application Support" else "/.config"
  | cache => if platform = "darwin" then "/Library/Caches" else "/.cache"

theorem beginsWith_place (platform : String) (dir : UserDir) : beginsWith (dir.place platform) "/" = true := by
  unfold place
  by_cases hp : platform = "darwin"
  · rw [if_pos hp, if_pos hp]
    cases dir <;> decide
  · rw [if_neg hp, if_neg hp]
    cases dir <;> decide

end UserDir

/-- Neither the home variable nor the account gives an absolute path. -/
def NoHome (accounts : Option Accounts) (env : Environment) : Prop :=
  (∀ home, env.get? "HOME" = some home → beginsWith home "/" = false) ∧
    ∀ own, accounts.bind (·.own) = some own → beginsWith own "/" = false

/-- A library that finds the directories of an application by the platform, the accounts and the
environment, or names the place below a home that it cannot determine. -/
structure UserDirs where
  find (platform : String) (accounts : Option Accounts) (env : Environment) (app : String)
    (dir : UserDir) : Except String Path
  /-- Of the environment it reads nothing but values, and the home variable as it is. -/
  reads : ∀ {env env' : Environment}, (∀ name, env'.value? name = env.value? name) →
    env'.get? "HOME" = env.get? "HOME" →
      ∀ platform accounts app dir, find platform accounts env' app dir = find platform accounts env app dir
  /-- It fails for no other reason than that there is no home. -/
  fails : ∀ {platform accounts env app dir wanted},
    find platform accounts env app dir = .error wanted → NoHome accounts env

/-! ## The rule of the library in use -/

def withoutTrailingSlashes (s : String) : String :=
  String.ofList ((s.toList.reverse.dropWhile (· = '/')).reverse)

theorem beginsWith_slash_iff {s : String} : beginsWith s "/" = true ↔ ∃ cs, s.toList = '/' :: cs := by
  unfold beginsWith
  rw [List.isPrefixOf_iff_prefix]
  constructor
  · rintro ⟨cs, h⟩
    exact ⟨cs, h.symm⟩
  · rintro ⟨cs, h⟩
    exact ⟨cs, h.symm⟩

theorem beginsWith_append {s : String} (h : beginsWith s "/" = true) (t : String) : beginsWith (s ++ t) "/" = true := by
  obtain ⟨cs, hs⟩ := beginsWith_slash_iff.1 h
  refine beginsWith_slash_iff.2 ⟨cs ++ t.toList, ?_⟩
  rw [String.toList_append, hs, List.cons_append]

/-- What lies below a directory has an absolute path if the directory has one or is named by nothing. -/
theorem beginsWith_below {home below : String} (hh : home = "" ∨ beginsWith home "/" = true)
    (hb : beginsWith below "/" = true) : beginsWith (withoutTrailingSlashes home ++ below) "/" = true := by
  have hprefix : (withoutTrailingSlashes home).toList <+: home.toList := by
    unfold withoutTrailingSlashes
    rw [String.toList_ofList, ← List.reverse_suffix, List.reverse_reverse]
    exact List.dropWhile_suffix _
  cases hw : (withoutTrailingSlashes home).toList with
  | nil =>
    rw [String.toList_eq_nil_iff.1 hw]
    rwa [String.empty_append]
  | cons c rest =>
    rw [hw] at hprefix
    refine beginsWith_append (beginsWith_slash_iff.2 ⟨rest, ?_⟩) below
    rcases hh with rfl | hh
    · cases hprefix.length_le
    · obtain ⟨cs, hcs⟩ := beginsWith_slash_iff.1 hh
      rw [hcs] at hprefix
      rw [hw, (List.cons_prefix_cons.1 hprefix).1]

namespace UserDirs

/-- The home by the variable if that has an absolute path, and else by the account. -/
def home? (accounts : Option Accounts) (env : Environment) : Option String :=
  ((env.get? "HOME").filter (beginsWith · "/")).or (accounts.bind (·.own))

/-- The absolute path that the variable of the directory has, or else that of the place below the home. -/
def base? (platform : String) (accounts : Option Accounts) (env : Environment) (dir : UserDir) : Option String :=
  ((env.get? dir.baseVar).filter (beginsWith · "/")).or
    (((home? accounts env).map (withoutTrailingSlashes · ++ dir.place platform)).filter (beginsWith · "/"))

theorem filter_slash (env : Environment) (name : String) :
    (env.get? name).filter (beginsWith · "/") = (env.value? name).filter (beginsWith · "/") := by
  unfold Environment.value?
  rw [Option.filter_filter]
  congr 1
  funext v
  by_cases hv : v = ""
  · subst hv
    decide
  · simp [hv]

theorem base?_of_value {env env' : Environment} (h : ∀ name, env'.value? name = env.value? name)
    (platform : String) (accounts : Option Accounts) (dir : UserDir) :
    base? platform accounts env' dir = base? platform accounts env dir := by
  unfold base? home?
  rw [filter_slash, filter_slash, h, h, ← filter_slash, ← filter_slash]

theorem noHome_of_base? {platform : String} {accounts : Option Accounts} {env : Environment} {dir : UserDir}
    (h : base? platform accounts env dir = none) : NoHome accounts env := by
  obtain ⟨-, hbelow⟩ := Option.or_eq_none_iff.1 h
  have hno : ∀ home, home? accounts env = some home → beginsWith home "/" = false := fun home hh => by
    rw [hh] at hbelow
    rw [Bool.eq_false_iff]
    intro hs
    exact Option.filter_eq_none_iff.1 hbelow _ rfl (beginsWith_below (.inr hs) (dir.beginsWith_place platform))
  have hvariable : (env.get? "HOME").filter (beginsWith · "/") = none := by
    rw [Option.filter_eq_none_iff]
    intro home hh hs
    have hhome : home? accounts env = some home := by
      unfold home?
      rw [Option.filter_eq_some_iff.2 ⟨hh, hs⟩]
      rfl
    cases (hno home hhome).symm.trans hs
  refine ⟨fun home hh => ?_, fun own ho => hno own ?_⟩
  · rw [Bool.eq_false_iff]
    exact Option.filter_eq_none_iff.1 hvariable home hh
  · unfold home?
    rw [hvariable]
    exact ho

/-- The library in use: it takes a value that is no absolute path for none, and fails where that
leaves it without a base directory. -/
def standard : UserDirs where
  find platform accounts env app dir :=
    match base? platform accounts env dir with
    | some base => .ok ((Path.ofString base).child app)
    | none => .error ("~" ++ dir.place platform)
  reads h _ platform accounts app dir := by
    rw [base?_of_value h]
  fails {platform accounts env _ dir _} h := by
    cases hb : base? platform accounts env dir with
    | some base => simp [hb] at h
    | none => exact noHome_of_base? hb

theorem find_standard (platform : String) (accounts : Option Accounts) (env : Environment) (app : String)
    (dir : UserDir) : standard.find platform accounts env app dir =
      match base? platform accounts env dir with
      | some base => .ok ((Path.ofString base).child app)
      | none => .error ("~" ++ dir.place platform) := rfl

end UserDirs

end Whereabouts

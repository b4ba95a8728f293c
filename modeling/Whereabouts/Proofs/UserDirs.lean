import Whereabouts.Proofs.Home
import Whereabouts.Text.Blank

/-!
# Where standard directories lie

A library is `Grounded` if every directory that it finds lies in a place that a variable or a home names. The
library in use is (`grounded_standard`). One that only expands tildes is as long as there is a home
(`grounded_expanding`); without one it leaves the tilde standing, and the directory comes to lie below the
working directory (`expanding_below_here`).
-/

namespace Whereabouts

variable {host : Host} {env : Environment}

/-- The bases that a library may take a directory from: what the variable for it says, or a place below a home. -/
inductive UserDir.Base (host : Host) (env : Environment) (dir : UserDir) : String → Prop where
  | named {base : String} (h : env.value? dir.baseVar = some base) : Base host env dir base
  | home {home below : String} (h : env.get? "HOME" = some home ∨ host.ownHome? = some home)
      (hb : beginsWith below "/" = true) : Base host env dir (withoutTrailingSlashes home ++ below)

/-- What the library finds lies in a base. Where there is none, it fails. -/
def Grounded (host : Host) (env : Environment) : Prop :=
  ∀ dir p, userDir host env dir = .ok p → ∃ base, dir.Base host env base ∧ p = (Path.ofString base).child "jank"

/-- The base of a library that takes the variable unless it is blank, and expands a tilde else. -/
def UserDirs.expandedBase (platform : String) (accounts : Option Accounts) (env : Environment) (dir : UserDir) :
    String :=
  match (env.value? dir.baseVar).filter fun base => !(strip base.toList).isEmpty with
  | some base => base
  | none =>
    match (env.get? "HOME").or (accounts.bind (·.own)) with
    | some home => withoutTrailingSlashes home ++ dir.place platform
    | none => "~" ++ dir.place platform

/-- A library that never fails. -/
def UserDirs.expanding : UserDirs where
  find platform accounts env app dir := .ok ((Path.ofString (expandedBase platform accounts env dir)).child app)
  reads hv hh platform accounts app dir := by
    unfold expandedBase
    rw [hv, hh]
  fails h := by cases h

theorem userDir_expanding (h : host.userDirs = .expanding) (dir : UserDir) :
    userDir host env dir =
      .ok ((Path.ofString (UserDirs.expandedBase host.platform host.accounts env dir)).child "jank") := by
  unfold userDir
  rw [h]
  rfl

theorem grounded_expanding (h : host.userDirs = .expanding) {home : String}
    (hh : env.get? "HOME" = some home ∨ host.ownHome? = some home) : Grounded host env := by
  intro dir p hp
  rw [userDir_expanding h] at hp
  cases hp
  refine ⟨_, ?_, rfl⟩
  unfold UserDirs.expandedBase
  split
  · next hv => exact .named (Option.filter_eq_some_iff.1 hv).1
  · split
    · next found hfound =>
      refine .home ?_ (dir.beginsWith_place host.platform)
      exact (Option.or_eq_some_iff.1 hfound).imp_right (·.2)
    · next hnone =>
      obtain ⟨hvariable, hown⟩ := Option.or_eq_none_iff.1 hnone
      rcases hh with hh | hh
      · cases hh.symm.trans hvariable
      · cases hh.symm.trans hown

/-- Without any home such a library leaves the tilde standing, and the working directory takes the home's place. -/
theorem expanding_below_here (h : host.userDirs = .expanding) (hp : host.platform = "linux")
    (hoverride : env.value? "JANK_CONFIG_DIR" = none) (hbase : env.value? "XDG_CONFIG_HOME" = none)
    (hhome : env.get? "HOME" = none) (hown : host.ownHome? = none) (loc : Location) :
    configPath host env (some loc) = .ok (Path.mk .root (["jank", ".config", "~"] ++ loc)).normal := by
  have hfound : userDir host env .config = .ok ⟨.here, ["jank", ".config", "~"]⟩ := by
    rw [userDir_expanding h, UserDirs.expandedBase, UserDir.baseVar, hbase, hhome, hp]
    rw [show host.accounts.bind (·.own) = none from hown]
    rfl
  have htilde : tildeHome? host env "" = none := by
    rw [tildeHome?, if_pos rfl, hhome, hown]
    rfl
  have htext : expandTilde host env "~/.config/jank" = "~/.config/jank" := by
    rw [@expandTilde_of_tilde host env "~/.config/jank" "/.config/jank".toList rfl]
    rw [show String.ofList ("/.config/jank".toList.takeWhile (· ≠ '/')) = "" from rfl, htilde]
    rfl
  unfold configPath settledPath absolutePath
  rw [hoverride, hfound]
  show fromHere (some loc) (.ofString (expandTilde host env "~/.config/jank")) = _
  rw [htext]
  rfl

end Whereabouts

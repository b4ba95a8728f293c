import Whereabouts.Executable
import Whereabouts.Proofs.FileTree.Canonical

/-!
# The path of the running program

The canonical path of what the system reports. Once it is found it stays the same as the tree grows.
-/

namespace Whereabouts

open FileTree

variable {host : Host} {t t' : FileTree} {here : Option Location} {p : Path}

theorem programPath_ok_iff :
    programPath host t here = .ok p ↔
      ∃ reported, executablePath host t here host.profile = .ok reported ∧
        t.canonical here (.ofString reported) = .ok p := by
  unfold programPath
  cases executablePath host t here host.profile with
  | error e =>
    constructor
    · intro h
      cases h
    · intro ⟨reported, h, _⟩
      cases h
  | ok reported =>
    constructor
    · intro h
      refine ⟨reported, rfl, ?_⟩
      dsimp only [bind, Except.bind] at h
      split at h
      · next hc =>
        cases h
        exact hc
      · cases h
      · cases h
      · cases h
    · intro ⟨r, hr, hc⟩
      cases hr
      dsimp only [bind, Except.bind]
      rw [hc]
      rfl

/-- Why there is no canonical path of the program. -/
inductive Untold (host : Host) (t : FileTree) (here : Option Location) : Failure → Prop where
  | unreported {f : Failure} (he : executablePath host t here host.profile = .error f) : Untold host t here f
  | looped {reported : String} {link : Path} (hr : executablePath host t here host.profile = .ok reported)
      (hc : t.canonical here (.ofString reported) = .error (.loop link)) : Untold host t here (.linkLoop link)
  | zeroByte {reported : String} {path : Option Path} (hr : executablePath host t here host.profile = .ok reported)
      (hc : t.canonical here (.ofString reported) = .error (.refused path .zeroByte)) : Untold host t here .zeroByte
  | missing {reported : String} {path : Option Path} {why : Refusal}
      (hr : executablePath host t here host.profile = .ok reported)
      (hc : t.canonical here (.ofString reported) = .error (.refused path why)) (hw : why ≠ .zeroByte) :
      Untold host t here (.executableMissing reported { why, path := path.map Path.toString })

theorem programPath_error_iff {f : Failure} : programPath host t here = .error f ↔ Untold host t here f := by
  unfold programPath
  cases hr : executablePath host t here host.profile with
  | error e =>
    constructor
    · intro h
      cases h
      exact .unreported hr
    · intro h
      cases h with
      | unreported he =>
        cases hr.symm.trans he
        rfl
      | looped hr' | zeroByte hr' | missing hr' => cases hr.symm.trans hr'
  | ok reported =>
    dsimp only [bind, Except.bind]
    constructor
    · intro h
      split at h
      · cases h
      · next hc =>
        cases h
        exact .looped hr hc
      · next hc =>
        cases h
        exact .zeroByte hr hc
      · next hw hc =>
        cases h
        exact .missing hr hc fun he => hw (he ▸ rfl)
    · intro h
      cases h with
      | unreported he => cases hr.symm.trans he
      | looped hr' hc | zeroByte hr' hc =>
        cases hr.symm.trans hr'
        rw [hc]
        rfl
      | @missing _ _ why hr' hc hw =>
        cases hr.symm.trans hr'
        rw [hc]
        cases why with
        | zeroByte => exact absurd rfl hw
        | _ => rfl

theorem executablePath_of_grows (hg : Grows t t') {profile : Profile} {reported : String}
    (h : executablePath host t here profile = .ok reported) :
    executablePath host t' here profile = .ok reported := by
  unfold executablePath at h ⊢
  split at h
  · exact h
  · split at h
    · next hr =>
      rw [hg.readLink hr]
      exact h
    · cases h
    · cases h
  · exact h
  · exact h
  · cases h

theorem programPath_of_grows (hg : Grows t t') (h : programPath host t here = .ok p) :
    programPath host t' here = .ok p := by
  obtain ⟨reported, he, hc⟩ := programPath_ok_iff.1 h
  exact programPath_ok_iff.2 ⟨reported, executablePath_of_grows hg he, hg.canonical hc⟩

end Whereabouts

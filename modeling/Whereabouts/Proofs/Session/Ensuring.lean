import Whereabouts.Proofs.FileTree.Missing
import Whereabouts.Proofs.Session.Calls
import Whereabouts.Proofs.Session.Directories

/-!
# When a directory is made sure of

Whether a private directory can be made sure of is seen in the tree before: the directory can be used, or nothing is
there and what is missing of its path can be made in the last directory that is (`ensureDir_succeeds_iff`).
-/

namespace Whereabouts

open FileTree

variable {s : State} {p q : Path}

theorem ensureDir_ok_iff :
    ((ensureDir p).run s).1 = .ok q ↔ q = p ∧ (ensurePrivate s.tree s.here p).result = .ok () := by
  obtain ⟨log, hrun⟩ := run_ensureDir p s
  rw [hrun, ensured_ok]
  dsimp only
  cases (ensurePrivate s.tree s.here p).result with
  | error f => exact ⟨nofun, nofun⟩
  | ok u =>
    refine ⟨fun h => ?_, fun h => ?_⟩
    · cases h
      exact ⟨rfl, rfl⟩
    · rw [h.1]
      rfl

theorem usable_of_ensureDir (h : ((ensureDir p).run s).1 = .ok q) :
    q = p ∧ ((ensureDir p).run s).2.tree.Usable ((ensureDir p).run s).2.here p.route := by
  obtain ⟨rfl, he⟩ := ensureDir_ok_iff.1 h
  obtain ⟨log, hrun⟩ := run_ensureDir q s
  rw [hrun, ensured_ok]
  exact ⟨rfl, usable_of_ensurePrivate he⟩

/-- A path of proper names is made sure of exactly if it leads to a directory that can be used, or if no entry is
found at it and the longest beginning with an entry leads to such a directory, below which all names are short enough
and free of the zero character. What is returned is the path, and it can be used. -/
theorem ensureDir_succeeds_iff {s : State} {p : Path} (ht : s.tree.WellFormed) (hp : p.isNormal = true) :
    (((ensureDir p).run s).1 = .ok p ↔
      s.tree.Usable s.here p.route ∨
        ¬s.tree.HasEntry s.here p ∧ ∃ missing base, s.tree.FoundUpTo s.here p missing base ∧
          s.tree.Usable s.here (Path.mk p.anchor base).route ∧
          ∀ n ∈ missing, n.utf8ByteSize ≤ 255 ∧ '\x00' ∉ n.toList) ∧
    ∀ q, ((ensureDir p).run s).1 = .ok q →
      q = p ∧ ((ensureDir p).run s).2.tree.Usable ((ensureDir p).run s).2.here p.route := by
  refine ⟨?_, fun q => usable_of_ensureDir⟩
  rw [ensureDir_ok_iff, ensurePrivate_ok_iff_makeable ht hp]
  refine ⟨fun ⟨_, h⟩ => h.imp_right ?_, fun h => ⟨rfl, h.imp_right ?_⟩⟩
  · rintro ⟨hnone, missing, base, hmake⟩
    exact ⟨hnone, missing, base, hmake.toFoundUpTo, hmake.usable, hmake.fits⟩
  · rintro ⟨hnone, missing, base, hfound, husable, hfits⟩
    exact ⟨hnone, missing, base, hfound, husable, hfits⟩

/-- A directory in a directory that is missing behind a link. -/
theorem ensureDir_succeeds_behind_link :
    let s := State.start {} [.dir "/d" 0o700, .link "/l" "d"] "/"
    ((ensureDir ⟨.root, ["b", "a", "l"]⟩).run s).1 = .ok ⟨.root, ["b", "a", "l"]⟩ := by
  intro s
  have ht : s.tree.WellFormed := (proper_build _).toWellFormed
  have hnone : ∀ {p : Path}, s.tree.lstat s.here p.route = .error .noEntry → ¬s.tree.HasEntry s.here p := by
    intro p he ⟨found, hf⟩
    rw [he] at hf
    cases hf
  refine (ensureDir_succeeds_iff ht (by decide)).1.2 (.inr ⟨hnone (by decide +kernel), ["b", "a"], ["l"], ?_, ?_, ?_⟩)
  · refine ⟨rfl, ⟨_, (by decide +kernel : s.tree.lstat s.here _ = .ok (["l"], .link "d"))⟩, fun {more} hs hne => ?_⟩
    rcases List.suffix_cons_iff.1 hs with rfl | hs
    · exact hnone (by decide +kernel)
    rcases List.suffix_cons_iff.1 hs with rfl | hs
    · exact hnone (by decide +kernel)
    · exact absurd (List.suffix_nil.1 hs) hne
  · exact ⟨["d"], 0o700, by decide +kernel, by decide, by decide⟩
  · decide

/-- A name that holds the zero character is short enough and can still not be made. -/
theorem zero_named_directory_not_made :
    ¬∀ (s : State) (p : Path), s.tree.WellFormed → p.isNormal = true →
      (((ensureDir p).run s).1 = .ok p ↔
        s.tree.Usable s.here p.route ∨
          ¬s.tree.HasEntry s.here p ∧ ∃ missing base, s.tree.FoundUpTo s.here p missing base ∧
            s.tree.Usable s.here (Path.mk p.anchor base).route ∧ ∀ n ∈ missing, n.utf8ByteSize ≤ 255) := by
  intro h
  let s := State.start {} [] "/"
  let p : Path := ⟨.root, ["a\x00b"]⟩
  have hnone : ¬s.tree.HasEntry s.here p := fun ⟨found, hf⟩ => by
    have he : s.tree.lstat s.here p.route = .error .zeroByte := by decide +kernel
    rw [he] at hf
    cases hf
  have hfound : s.tree.FoundUpTo s.here p ["a\x00b"] [] :=
    .single ⟨([], .dir 0o755), by decide +kernel⟩ hnone
  have hok := (h s p (proper_build _).toWellFormed (by decide)).2
    (.inr ⟨hnone, _, _, hfound, ⟨[], 0o755, by decide +kernel, by decide, by decide⟩, by decide⟩)
  have herror : ((ensureDir p).run s).1 = .error .zeroByte := by decide +kernel
  rw [herror] at hok
  cases hok

end Whereabouts

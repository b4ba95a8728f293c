import Whereabouts.Proofs.FileTree.Missing

/-!
# Trying a directory for temporary files

Whether a directory can hold temporary files is found out by making a file in it under a name that
nothing has, and taking the file away again. `holdsFiles` says what comes of that from the tree alone
(`holdsFiles_iff_probe`).
-/

namespace Whereabouts

open FileTree

variable {t : FileTree} {here : Option Location} {dir name : String}

/-- The tree after a file was made in the directory under the name, and taken away again. -/
def probe (t : FileTree) (here : Option Location) (dir name : String) : Except Refusal FileTree := do
  let file := Route.ofString (entryText dir name)
  let t' ← t.makeFile here file
  t'.unlink here file

theorem probe_ok_iff : probe t here dir name = .ok t ↔
    ∃ t', t.makeFile here (.ofString (entryText dir name)) = .ok t' := by
  unfold probe
  dsimp only
  cases hm : t.makeFile here (.ofString (entryText dir name)) with
  | error why => exact ⟨nofun, fun ⟨t', h⟩ => nomatch h⟩
  | ok t' => exact ⟨fun _ => ⟨t', rfl⟩, fun _ => unlink_makeFile hm⟩

/-! ## The route of an entry -/

/-- The steps to a directory, without the one that a slash at the end of its text stands for. -/
def stepsTo (dir : String) : List String := (cut '/' dir).filter (· ≠ "")

theorem stepsOf_cases (dir : String) :
    Route.stepsOf dir = stepsTo dir ∨ Route.stepsOf dir = stepsTo dir ++ [""] := by
  unfold Route.stepsOf stepsTo
  dsimp only
  split
  · exact .inr rfl
  · exact .inl rfl

theorem stepsTo_append (dir below : String) : stepsTo (dir ++ "/" ++ below) = stepsTo dir ++ stepsTo below := by
  unfold stepsTo
  rw [← List.filter_append]
  exact congrArg _ (cut_append '/' dir below)

theorem stepsTo_of_plain (hn : Path.Plain name) : stepsTo name = [name] := by
  unfold stepsTo
  rw [cut_of_not_mem hn.2]
  simp [hn.1]

theorem stepsTo_entryText (hn : Path.Plain name) : stepsTo (entryText dir name) = stepsTo dir ++ [name] := by
  rw [Path.entryText_of_name hn.2, ← stepsTo_of_plain hn]
  split
  · next hl =>
    obtain ⟨cs, hcs⟩ := List.getLast?_eq_some_iff.1 hl
    have hdir : dir = String.ofList cs ++ "/" := String.toList_inj.1 (by simp [hcs])
    have hslash : stepsTo (String.ofList cs ++ "/" ++ "") = stepsTo (String.ofList cs) := by
      rw [stepsTo_append]
      exact List.append_nil _
    rw [String.append_empty] at hslash
    rw [hdir, hslash, stepsTo_append]
  · exact stepsTo_append dir name

theorem head?_entryText (hd : dir ≠ "") (hn : Path.Plain name) :
    (entryText dir name).toList.head? = dir.toList.head? := by
  obtain ⟨c, cs, hcs⟩ := List.exists_cons_of_ne_nil (mt String.toList_eq_nil_iff.1 hd)
  rw [Path.entryText_of_name hn.2]
  split <;> simp [hcs]

theorem getLast?_entryText (hn : Path.Plain name) : (entryText dir name).toList.getLast? ≠ some '/' := by
  have hne : name.toList ≠ [] := mt String.toList_eq_nil_iff.1 hn.1
  have hl : (entryText dir name).toList.getLast? = name.toList.getLast? := by
    rw [Path.entryText_of_name hn.2]
    split
    · rw [String.toList_append, List.getLast?_append, List.getLast?_eq_some_getLast hne, Option.some_or]
    · rw [String.toList_append, List.getLast?_append, List.getLast?_eq_some_getLast hne, Option.some_or]
  intro h
  exact hn.2 (List.mem_of_getLast? (hl ▸ h))

theorem route_entryText (hd : dir ≠ "") (hn : Path.Plain name) : Route.ofString (entryText dir name) =
    { absolute := (Route.ofString dir).absolute, steps := stepsTo dir ++ [name] } := by
  have hsteps : Route.stepsOf (entryText dir name) = stepsTo dir ++ [name] := by
    rw [← stepsTo_entryText hn]
    unfold Route.stepsOf
    simp [getLast?_entryText hn, stepsTo]
  unfold Route.ofString
  rw [hsteps, head?_entryText hd hn]

theorem hasSlash_entryText (hd : dir ≠ "") (hn : Path.Plain name) :
    (Route.ofString (entryText dir name)).hasSlash = false := by
  rw [route_entryText hd hn]
  unfold Route.hasSlash stepsTo
  rw [List.contains_eq_mem, decide_eq_false_iff_not, List.mem_append, not_or]
  exact ⟨by simp, by simpa using Ne.symm hn.1⟩

theorem hasZero_entryText (hd : dir ≠ "") (hn : Path.Plain name) (hz : '\x00' ∉ name.toList) :
    (Route.ofString (entryText dir name)).hasZero = (Route.ofString dir).hasZero := by
  have hany : ∀ (steps : List String) (step : String), '\x00' ∉ step.toList →
      ((steps ++ [step]).any fun s => s.toList.contains '\x00') = steps.any fun s => s.toList.contains '\x00' :=
    fun steps step hs => by simp [hs]
  rw [route_entryText hd hn]
  show (stepsTo dir ++ [name]).any _ = (Route.stepsOf dir).any _
  rw [hany _ _ hz]
  rcases stepsOf_cases dir with he | he
  · rw [he]
  · rw [he, hany _ _ (by simp)]

/-! ## The walk to an entry -/

/-- A relative path that is not empty has a step. -/
theorem stepsTo_ne_nil (hd : dir ≠ "") (hr : (Route.ofString dir).absolute = false) : stepsTo dir ≠ [] := by
  obtain ⟨c, cs, hcs⟩ := List.exists_cons_of_ne_nil (mt String.toList_eq_nil_iff.1 hd)
  have hc : c ≠ '/' := by simpa [Route.ofString, hcs] using hr
  have hfirst : ∃ p ps, pieces '/' dir.toList = (c :: p) :: ps := by
    rw [hcs, pieces, if_neg hc]
    cases pieces '/' cs with
    | nil => exact ⟨[], [], rfl⟩
    | cons p ps => exact ⟨p, ps, rfl⟩
  obtain ⟨p, ps, hp⟩ := hfirst
  have hne : String.ofList (c :: p) ≠ "" := by simp
  unfold stepsTo cut
  rw [hp, List.map_cons, List.filter_cons, if_pos (decide_eq_true hne)]
  exact List.cons_ne_nil _ _

theorem startOf_entryText (hd : dir ≠ "") (hn : Path.Plain name) :
    startOf here (.ofString (entryText dir name)) = startOf here (.ofString dir) := by
  rw [route_entryText hd hn]
  unfold startOf
  dsimp only
  cases ha : (Route.ofString dir).absolute with
  | true => rfl
  | false =>
    have hne : (Route.ofString dir).steps ≠ [] := by
      show Route.stepsOf dir ≠ []
      rcases stepsOf_cases dir with he | he
      · exact he ▸ stepsTo_ne_nil hd ha
      · simp [he]
    simp [hne]

/-- A walk to an entry starts where one to its directory does, and goes one step further. -/
theorem walk_entryText_iff {x : Reached} (hd : dir ≠ "") (hn : Path.Plain name) (hz : '\x00' ∉ name.toList) :
    t.walk here false (.ofString (entryText dir name)) = .ok x ↔ (Route.ofString dir).hasZero = false ∧
      ∃ start, startOf here (.ofString dir) = some start ∧ Leads t false maxLinks start (stepsTo dir ++ [name]) x := by
  rw [walk_ok_iff, hasZero_entryText hd hn hz, startOf_entryText hd hn, route_entryText hd hn]

theorem stat_dir_iff {l : Location} {mode : Mode} : t.stat here (.ofString dir) = .ok (l, .dir mode) ↔
    (Route.ofString dir).hasZero = false ∧ ∃ start, startOf here (.ofString dir) = some start ∧
      Leads t true maxLinks start (stepsTo dir) (.entry l (.dir mode)) := by
  rw [stat_ok_iff, walk_ok_iff]
  refine and_congr_right fun _ => exists_congr fun start => and_congr_right fun _ => ?_
  show Leads t true maxLinks start (Route.stepsOf dir) _ ↔ _
  rcases stepsOf_cases dir with he | he
  · rw [he]
  · have hfilter : (stepsTo dir ++ [""]).filter (· ≠ "") = stepsTo dir := by simp [stepsTo]
    rw [he]
    exact ⟨fun h => hfilter ▸ h.unslashed (slashed_filter _), fun h => h.slashed⟩

/-! ## What the trial comes to -/

theorem holdsFiles_iff : holdsFiles t here dir = true ↔ t.Usable here (.ofString dir) := by
  unfold holdsFiles Usable
  split
  · next loc mode hs =>
    rw [Bool.and_eq_true]
    constructor
    · exact fun h => ⟨loc, mode, hs, h⟩
    · rintro ⟨l, m, he, h⟩
      rw [hs] at he
      cases he
      exact h
  · next hs => exact ⟨nofun, fun ⟨l, mode, h, _⟩ => absurd h (hs l mode)⟩

theorem usable_of_makeFile {t' : FileTree} (hd : dir ≠ "") (hn : EntryName name) (hs : '/' ∉ name.toList)
    (hz : '\x00' ∉ name.toList) (h : t.makeFile here (.ofString (entryText dir name)) = .ok t') :
    t.Usable here (.ofString dir) := by
  have hplain : Path.Plain name := ⟨hn.ne_empty, hs⟩
  obtain ⟨hslash, l, last, hw, ha⟩ := addEntry_of_create (makeFile_ok h).2
  obtain ⟨⟨mode, hg, hwrite⟩, -⟩ := addEntry_ok ha
  rw [withoutSlash_of_not_hasSlash hslash, walk_entryText_iff hd hplain hz] at hw
  obtain ⟨hzero, start, hstart, hl⟩ := hw
  obtain ⟨m, hg', hx⟩ := hl.free.1
  obtain ⟨-, m', hlead⟩ := hl.before_vacant hn.ne_empty hn.ne_dot hn.ne_parent
  obtain rfl : m = mode := by simpa [hg] using hg'.symm
  obtain rfl : m' = m := by simpa [hg] using hlead.get?.symm
  exact ⟨l, m', stat_dir_iff.2 ⟨hzero, start, hstart, hlead⟩, hwrite, hx⟩

theorem makeFile_of_usable (hd : dir ≠ "") (hn : EntryName name) (hs : '/' ∉ name.toList)
    (hz : '\x00' ∉ name.toList) (hnew : ∀ found, t.lstat here (.ofString (entryText dir name)) ≠ .ok found)
    (h : t.Usable here (.ofString dir)) : ∃ t', t.makeFile here (.ofString (entryText dir name)) = .ok t' := by
  have hplain : Path.Plain name := ⟨hn.ne_empty, hs⟩
  obtain ⟨l, mode, hst, hwrite, hx⟩ := h
  obtain ⟨hzero, start, hstart, hl⟩ := stat_dir_iff.1 hst
  rcases hl.enters hx hn with hv | ⟨node, he⟩
  · have hw := (walk_entryText_iff hd hplain hz).2 ⟨hzero, start, hstart, hv⟩
    exact ⟨_, makeFile_vacant (hasSlash_entryText hd hplain) hw hl.get? hwrite⟩
  · have hw := (walk_entryText_iff hd hplain hz).2 ⟨hzero, start, hstart, he⟩
    exact absurd (lstat_ok_iff.2 hw) (hnew _)

/-- A directory can hold files exactly where a file can be made under a name that nothing has. The
file is then taken away again, and the tree is as it was. -/
theorem holdsFiles_iff_probe (hd : dir ≠ "") (hn : EntryName name) (hs : '/' ∉ name.toList)
    (hz : '\x00' ∉ name.toList) (hnew : ∀ found, t.lstat here (.ofString (entryText dir name)) ≠ .ok found) :
    holdsFiles t here dir = true ↔ probe t here dir name = .ok t := by
  rw [holdsFiles_iff, probe_ok_iff]
  exact ⟨makeFile_of_usable hd hn hs hz hnew, fun ⟨_, h⟩ => usable_of_makeFile hd hn hs hz h⟩

end Whereabouts

import Whereabouts.Proofs.FileTree.Canonical
import Whereabouts.Proofs.FileTree.Creation
import Whereabouts.Proofs.PathText

/-!
# The file that a temporary name names

A path in normal form is one of plain names, so the text by which a temporary file is made is that of
the path that is returned for it (`tempFileName_made`).
-/

namespace Whereabouts

open FileTree

namespace Path

variable {p : Path}

theorem isNormal_iff : p.isNormal = true ↔
    p.isAbsolute = true ∧ ∀ n ∈ p.names, Plain n ∧ n ≠ "." ∧ n ≠ ".." := by
  unfold isNormal
  rw [Bool.and_eq_true, List.all_eq_true]
  refine and_congr_right fun _ => forall_congr' fun n => imp_congr_right fun _ => ?_
  simp [isName, Plain, and_assoc, and_left_comm, and_comm]

theorem normal_of_isNormal (h : p.isNormal = true) : p.normal = p := by
  obtain ⟨ha, hn⟩ := isNormal_iff.1 h
  have hup : ".." ∉ p.names.reverse := fun hm => (hn ".." (List.mem_reverse.1 hm)).2.2 rfl
  unfold normal
  rw [foldl_push_of_not_mem hup]
  simp

theorem isNormal_child {name : String} (h : p.isNormal = true)
    (hn : Plain name ∧ name ≠ "." ∧ name ≠ "..") : (p.child name).isNormal = true := by
  obtain ⟨ha, hns⟩ := isNormal_iff.1 h
  refine isNormal_iff.2 ⟨ha, fun n hm => ?_⟩
  rcases List.mem_cons.1 hm with rfl | hm
  · exact hn
  · exact hns n hm

end Path

/-! ## Paths seen from the working directory -/

section
variable {here : Option Location}

theorem fromHere_of_isNormal {p : Path} (h : p.isNormal = true) : fromHere here p = .ok p := by
  unfold fromHere
  rw [if_pos (Path.isNormal_iff.1 h).1, Path.normal_of_isNormal h]

/-- A path of proper names is read back from its text. -/
theorem fromHere_text {p : Path} (h : p.isNormal = true) : fromHere here (.ofString p.toString) = .ok p := by
  obtain ⟨ha, hns⟩ := Path.isNormal_iff.1 h
  rw [Path.ofString_toString ha (fun n hn => (hns n hn).1) fun hd => (hns _ hd).2.1 rfl]
  exact fromHere_of_isNormal h

theorem route_text {p : Path} (h : p.isNormal = true) : Route.ofString p.toString = p.route := by
  obtain ⟨ha, hns⟩ := Path.isNormal_iff.1 h
  rw [Path.route_toString ha fun n hn => (hns n hn).1, route_of_isAbsolute ha]

theorem isNormal_fromHere {s : String} {q : Path}
    (hh : ∀ n ∈ here.getD [], n ≠ "" ∧ n ≠ "." ∧ '/' ∉ n.toList)
    (h : fromHere here (.ofString s) = .ok q) : q.isNormal = true := by
  have hs : ∀ n ∈ (Path.ofString s).names, n ≠ "" ∧ n ≠ "." ∧ '/' ∉ n.toList :=
    fun n hn => Path.mem_components (List.mem_reverse.1 hn)
  unfold fromHere at h
  split at h
  · next ha =>
    cases h
    exact Path.isNormal_normal ha hs
  · next ha =>
    cases here with
    | none => cases h
    | some loc =>
      cases h
      dsimp only
      rw [append_of_relative (Bool.not_eq_true _ ▸ ha)]
      refine Path.isNormal_normal rfl fun n hn => ?_
      rcases List.mem_append.1 hn with hn | hn
      · exact hs n hn
      · exact hh n hn

end

/-! ## Names of temporary files -/

/-- The names that the library draws for temporary files hold no slash. -/
def Host.NamesWithoutSlash (host : Host) : Prop := ∀ part ∈ host.tempNames, '/' ∉ part.toList

theorem slash_not_mem_tempNamePart {host : Host} (h : host.NamesWithoutSlash) (n : Nat) :
    '/' ∉ (tempNamePart host n).toList := by
  unfold tempNamePart
  split
  · next hp => exact h _ (List.mem_of_getElem? hp)
  · unfold fiveDigits
    intro hm
    simp only [String.toList_append, String.toList_ofList, List.mem_append, List.mem_replicate] at hm
    rcases hm with hm | hm | hm
    · exact absurd hm (by decide)
    · exact absurd hm.2 (by decide)
    · exact absurd (Nat.isDigit_of_mem_toDigits (by decide) (by decide) hm) (by decide)

section
variable {host : Host} {t t' : FileTree} {here : Option Location} {dir start file : String}

theorem tempFileName_ok {attempts tried tried' : Nat}
    (h : tempFileName host t here dir start attempts tried = (.ok (t', file), tried')) :
    ∃ n, file = entryText dir (start ++ tempNamePart host n) ∧ t.makeFile here (.ofString file) = .ok t' := by
  induction attempts generalizing tried with
  | zero => cases h
  | succ attempts ih =>
    unfold tempFileName at h
    dsimp only at h
    split at h
    · next hm =>
      cases h
      exact ⟨tried, rfl, hm⟩
    · exact ih h
    · cases h

theorem steps_of_slash {s : String} (hs : s.toList.getLast? = some '/') :
    (Route.ofString s).steps = [] ∨ "" ∈ (Route.ofString s).steps := by
  show Route.stepsOf s = [] ∨ "" ∈ Route.stepsOf s
  unfold Route.stepsOf
  dsimp only
  rw [hs]
  cases hn : (cut '/' s).filter (· ≠ "") with
  | nil => exact .inl rfl
  | cons n ns => exact .inr (List.mem_append_right _ List.mem_cons_self)

theorem makeFile_of_slash {s : String} (hs : s.toList.getLast? = some '/') :
    t.makeFile here (.ofString s) ≠ .ok t' := by
  intro h
  obtain ⟨hslash, hc⟩ := makeFile_ok h
  rcases steps_of_slash hs with hnil | hm
  · obtain ⟨-, dir, name, hw, -⟩ := create_ok hc
    obtain ⟨-, loc, -, hl⟩ := walk_ok_iff.1 hw
    rw [withoutSlash_of_not_hasSlash hslash, hnil] at hl
    cases hl
  · unfold Route.hasSlash at hslash
    rw [List.contains_iff_mem.2 hm] at hslash
    cases hslash

theorem proper_of_makeFile {q : Path} {name : String} (hq : q.isNormal = true) (hs : '/' ∉ name.toList)
    (h : t.makeFile here (.ofString (q.child name).toString) = .ok t') :
    Path.Plain name ∧ name ≠ "." ∧ name ≠ ".." := by
  obtain ⟨ha, hns⟩ := Path.isNormal_iff.1 hq
  have hne : name ≠ "" := by
    intro he
    rw [he] at h
    exact makeFile_of_slash (Path.getLast?_child_empty ha) h
  have hroute := Path.route_toString (p := q.child name) ha fun n hn => by
    rcases List.mem_cons.1 hn with rfl | hn
    · exact ⟨hne, hs⟩
    · exact (hns n hn).1
  obtain ⟨hslash, hc⟩ := makeFile_ok h
  obtain ⟨-, dir, nm, hw, -⟩ := create_ok hc
  rw [withoutSlash_of_not_hasSlash hslash, hroute] at hw
  obtain ⟨-, loc, -, hl⟩ := walk_ok_iff.1 hw
  have he : EntryName name := hl.last_of_vacant (by simp [Path.child])
  exact ⟨⟨hne, hs⟩, he.ne_dot, he.ne_parent⟩

/-- A temporary file is made by the text of a path of proper names in the wanted directory. -/
theorem tempFileName_path {q : Path} {attempts tried tried' : Nat} (hh : host.NamesWithoutSlash)
    (hq : q.isNormal = true) (hs : '/' ∉ start.toList)
    (h : tempFileName host t here q.toString start attempts tried = (.ok (t', file), tried')) :
    ∃ p : Path, file = p.toString ∧ p.isNormal = true ∧ t.makeFile here (.ofString file) = .ok t' := by
  obtain ⟨n, hf, hm⟩ := tempFileName_ok h
  obtain ⟨ha, hns⟩ := Path.isNormal_iff.1 hq
  have hslash : '/' ∉ (start ++ tempNamePart host n).toList := by
    rw [String.toList_append, List.mem_append, not_or]
    exact ⟨hs, slash_not_mem_tempNamePart hh n⟩
  rw [Path.entryText_toString ha (fun n hn => (hns n hn).1) hslash] at hf
  rw [hf] at hm ⊢
  exact ⟨_, rfl, Path.isNormal_child hq (proper_of_makeFile hq hslash hm), hm⟩

/-- The path that is returned for a temporary file names a new and empty file. -/
theorem tempFileName_made {q : Path} {attempts tried tried' : Nat} (hh : host.NamesWithoutSlash)
    (hq : q.isNormal = true) (hs : '/' ∉ start.toList)
    (h : tempFileName host t here q.toString start attempts tried = (.ok (t', file), tried')) :
    ∃ p loc, fromHere here (.ofString file) = .ok p ∧ t'.lstat here p.route = .ok (loc, .file 0o600 "") := by
  obtain ⟨p, rfl, hp, hm⟩ := tempFileName_path hh hq hs h
  obtain ⟨loc, hl⟩ := lstat_makeFile hm
  rw [route_text hp] at hl
  exact ⟨p, loc, fromHere_text hp, hl⟩

end

end Whereabouts

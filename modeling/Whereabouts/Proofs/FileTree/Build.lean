import Whereabouts.Proofs.FileTree.Canonical
import Whereabouts.Proofs.FileTree.Proper

/-!
# Trees that were built

The root of a built tree is a directory, and every walk leads along names that entries can have.
-/

namespace Whereabouts.FileTree

variable {t : FileTree} {here : Option Location}

theorem isDir_build (plan : List Planned) : (build plan).IsDir [] :=
  (proper_build plan).root

/-! ## Names on the way -/

theorem slash_not_mem_route {s name : String} (h : name ∈ (Route.ofString s).steps) : '/' ∉ name.toList := by
  have hcut : ∀ n ∈ (cut '/' s).filter (· ≠ ""), '/' ∉ n.toList := by
    intro n hn
    obtain ⟨p, hp, rfl⟩ := List.mem_map.1 (List.mem_filter.1 hn).1
    rw [String.toList_ofList]
    exact sep_not_mem_pieces '/' s.toList p hp
  have hm : name ∈ Route.stepsOf s := h
  unfold Route.stepsOf at hm
  dsimp only at hm
  split at hm
  · rcases List.mem_append.1 hm with hm | hm
    · exact hcut name hm
    · rw [List.mem_singleton.1 hm]
      simp
  · exact hcut name hm

/-- A walk along names without slashes leads along names that entries can have, also through links. -/
theorem Leads.proper {follow : Bool} {n : Nat} {loc l : Location} {steps : List String} {node : Node}
    (h : Leads t follow n loc steps (.entry l node)) (hl : ∀ name ∈ loc, name ≠ "" ∧ name ≠ "." ∧ '/' ∉ name.toList)
    (hs : ∀ name ∈ steps, '/' ∉ name.toList) : ∀ name ∈ l, name ≠ "" ∧ name ≠ "." ∧ '/' ∉ name.toList := by
  generalize hr : Reached.entry l node = r at h
  have htail : ∀ {step : String} {rest : List String}, (∀ name ∈ step :: rest, '/' ∉ name.toList) →
      ∀ name ∈ rest, '/' ∉ name.toList := fun h name hm => h name (List.mem_cons_of_mem _ hm)
  have hcons : ∀ {name : String} {rest : List String} {loc : Location}, EntryName name →
      (∀ n ∈ loc, n ≠ "" ∧ n ≠ "." ∧ '/' ∉ n.toList) → (∀ n ∈ name :: rest, '/' ∉ n.toList) →
      ∀ n ∈ name :: loc, n ≠ "" ∧ n ≠ "." ∧ '/' ∉ n.toList := by
    intro name rest loc hname hloc hrest n hn
    rcases List.mem_cons.1 hn with rfl | hn
    · exact ⟨hname.ne_empty, hname.ne_dot, hrest n List.mem_cons_self⟩
    · exact hloc n hn
  induction h with
  | done => cases hr; exact hl
  | slash _ ih => exact ih hl (htail hs) hr
  | dot _ _ ih => exact ih hl (htail hs) hr
  | up _ _ ih => exact ih (fun name hm => hl name (List.mem_of_mem_tail hm)) (htail hs) hr
  | vacant => cases hr
  | dir _ hn _ _ ih => exact ih (hcons hn hl hs) (htail hs) hr
  | file _ hn => cases hr; exact hcons hn hl hs
  | stay _ hn => cases hr; exact hcons hn hl hs
  | link _ _ _ _ _ ih =>
    refine ih ?_ ?_ hr
    · split
      · simp
      · exact hl
    · intro name hm
      rcases List.mem_append.1 hm with hm | hm
      · exact slash_not_mem_route hm
      · exact htail hs name hm

theorem proper_of_stat {s : String} {loc : Location} {node : Node}
    (hh : ∀ name ∈ here.getD [], name ≠ "" ∧ name ≠ "." ∧ '/' ∉ name.toList)
    (h : t.stat here (.ofString s) = .ok (loc, node)) :
    ∀ name ∈ loc, name ≠ "" ∧ name ≠ "." ∧ '/' ∉ name.toList := by
  obtain ⟨-, start, hs, hl⟩ := walk_ok_iff.1 (stat_ok_iff.1 h)
  refine hl.proper ?_ fun name hm => slash_not_mem_route hm
  unfold startOf at hs
  split at hs
  · cases hs
    simp
  · split at hs
    · cases hs
    · subst hs
      exact hh

/-- The path so far has no other characters in its names than the steps and the targets of links have. -/
theorem Unwinds.without {c : Char} {n : Nat} {active : List Path} {p q : Path} {steps : List String}
    (h : Unwinds t here n active p steps q) (hdot : c ≠ '.')
    (ht : ∀ {loc target}, t.get? loc = some (.link target) → ∀ name ∈ (Route.ofString target).steps, c ∉ name.toList)
    (hp : ∀ name ∈ p.names, c ∉ name.toList) (hs : ∀ name ∈ steps, c ∉ name.toList) :
    ∀ name ∈ q.names, c ∉ name.toList := by
  induction h with
  | done => exact hp
  | skip _ _ ih => exact ih hp fun name hm => hs name (List.mem_cons_of_mem _ hm)
  | up _ ih =>
    refine ih (fun name hm => ?_) fun name hm => hs name (List.mem_cons_of_mem _ hm)
    have hpush : name ∈ Path.push _ _ ".." := hm
    rcases Path.mem_push hpush with hm | rfl
    · exact hp name hm
    · simpa using hdot
  | entry _ _ _ _ _ ih =>
    refine ih (fun name hm => ?_) fun name hm => hs name (List.mem_cons_of_mem _ hm)
    rcases List.mem_cons.1 hm with rfl | hm
    · exact hs _ List.mem_cons_self
    · exact hp name hm
  | link _ _ hl _ _ _ ih ih' =>
    refine ih' (ih (fun name hm => ?_) (ht (get?_of_lstat hl))) fun name hm => hs name (List.mem_cons_of_mem _ hm)
    split at hm
    · cases hm
    · exact hp name hm

theorem noSlash_of_canonical {p q : Path} (h : t.canonical here p = .ok q)
    (hh : ∀ name ∈ here.getD [], '/' ∉ name.toList) (hp : ∀ name ∈ p.names, '/' ∉ name.toList) :
    ∀ name ∈ q.names, '/' ∉ name.toList := by
  obtain ⟨q', hu, hg⟩ := canonical_ok_iff.1 h
  have hq : ∀ name ∈ q'.names, '/' ∉ name.toList :=
    hu.without (by decide) (fun _ _ => slash_not_mem_route) (fun _ hm => by cases hm)
      fun name hm => hp name (List.mem_reverse.1 hm)
  unfold grounded at hg
  split at hg
  · cases hg
    exact hq
  · next ha =>
    split at hg
    · cases hg
    · next loc =>
      cases hg
      rw [append_of_relative (by simpa using ha)]
      intro name hm
      rcases Path.mem_foldl_push hm with hm | hm
      · cases hm
      rcases List.mem_append.1 (List.mem_reverse.1 hm) with hm | hm
      · exact hq name hm
      · exact hh name hm

end Whereabouts.FileTree

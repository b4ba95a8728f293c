import Whereabouts.Directory
import Whereabouts.Proofs.FileTree.Leads

/-!
# How looks at a tree are refused

A walk changes nothing, so the refusals that only a change can meet do not occur. Whether a route leads to a
directory has no answer in two cases, where a directory cannot be searched and where a name is too long
(`isDirectory_error`).
-/

namespace Whereabouts.FileTree

/-- A walk along the steps can meet the name, in the steps or in a link. -/
def Meets (t : FileTree) (steps : List String) (name : String) : Prop :=
  name ∈ steps ∨ ∃ loc target, t.get? loc = some (.link target) ∧ name ∈ (Route.ofString target).steps

/-- Why it cannot be seen where the steps lead. -/
inductive Unseen (t : FileTree) (steps : List String) : Refusal → Prop where
  | denied {loc : Location} {mode : Mode} (hd : t.get? loc = some (.dir mode)) (hs : mode.searchable = false) :
      Unseen t steps .denied
  | nameTooLong {name : String} (hm : t.Meets steps name) (hl : maxNameBytes < name.utf8ByteSize) :
      Unseen t steps .nameTooLong

/-- What a walk along the steps can be refused by. -/
inductive Refuses (t : FileTree) (steps : List String) : Refusal → Prop where
  | noEntry : Refuses t steps .noEntry
  | notDirectory : Refuses t steps .notDirectory
  | tooManyLinks : Refuses t steps .tooManyLinks
  | unseen {why : Refusal} (h : Unseen t steps why) : Refuses t steps why

variable {t : FileTree} {here : Option Location} {follow : Bool} {r : Route} {why : Refusal} {steps : List String}

theorem why_of_unseen (h : Unseen t steps why) : why = .denied ∨ why = .nameTooLong := by
  cases h with
  | denied => exact .inl rfl
  | nameTooLong => exact .inr rfl

theorem Refuses.ne_zeroByte (h : Refuses t steps why) : why ≠ .zeroByte := by
  cases h with
  | noEntry | notDirectory | tooManyLinks => nofun
  | unseen h => rcases why_of_unseen h with rfl | rfl <;> nofun

theorem descend_error {jump : Location → List String → Except Refusal Reached}
    (hj : ∀ loc rest why, (∀ n ∈ rest, t.Meets steps n) → jump loc rest = .error why → Refuses t steps why) :
    ∀ (rest : List String) (loc : Location), (∀ n ∈ rest, t.Meets steps n) →
      descend t follow jump loc rest = .error why → Refuses t steps why
  | [], loc, _, h => by
    rw [descend] at h
    split at h
    · cases h
    · cases h
      exact .noEntry
  | name :: rest, loc, hm, h => by
    have hrest : ∀ n ∈ rest, t.Meets steps n := fun n hn => hm n (List.mem_cons_of_mem _ hn)
    have ih := fun loc => descend_error hj rest loc hrest
    by_cases hn : name = ""
    · subst hn
      rw [descend] at h
      exact ih loc h
    rw [descend_cons hn] at h
    split at h
    · next mode hd =>
      split at h
      · next hs =>
        cases h
        exact .unseen (.denied hd (by simpa using hs))
      split at h
      · exact ih loc h
      split at h
      · exact ih loc.tail h
      split at h
      · next hl =>
        cases h
        exact .unseen (.nameTooLong (hm name List.mem_cons_self) hl)
      split at h
      · split at h
        · cases h
        · cases h
          exact .noEntry
      · exact ih (name :: loc) h
      · split at h
        · cases h
        · cases h
          exact .notDirectory
      · next target ht =>
        split at h
        · cases h
        · refine hj _ _ _ (fun n hn => ?_) h
          rcases List.mem_append.1 hn with hn | hn
          · exact .inr ⟨_, target, ht, hn⟩
          · exact hrest n hn
    · cases h
      exact .notDirectory

theorem walkLinks_error {n : Nat} {loc : Location} {rest : List String} (hm : ∀ n ∈ rest, t.Meets steps n)
    (h : walkLinks t follow n loc rest = .error why) : Refuses t steps why := by
  induction n generalizing loc rest why with
  | zero =>
    refine descend_error (fun _ _ _ _ hj => ?_) rest loc hm h
    cases hj
    exact .tooManyLinks
  | succ n ih => exact descend_error (fun _ _ _ hm hj => ih hm hj) rest loc hm h

theorem walk_error (h : t.walk here follow r = .error why) :
    r.hasZero = true ∧ why = .zeroByte ∨ r.hasZero = false ∧ Refuses t r.steps why := by
  have hsteps : ∀ n ∈ r.steps, t.Meets r.steps n := fun _ => .inl
  unfold walk at h
  split at h
  · next hz =>
    cases h
    exact .inl ⟨hz, rfl⟩
  · next hz =>
    refine .inr ⟨by simpa using hz, ?_⟩
    split at h
    · exact walkLinks_error hsteps h
    · split at h
      · cases h
        exact .noEntry
      · cases h
        exact .noEntry
      · exact walkLinks_error hsteps h

theorem stat_error (h : t.stat here r = .error why) :
    r.hasZero = true ∧ why = .zeroByte ∨ r.hasZero = false ∧ Refuses t r.steps why := by
  unfold stat at h
  cases hw : t.walk here true r with
  | error e =>
    rw [hw] at h
    cases h
    exact walk_error hw
  | ok x =>
    rw [hw] at h
    cases x with
    | entry => cases h
    | vacant =>
      cases h
      exact .inr ⟨(walk_ok_iff.1 hw).1, .noEntry⟩

theorem zero_of_stat (h : t.stat here r = .error .zeroByte) : r.hasZero = true := by
  rcases stat_error h with ⟨hz, -⟩ | ⟨-, hr⟩
  · exact hz
  · exact absurd rfl hr.ne_zeroByte

theorem zero_of_lstat (h : t.lstat here r = .error .zeroByte) : r.hasZero = true := by
  unfold lstat at h
  cases hw : t.walk here false r with
  | error e =>
    rw [hw] at h
    cases h
    rcases walk_error hw with ⟨hz, -⟩ | ⟨-, hr⟩
    · exact hz
    · exact absurd rfl hr.ne_zeroByte
  | ok x =>
    rw [hw] at h
    cases x <;> cases h

theorem isDirectory_error (h : t.isDirectory here r = .error why) : Unseen t r.steps why := by
  unfold isDirectory at h
  split at h
  any_goals cases h
  next hne hnd hml hzb hs =>
    rcases stat_error hs with ⟨-, rfl⟩ | ⟨-, hr⟩
    · contradiction
    · cases hr with
      | unseen h => exact h
      | noEntry | notDirectory | tooManyLinks => contradiction

end Whereabouts.FileTree

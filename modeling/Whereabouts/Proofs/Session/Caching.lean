import Whereabouts.Proofs.Session.Calls

/-!
# Caching is invisible

A session and the same session with kept values cleared in between run through twins, so they give
the same answers and leave the same tree (`clearings_change_nothing`). Only the search for resources
is left out: it may find another directory once the program has made new ones.
-/

namespace Whereabouts

def Step.isClearing : Step → Bool
  | .clear _ | .clearAll => true
  | _ => false

variable {host : Host} {s t : State}

theorem Twins.resetLog {counts : Bool} (h : Twins host counts s t) :
    Twins host counts { s with log := [] } { t with log := [] } :=
  h.move ⟨rfl, rfl, .refl _⟩ ⟨rfl, rfl, .refl _⟩ rfl rfl h.bare

theorem Twins.clearing (h : Twins host false s t) {st : Step} (hc : st.isClearing = true) :
    Twins host false s (Session.step host t st).2 := by
  cases st with
  | clear l => exact ⟨h.bare, h.left, h.resetLog.right.clear l⟩
  | clearAll => exact ⟨h.bare, h.left, faithful_of_kept_nothing rfl⟩
  | _ => cases hc

theorem Twins.step {counts : Bool} (h : Twins host counts s t) {st : Step} (hs : st.IsShared counts) :
    (Session.step host s st).1.1 = (Session.step host t st).1.1 ∧
      Twins host counts (Session.step host s st).2 (Session.step host t st).2 := by
  obtain ⟨ha, ht, -, -⟩ := alike_answer h.resetLog st hs
  exact ⟨ha, ht⟩

/-- The answers to the steps that are not marked. -/
def unmarked (marks : List (Step × Bool)) (answers : List (Answer × List String)) : List Answer :=
  ((marks.zip answers).filter fun x => !x.1.2).map fun x => x.2.1

theorem Twins.run {marks : List (Step × Bool)} (h : Twins host false s t)
    (hs : ∀ m ∈ marks, m.2 = false → m.1.IsShared false)
    (hc : ∀ m ∈ marks, m.2 = true → m.1.isClearing = true) :
    unmarked marks (Session.run host t (marks.map (·.1))).1 =
        (Session.run host s ((marks.filter (!·.2)).map (·.1))).1.map (·.1) ∧
      Twins host false (Session.run host s ((marks.filter (!·.2)).map (·.1))).2
        (Session.run host t (marks.map (·.1))).2 := by
  induction marks generalizing s t with
  | nil => exact ⟨rfl, h⟩
  | cons m marks ih =>
    obtain ⟨st, mark⟩ := m
    have hs' := fun m hm => hs m (List.mem_cons_of_mem _ hm)
    have hc' := fun m hm => hc m (List.mem_cons_of_mem _ hm)
    cases mark with
    | true => exact ih (h.clearing (hc _ List.mem_cons_self rfl)) hs' hc'
    | false =>
      obtain ⟨ha, ht⟩ := h.step (hs _ List.mem_cons_self rfl)
      obtain ⟨has, hts⟩ := ih ht hs' hc'
      exact ⟨List.cons_eq_cons.2 ⟨ha.symm, has⟩, hts⟩

/-- Clearing kept values at any place of a session changes no answer and no tree, since what is kept
is what a fresh lookup gives. The cleared session has its clearings marked. -/
theorem clearings_change_nothing {env : Environment} {plan : List Planned} {dir : String}
    {marks : List (Step × Bool)} (hsteps : ∀ m ∈ marks, m.2 = false → m.1.IsShared false)
    (hclear : ∀ m ∈ marks, m.2 = true → m.1.isClearing = true) :
    let plain := Session.run host (.start env plan dir) ((marks.filter (!·.2)).map (·.1))
    let cleared := Session.run host (.start env plan dir) (marks.map (·.1))
    unmarked marks cleared.1 = plain.1.map (·.1) ∧ cleared.2.tree = plain.2.tree ∧
      ∀ c : Call, c ≠ .resourceDir →
        ((c.action host).run cleared.2).1 = ((c.action host).run { cleared.2 with kept := {} }).1 := by
  intro plain cleared
  have hstart : Twins host false (.start env plan dir) (.start env plan dir) :=
    .refl (faithful_of_kept_nothing rfl)
  obtain ⟨hanswers, htwins⟩ := hstart.run hsteps hclear
  refine ⟨hanswers, htwins.tree, fun c hc => ?_⟩
  have hfresh : Twins host false cleared.2 { cleared.2 with kept := {} } :=
    ⟨rfl, htwins.right, faithful_of_kept_nothing rfl⟩
  exact (agree_call hfresh c (.inr hc)).result

theorem clearings_change_nothing_home :
    let marks := [(Step.call .homeDir, false), (.clearAll, true), (.call .homeDir, false)]
    let start := State.start ⟨[("HOME", "/home/me")]⟩ [] "/"
    unmarked marks (Session.run plainHost start (marks.map (·.1))).1 =
      (Session.run plainHost start ((marks.filter (!·.2)).map (·.1))).1.map (·.1) := by
  intro marks start
  have hhome : (Step.call .homeDir).IsShared false := ⟨rfl, nofun, .inr nofun⟩
  have hsteps : ∀ m ∈ marks, m.2 = false → m.1.IsShared false := by
    simp only [marks, List.forall_mem_cons]
    exact ⟨fun _ => hhome, (fun h => by cases h), fun _ => hhome, List.forall_mem_nil _⟩
  have hclear : ∀ m ∈ marks, m.2 = true → m.1.isClearing = true := by
    simp only [marks, List.forall_mem_cons]
    exact ⟨(fun h => by cases h), fun _ => rfl, (fun h => by cases h), List.forall_mem_nil _⟩
  exact (clearings_change_nothing hsteps hclear).1

end Whereabouts

import Whereabouts.Once.Threads

/-!
# Moves of a machine

`CallMove` and `ClearMove` list what one step of a call and of a clearing can
do, guards included, and `move_cases` says that a move of the machine is such a
step or the end of a body. `run_history` carries a statement about the moves so
far and the machine they lead to along a whole schedule.
-/

namespace Whereabouts.Once

variable {κ ε ν : Type}

/-! ## Calls of a machine -/

namespace Machine

/-- The thread is a call of the key in this phase. -/
def At (m : Machine κ ε ν) (i : Nat) (key : κ) (ph : CallPhase ε ν) : Prop :=
  m.threads[i]? = some (.call key ph)

/-- The machine after a thread came to this phase of a call. -/
def place (m : Machine κ ε ν) (i : Nat) (key : κ) (ph : CallPhase ε ν) (s : Shared κ ν)
    (bodies : List (κ × Except ε ν)) : Machine κ ε ν :=
  { threads := m.threads.set i (.call key ph), shared := s, bodies }

theorem at_place {m : Machine κ ε ν} {i : Nat} {key : κ} {ph : CallPhase ε ν}
    (h : m.At i key ph) (ph' : CallPhase ε ν) (s : Shared κ ν) (bs : List (κ × Except ε ν))
    {j : Nat} {k : κ} {p : CallPhase ε ν} :
    (m.place i key ph' s bs).At j k p ↔ j = i ∧ k = key ∧ p = ph' ∨ j ≠ i ∧ m.At j k p := by
  have hi : i < m.threads.length := (List.getElem?_eq_some_iff.1 h).1
  unfold At place
  by_cases hj : j = i
  · subst hj
    rw [List.getElem?_set_self hi]
    simp [eq_comm]
  · rw [List.getElem?_set_ne (Ne.symm hj)]
    simp [hj]

theorem at_unique {m : Machine κ ε ν} {i : Nat} {key k : κ} {ph p : CallPhase ε ν}
    (h : m.At i key ph) (h' : m.At i k p) : k = key ∧ p = ph := by
  unfold At at h h'
  rw [h] at h'
  cases h'
  exact ⟨rfl, rfl⟩

theorem at_place_all {m : Machine κ ε ν} {i : Nat} {key : κ} {ph ph' : CallPhase ε ν} {s : Shared κ ν}
    {bs : List (κ × Except ε ν)} {P : κ → CallPhase ε ν → Prop} (hi : m.At i key ph) (hself : P key ph')
    (hother : ∀ j k p, j ≠ i → m.At j k p → P k p) :
    ∀ j k p, (m.place i key ph' s bs).At j k p → P k p := by
  intro j k p hj
  rcases (at_place hi _ _ _).1 hj with ⟨-, rfl, rfl⟩ | ⟨hij, hj⟩
  · exact hself
  · exact hother j k p hij hj

theorem publishing_place {m : Machine κ ε ν} {i : Nat} {key : κ} {ph : CallPhase ε ν} (hi : m.At i key ph)
    (ph' : CallPhase ε ν) (s : Shared κ ν) (bs : List (κ × Except ε ν)) {k : κ}
    (hne : k = key → ∀ l v, ph ≠ .publishing l v) (hp : ∃ j l v, m.At j k (.publishing l v)) :
    ∃ j l v, (m.place i key ph' s bs).At j k (.publishing l v) := by
  obtain ⟨j, l, v, hj⟩ := hp
  have hij : j ≠ i := by
    rintro rfl
    obtain ⟨hk, he⟩ := at_unique hi hj
    exact hne hk l v he.symm
  exact ⟨j, l, v, (at_place hi _ _ _).2 (.inr ⟨hij, hj⟩)⟩

/-- The machine after a thread came to this phase of a clearing. -/
def placeClear (m : Machine κ ε ν) (i : Nat) (ph : ClearPhase) (s : Shared κ ν) : Machine κ ε ν :=
  { m with threads := m.threads.set i (.clear ph), shared := s }

theorem at_placeClear {m : Machine κ ε ν} {i : Nat} {ph : ClearPhase} (h : m.threads[i]? = some (.clear ph))
    (ph' : ClearPhase) (s : Shared κ ν) {j : Nat} {k : κ} {p : CallPhase ε ν} :
    (m.placeClear i ph' s).At j k p ↔ m.At j k p := by
  have hi : i < m.threads.length := (List.getElem?_eq_some_iff.1 h).1
  unfold At placeClear
  by_cases hj : i = j
  · subst hj
    rw [List.getElem?_set_self hi, h]
    simp
  · simp [hj]

theorem at_start {jobs : List (Option κ)} {i : Nat} {k : κ} {p : CallPhase ε ν} (h : (start jobs).At i k p) :
    p = .ready := by
  simp only [At, start, List.getElem?_map] at h
  obtain ⟨job, -, he⟩ := Option.map_eq_some_iff.1 h
  cases job with
  | none => cases he
  | some key =>
    cases he
    rfl

end Machine

/-! ## Steps of a clearing -/

/-- One step of a clearing, with what the threads share before and after. -/
inductive ClearMove (s : Shared κ ν) : ClearPhase → ClearPhase → Shared κ ν → Prop where
  | enter (h : s.clearing = false) : ClearMove s .ready .entered { s with clearing := true }
  | forget : ClearMove s .entered .valuesGone { s with values := [] }
  | leave : ClearMove s .valuesGone .finished { s with locks := [], clearing := false }

theorem clearMove_of_clearStep {s s' : Shared κ ν} {ph ph' : ClearPhase} (h : s.clearStep ph = some (ph', s')) :
    ClearMove s ph ph' s' := by
  cases ph with
  | ready =>
    simp only [Shared.clearStep] at h
    split at h
    · cases h
    · next hc => cases h; exact .enter (by simpa using hc)
  | entered => cases h; exact .forget
  | valuesGone => cases h; exact .leave
  | finished => cases h

variable [DecidableEq κ]

/-! ## Steps of a call -/

/-- One step of a call outside its body, with what the threads share before and after. -/
inductive CallMove (s : Shared κ ν) (key : κ) :
    CallPhase ε ν → CallPhase ε ν → Shared κ ν → Prop where
  | found {v : ν} (h : s.values.lookup key = some v) :
      CallMove s key .ready (.finished (.value v)) s
  | miss (h : s.values.lookup key = none) : CallMove s key .ready .missed s
  | getLock {l : Nat} (h : s.locks.lookup key = some l) : CallMove s key .missed (.waiting l) s
  | newLock (h : s.locks.lookup key = none) :
      CallMove s key .missed (.waiting s.lockCount)
        { s with locks := (key, s.lockCount) :: s.locks, lockCount := s.lockCount + 1 }
  | acquire {l : Nat} (h : l ∉ s.held) :
      CallMove s key (.waiting l) (.holding l) { s with held := l :: s.held }
  | refound {l : Nat} {v : ν} (h : s.values.lookup key = some v) :
      CallMove s key (.holding l) (.reading l) s
  | remiss {l : Nat} (h : s.values.lookup key = none) :
      CallMove s key (.holding l) (.starting l) s
  | read {l : Nat} {v : ν} (h : s.values.lookup key = some v) :
      CallMove s key (.reading l) (.leaving l (.value v)) s
  | lost {l : Nat} (h : s.values.lookup key = none) :
      CallMove s key (.reading l) (.leaving l .gone) s
  | start {l : Nat} : CallMove s key (.starting l) (.inside l) s
  | publish {l : Nat} {v : ν} :
      CallMove s key (.publishing l v) (.leaving l (.value v))
        { s with values := (key, v) :: s.values }
  | release {l : Nat} {r : CallEnd ε ν} :
      CallMove s key (.leaving l r) (.finished r) { s with held := s.held.erase l }

theorem callMove_of_callStep {s s' : Shared κ ν} {key : κ} {ph ph' : CallPhase ε ν}
    (h : s.callStep key ph = some (ph', s')) : CallMove s key ph ph' s' := by
  cases ph with
  | ready =>
    simp only [Shared.callStep] at h
    split at h
    · next hv => cases h; exact .found hv
    · next hv => cases h; exact .miss hv
  | missed =>
    simp only [Shared.callStep] at h
    split at h
    · cases h
    · split at h
      · next hl => cases h; exact .getLock hl
      · next hl => cases h; exact .newLock hl
  | waiting l =>
    simp only [Shared.callStep] at h
    split at h
    · cases h
    · next hl => cases h; exact .acquire hl
  | holding l =>
    simp only [Shared.callStep] at h
    cases hv : s.values.lookup key with
    | none => simp only [hv] at h; cases h; exact .remiss hv
    | some v => simp only [hv] at h; cases h; exact .refound hv
  | reading l =>
    simp only [Shared.callStep] at h
    split at h
    · next hv => cases h; exact .read hv
    · next hv => cases h; exact .lost hv
  | starting l => cases h; exact .start
  | inside l => cases h
  | publishing l v => cases h; exact .publish
  | leaving l r => cases h; exact .release
  | finished r => cases h

/-! ## Moves of the machine -/

namespace Machine

theorem move_cases {m m' : Machine κ ε ν} {mv : Move ε ν} (h : m.move mv = some m') :
    (∃ i key ph ph' s, mv = .step i ∧ m.At i key ph ∧ CallMove m.shared key ph ph' s ∧
      m' = m.place i key ph' s m.bodies) ∨
    (∃ i ph ph' s, mv = .step i ∧ m.threads[i]? = some (.clear ph) ∧ ClearMove m.shared ph ph' s ∧
      m' = m.placeClear i ph' s) ∨
    (∃ i key l r, mv = .finish i r ∧ m.At i key (.inside l) ∧
      m' = m.place i key (.afterBody l r) m.shared ((key, r) :: m.bodies)) := by
  cases mv with
  | step i =>
    simp only [move] at h
    split at h
    · next key ph ht =>
      obtain ⟨⟨ph', s⟩, hs, rfl⟩ := Option.map_eq_some_iff.1 h
      exact .inl ⟨i, key, ph, ph', s, rfl, ht, callMove_of_callStep hs, rfl⟩
    · next ph ht =>
      obtain ⟨⟨ph', s⟩, hs, rfl⟩ := Option.map_eq_some_iff.1 h
      exact .inr (.inl ⟨i, ph, ph', s, rfl, ht, clearMove_of_clearStep hs, rfl⟩)
    · cases h
  | finish i r =>
    simp only [move] at h
    split at h
    · next key l ht => cases h; exact .inr (.inr ⟨i, key, l, r, rfl, ht, rfl⟩)
    · cases h

theorem move_step {m : Machine κ ε ν} {i : Nat} {key : κ} {ph ph' : CallPhase ε ν} {s : Shared κ ν}
    (hi : m.At i key ph) (h : m.shared.callStep key ph = some (ph', s)) :
    m.move (.step i) = some (m.place i key ph' s m.bodies) := by
  unfold At at hi
  simp only [move, hi, h]
  rfl

/-! ## Schedules -/

theorem run_cons (m : Machine κ ε ν) (mv : Move ε ν) (moves : List (Move ε ν)) :
    m.run (mv :: moves) = (m.move mv).bind fun m' => m'.run moves := rfl

theorem run_two_steps {m : Machine κ ε ν} {i : Nat} {key : κ} {ph₀ ph₂ : CallPhase ε ν} {s₂ : Shared κ ν}
    (ph₁ : CallPhase ε ν) (s₁ : Shared κ ν) (hi : m.At i key ph₀) (h₁ : m.shared.callStep key ph₀ = some (ph₁, s₁))
    (h₂ : s₁.callStep key ph₁ = some (ph₂, s₂)) :
    ∃ m', m.run [.step i, .step i] = some m' ∧ m'.At i key ph₂ := by
  have hi₁ : (m.place i key ph₁ s₁ m.bodies).At i key ph₁ := (at_place hi _ _ _).2 (.inl ⟨rfl, rfl, rfl⟩)
  refine ⟨(m.place i key ph₁ s₁ m.bodies).place i key ph₂ s₂ m.bodies, ?_,
    (at_place hi₁ _ _ _).2 (.inl ⟨rfl, rfl, rfl⟩)⟩
  rw [run_cons, move_step hi h₁, Option.bind_some, run_cons, move_step hi₁ h₂]
  rfl

theorem run_history {P : List (Move ε ν) → Machine κ ε ν → Prop}
    (hP : ∀ past m mv m', P past m → m.move mv = some m' → P (past ++ [mv]) m') :
    ∀ (moves past : List (Move ε ν)) (m m' : Machine κ ε ν),
      P past m → m.run moves = some m' → P (past ++ moves) m'
  | [], past, m, m', h, hr => by
    cases hr
    simpa using h
  | mv :: moves, past, m, m', h, hr => by
    rw [run_cons] at hr
    obtain ⟨m₁, h₁, hr⟩ := Option.bind_eq_some_iff.1 hr
    have := run_history hP moves (past ++ [mv]) m₁ m' (hP past m mv m₁ h h₁) hr
    simpa using this

/-- How the bodies of a thread ended, in the order of the moves. -/
def bodyEnds (i : Nat) (moves : List (Move ε ν)) : List (Except ε ν) :=
  moves.filterMap fun
    | .step _ => none
    | .finish j r => if j = i then some r else none

theorem bodyEnds_append (i : Nat) (past moves : List (Move ε ν)) :
    bodyEnds i (past ++ moves) = bodyEnds i past ++ bodyEnds i moves :=
  List.filterMap_append ..

theorem bodyEnds_step (i j : Nat) : bodyEnds i [(.step j : Move ε ν)] = [] := rfl

theorem bodyEnds_finish_self (i : Nat) (r : Except ε ν) : bodyEnds i [.finish i r] = [r] := by
  simp [bodyEnds]

theorem bodyEnds_finish_of_ne {i j : Nat} (h : j ≠ i) (r : Except ε ν) :
    bodyEnds i [.finish j r] = [] := by
  simp [bodyEnds, h]

end Machine

end Whereabouts.Once

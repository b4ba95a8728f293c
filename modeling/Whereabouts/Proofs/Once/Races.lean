import Whereabouts.Proofs.Once.ExactlyOnce

/-!
# Races of calls and clearings

A clearing waits for no lock of a key. It can empty the table after a call found a value there under the lock and
before the call reads it: the call is `Overtaken`, and ends with neither a value nor an exception of a body.
`ends_by_body_unless_overtaken`: over every schedule all other calls end as bodies do.
-/

namespace Whereabouts.Once

variable {κ ε ν : Type}

/-! ## Values on their way out -/

/-- The value that a call publishes or returns. -/
def CallPhase.value? : CallPhase ε ν → Option ν
  | .publishing _ v | .leaving _ (.value v) | .finished (.value v) => some v
  | _ => none

/-- Under the lock a call finds the value that it reads. -/
def Reads (kept : Option ν) : CallPhase ε ν → Prop
  | .reading _ => kept ≠ none
  | .leaving _ .gone | .finished .gone => False
  | _ => True

theorem reads_of_ne_reading {kept kept' : Option ν} {ph : CallPhase ε ν} (hr : Reads kept ph)
    (hne : ∀ l, ph ≠ .reading l) : Reads kept' ph := by
  cases ph with
  | reading l => exact absurd rfl (hne l)
  | leaving l r => cases r <;> exact hr
  | finished r => cases r <;> exact hr
  | _ => trivial

theorem value?_afterBody {l : Nat} {r : Except ε ν} {v : ν} (h : (CallPhase.afterBody l r).value? = some v) :
    r = .ok v := by
  cases r with
  | ok w => cases h; rfl
  | error e => cases h

theorem reads_afterBody (kept : Option ν) (l : Nat) (r : Except ε ν) : Reads kept (.afterBody l r) := by
  cases r <;> trivial

variable {s s' : Shared κ ν}

theorem ClearMove.values_cases {c c' : ClearPhase} (h : ClearMove s c c' s') :
    s'.values = s.values ∨ c = .entered ∧ s'.values = [] := by
  cases h with
  | forget => exact .inr ⟨rfl, rfl⟩
  | _ => exact .inl rfl

variable [DecidableEq κ] {key : κ} {ph ph' : CallPhase ε ν}

theorem CallMove.value?_source (h : CallMove s key ph ph' s') {v : ν} (hv : ph'.value? = some v) :
    ph.value? = some v ∨ s.values.lookup key = some v := by
  cases h with
  | found h | read h => cases hv; exact .inr h
  | publish => exact .inl hv
  | @release l r => cases r <;> exact .inl hv
  | _ => cases hv

theorem CallMove.lookup_source (h : CallMove s key ph ph' s') {k : κ} {v : ν} (hv : s'.values.lookup k = some v) :
    s.values.lookup k = some v ∨ k = key ∧ ph.value? = some v := by
  rcases h.values_cases with ⟨-, hs⟩ | ⟨l, w, rfl, hs⟩
  · exact .inl (hs ▸ hv)
  · by_cases hk : k = key
    · subst hk
      rw [hs, List.lookup_cons_self] at hv
      exact .inr ⟨rfl, hv⟩
    · rw [hs, lookup_cons_of_ne hk] at hv
      exact .inl hv

theorem CallMove.lookup_ne_none (h : CallMove s key ph ph' s') {k : κ} (hk : s.values.lookup k ≠ none) :
    s'.values.lookup k ≠ none := by
  rcases h.values_cases with ⟨-, hs⟩ | ⟨l, w, -, hs⟩
  · rwa [hs]
  · by_cases he : k = key
    · simp [hs, he]
    · rwa [hs, lookup_cons_of_ne he]

theorem CallMove.reads (h : CallMove s key ph ph' s') (hr : Reads (s.values.lookup key) ph) :
    Reads (s'.values.lookup key) ph' := by
  cases h with
  | refound hv => simp [Reads, hv]
  | lost hn => exact absurd hn hr
  | @release l r => cases r <;> exact hr
  | _ => trivial

/-- What another call does takes no value away. -/
theorem CallMove.reads_beside (h : CallMove s key ph ph' s') {k : κ} {p : CallPhase ε ν}
    (hr : Reads (s.values.lookup k) p) : Reads (s'.values.lookup k) p := by
  by_cases hp : ∃ l, p = .reading l
  · obtain ⟨l, rfl⟩ := hp
    exact h.lookup_ne_none hr
  · exact reads_of_ne_reading hr fun l e => hp ⟨l, e⟩

namespace Machine

variable {m m' : Machine κ ε ν} {mv : Move ε ν} {i : Nat}

/-- What is kept, and what calls publish and return, is what a body of the key ended with. -/
structure Backed (m : Machine κ ε ν) : Prop where
  table : ∀ key v, m.shared.values.lookup key = some v → v ∈ m.outcomes key
  calls : ∀ i key ph, m.At i key ph → ∀ v, ph.value? = some v → v ∈ m.outcomes key

theorem mem_outcomes_place {ph : CallPhase ε ν} {s : Shared κ ν} {r : Except ε ν} {k : κ} {v : ν}
    (hv : v ∈ m.outcomes k) : v ∈ (m.place i key ph s ((key, r) :: m.bodies)).outcomes k := by
  rw [outcomes_place]
  exact List.mem_append_right _ hv

theorem Backed.move (hb : m.Backed) (h : m.move mv = some m') : m'.Backed := by
  rcases move_cases h with ⟨i, key, ph, ph', s, -, hi, hs, rfl⟩ | ⟨i, c, c', s, -, hi, hs, rfl⟩ |
    ⟨i, key, l, r, -, hi, rfl⟩
  · have hph : ∀ v, ph.value? = some v → v ∈ m.outcomes key := hb.calls i key ph hi
    refine ⟨fun k v hk => ?_, at_place_all hi (fun v hv => ?_) fun j k p _ hj => hb.calls j k p hj⟩
    · rcases hs.lookup_source hk with hk | ⟨rfl, hv⟩
      · exact hb.table k v hk
      · exact hph v hv
    · rcases hs.value?_source hv with hv | hv
      · exact hph v hv
      · exact hb.table key v hv
  · refine ⟨fun k v hk => ?_, fun j k p hj => hb.calls j k p ((at_placeClear hi _ _).1 hj)⟩
    change s.values.lookup k = some v at hk
    rcases hs.values_cases with he | ⟨-, he⟩
    · exact hb.table k v (he ▸ hk)
    · rw [he] at hk
      cases hk
  · refine ⟨fun k v hk => mem_outcomes_place (hb.table k v hk), at_place_all hi (fun v hv => ?_)
      fun j k p _ hj v hv => mem_outcomes_place (hb.calls j k p hj v hv)⟩
    rw [outcomes_place, value?_afterBody hv]
    simp [Except.toOption]

theorem run_backed {jobs : List (Option κ)} {moves : List (Move ε ν)} (h : (start jobs).run moves = some m) :
    m.Backed := by
  refine run_history (P := fun _ m => m.Backed) (fun _ _ _ _ => Backed.move) moves [] (start jobs) m ?_ h
  refine ⟨fun k v hk => (by cases hk), fun i k p hi v hv => ?_⟩
  cases at_start hi
  cases hv

/-! ## Calls that a clearing overtakes -/

/-- A clearing emptied the table of values while the call was about to read the value it had found. -/
def Overtaken (jobs : List (Option κ)) (moves : List (Move ε ν)) (i : Nat) (key : κ) : Prop :=
  ∃ past j later m l, moves = past ++ .step j :: later ∧ (start jobs).run past = some m ∧
    m.At i key (.reading l) ∧ m.threads[j]? = some (.clear .entered)

theorem Overtaken.concat {jobs : List (Option κ)} {moves : List (Move ε ν)} (h : Overtaken jobs moves i key)
    (mv : Move ε ν) : Overtaken jobs (moves ++ [mv]) i key := by
  obtain ⟨past, j, later, m, l, rfl, hr, hi, hj⟩ := h
  exact ⟨past, j, later ++ [mv], m, l, by simp, hr, hi, hj⟩

theorem run_concat {moves : List (Move ε ν)} (h : m.run moves = some m') (mv : Move ε ν) :
    m.run (moves ++ [mv]) = m'.move mv := by
  simp only [run, List.foldlM_append] at h ⊢
  simp [h]

/-- Where the schedule leads, and a call that does not find what it reads has been overtaken. -/
structure Traced (jobs : List (Option κ)) (past : List (Move ε ν)) (m : Machine κ ε ν) : Prop where
  run : (start jobs).run past = some m
  reads : ∀ i key ph, m.At i key ph → Reads (m.shared.values.lookup key) ph ∨ Overtaken jobs past i key

theorem Traced.move {jobs : List (Option κ)} {past : List (Move ε ν)} (ht : Traced jobs past m)
    (h : m.move mv = some m') : Traced jobs (past ++ [mv]) m' := by
  refine ⟨(run_concat ht.run mv).trans h, ?_⟩
  rcases move_cases h with ⟨i, key, ph, ph', s, rfl, hi, hs, rfl⟩ | ⟨i, c, c', s, rfl, hi, hs, rfl⟩ |
    ⟨i, key, l, r, rfl, hi, rfl⟩
  · intro j k p hj
    rcases (at_place hi _ _ _).1 hj with ⟨rfl, rfl, rfl⟩ | ⟨-, hj⟩
    · exact (ht.reads j k ph hi).imp hs.reads (·.concat _)
    · exact (ht.reads j k p hj).imp hs.reads_beside (·.concat _)
  · intro j k p hj
    rw [at_placeClear hi] at hj
    rcases ht.reads j k p hj with hr | ho
    · rcases hs.values_cases with he | ⟨rfl, -⟩
      · exact .inl (by rwa [← he] at hr)
      · -- the table is emptied, which a call notices only where it is about to read
        by_cases hp : ∃ l, p = .reading l
        · obtain ⟨l, rfl⟩ := hp
          exact .inr ⟨past, i, [], m, l, rfl, ht.run, hj, hi⟩
        · exact .inl (reads_of_ne_reading hr fun l e => hp ⟨l, e⟩)
    · exact .inr (ho.concat _)
  · intro j k p hj
    rcases (at_place hi _ _ _).1 hj with ⟨rfl, rfl, rfl⟩ | ⟨-, hj⟩
    · exact .inl (reads_afterBody _ l r)
    · exact (ht.reads j k p hj).imp id (·.concat _)

theorem run_traced {jobs : List (Option κ)} {moves : List (Move ε ν)} (h : (start jobs).run moves = some m) :
    Traced jobs moves m := by
  refine run_history (P := Traced jobs) (fun _ _ _ _ => Traced.move) moves [] (start jobs) m ⟨rfl, ?_⟩ h
  intro i k p hi
  cases at_start hi
  exact .inl trivial

theorem run_overtake {j l : Nat} (hi : m.At i key (.reading l)) (hj : m.threads[j]? = some (.clear .entered)) :
    ∃ m', m.run [.step j, .step i, .step i] = some m' ∧ m'.At i key (.finished .gone) := by
  have h₀ : m.move (.step j) = some (m.placeClear j .valuesGone { m.shared with values := [] }) := by
    simp only [Machine.move, hj, Shared.clearStep]
    rfl
  have hi₀ := (at_placeClear hj .valuesGone { m.shared with values := [] }).2 hi
  rw [run_cons, h₀, Option.bind_some]
  exact run_two_steps (.leaving l .gone) _ hi₀ rfl rfl

/-! ## How calls end -/

/-- A call ends with a value that a body of its key ended with, or with the exception of its own body. -/
def EndsByBody (m : Machine κ ε ν) (moves : List (Move ε ν)) (i : Nat) (key : κ) : CallEnd ε ν → Prop
  | .value v => v ∈ m.outcomes key
  | .raised e => bodyEnds i moves = [.error e]
  | .gone => False

theorem ends_by_body_unless_overtaken {jobs : List (Option κ)} {moves : List (Move ε ν)}
    (h : (start jobs).run moves = some m) :
    (∀ i key r, m.At i key (.finished r) →
      m.EndsByBody moves i key r ∨ r = .gone ∧ bodyEnds i moves = [] ∧ Overtaken jobs moves i key) ∧
    -- and wherever a clearing can overtake a call, the call can end with neither
    ∀ i j key l, m.At i key (.reading l) → m.threads[j]? = some (.clear .entered) →
      ∃ m', m.run [.step j, .step i, .step i] = some m' ∧ m'.At i key (.finished .gone) := by
  refine ⟨fun i key r hi => ?_, fun i j key l hi hj => run_overtake hi hj⟩
  have he := run_endsAs h hi
  cases r with
  | value v => exact .inl ((run_backed h).calls i key _ hi v rfl)
  | raised e => exact .inl he
  | gone =>
    rcases (run_traced h).reads i key _ hi with hr | ho
    · cases hr
    · exact .inr ⟨rfl, he, ho⟩

/-- Two calls of one key and a clearing, which empties the table while the second call is about to read. -/
def clearedUnderTheLock : List (Move String Nat) :=
  [.step 0, .step 1, .step 0, .step 1, .step 0, .step 0, .step 0, .finish 0 (.ok 7), .step 0, .step 0,
    .step 1, .step 1, .step 2, .step 2, .step 1, .step 1]

theorem run_clearedUnderTheLock :
    ∃ m : Machine Nat String Nat, (start [some 5, some 5, none]).run clearedUnderTheLock = some m ∧
      m.At 0 5 (.finished (.value 7)) ∧ m.At 1 5 (.finished .gone) := ⟨_, rfl, rfl, rfl⟩

theorem ends_by_body_unless_overtaken_cleared :
    ∃ m : Machine Nat String Nat, (start [some 5, some 5, none]).run clearedUnderTheLock = some m ∧
      7 ∈ m.outcomes 5 ∧ Overtaken [some 5, some 5, none] clearedUnderTheLock 1 5 := by
  obtain ⟨m, hm, h0, h1⟩ := run_clearedUnderTheLock
  refine ⟨m, hm, ?_, ?_⟩
  · rcases (ends_by_body_unless_overtaken hm).1 0 5 _ h0 with h | ⟨h, -⟩
    · exact h
    · cases h
  · rcases (ends_by_body_unless_overtaken hm).1 1 5 _ h1 with h | ⟨-, -, h⟩
    · cases h
    · exact h

/-- Not every call ends as a body does. -/
theorem call_ends_without_body :
    ¬ ∀ (jobs : List (Option Nat)) (moves : List (Move String Nat)) (m : Machine Nat String Nat),
      (start jobs).run moves = some m →
        ∀ i key r, m.At i key (.finished r) → m.EndsByBody moves i key r := by
  intro hall
  obtain ⟨m, hm, -, h1⟩ := run_clearedUnderTheLock
  exact hall _ _ m hm 1 5 .gone h1

end Machine

end Whereabouts.Once

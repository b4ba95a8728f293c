import Whereabouts.Proofs.Once.Moves

/-!
# Exactly once

Without clearings the lock of a key stays its lock, so at most one call is
between getting it and letting it go (`LocksOk`). What a call may rely on in
each phase is `Fits`: the kept value and the values that bodies of the key
ended with. `exactly_once`: over every schedule at most one body per key ends
with a value, and every call that returns one returns that value.
-/

namespace Whereabouts.Once

variable {κ ε ν : Type} [DecidableEq κ]

/-! ## Locks -/

/-- The lock that a call holds. -/
def CallPhase.holds? : CallPhase ε ν → Option Nat
  | .holding l | .reading l | .starting l | .inside l | .publishing l _ | .leaving l _ => some l
  | _ => none

/-- The lock that a call holds or waits for. -/
def CallPhase.lock? : CallPhase ε ν → Option Nat
  | .waiting l => some l
  | ph => ph.holds?

theorem lock?_of_holds? {ph : CallPhase ε ν} {l : Nat} (h : ph.holds? = some l) :
    ph.lock? = some l := by
  cases ph <;> first | exact h | cases h

theorem holds?_afterBody (l : Nat) (r : Except ε ν) :
    (CallPhase.afterBody l r).holds? = some l := by
  cases r <;> rfl

theorem lookup_cons_of_ne {β : Type} {k k' : κ} (h : k' ≠ k) (v : β) (es : List (κ × β)) :
    ((k, v) :: es).lookup k' = es.lookup k' := by
  rw [List.lookup_cons, show (k' == k) = false by simpa using h]

variable {s s' : Shared κ ν} {key : κ} {ph ph' : CallPhase ε ν}

theorem CallMove.locks_mono (h : CallMove s key ph ph' s') {k : κ} {l : Nat}
    (hl : s.locks.lookup k = some l) : s'.locks.lookup k = some l := by
  cases h with
  | newLock hn =>
    have hk : k ≠ key := by
      rintro rfl
      rw [hn] at hl
      cases hl
    rw [lookup_cons_of_ne hk]
    exact hl
  | _ => exact hl

theorem CallMove.lock?_keyed (h : CallMove s key ph ph' s')
    (hk : ∀ l, ph.lock? = some l → s.locks.lookup key = some l) {l : Nat}
    (hl : ph'.lock? = some l) : s'.locks.lookup key = some l := by
  cases h with
  | getLock h => cases hl; exact h
  | newLock => cases hl; exact List.lookup_cons_self
  | found | miss | release => cases hl
  | acquire | refound | remiss | read | lost | start | publish => cases hl; exact hk _ rfl

theorem CallMove.held_cases (h : CallMove s key ph ph' s') :
    ph'.holds? = ph.holds? ∧ s'.held = s.held ∨
    (∃ l, ph.holds? = none ∧ ph'.holds? = some l ∧ l ∉ s.held ∧ s'.held = l :: s.held) ∨
    ∃ l, ph.holds? = some l ∧ ph'.holds? = none ∧ s'.held = s.held.erase l := by
  cases h with
  | acquire h => exact .inr (.inl ⟨_, rfl, rfl, h, rfl⟩)
  | release => exact .inr (.inr ⟨_, rfl, rfl, rfl⟩)
  | _ => exact .inl ⟨rfl, rfl⟩

namespace Machine

/-- Every thread makes a call, the lock of a call is that of its key, and a lock is held by at most
one call. -/
structure LocksOk (m : Machine κ ε ν) : Prop where
  calls : ∀ (i : Nat) (t : Thread κ ε ν), m.threads[i]? = some t → ∃ key ph, t = .call key ph
  keyed : ∀ i key ph l, m.At i key ph → ph.lock? = some l → m.shared.locks.lookup key = some l
  held : ∀ i key ph l, m.At i key ph → ph.holds? = some l → l ∈ m.shared.held
  exclusive : ∀ i j key k ph p l, m.At i key ph → m.At j k p →
    ph.holds? = some l → p.holds? = some l → i = j

variable {m m' : Machine κ ε ν} {mv : Move ε ν} {i : Nat}

theorem LocksOk.alone (hm : m.LocksOk) {j : Nat} {p : CallPhase ε ν} {l l' : Nat}
    (hi : m.At i key ph) (hj : m.At j key p) (hl : ph.holds? = some l)
    (hl' : p.holds? = some l') : i = j := by
  have h1 := hm.keyed i key ph l hi (lock?_of_holds? hl)
  have h2 := hm.keyed j key p l' hj (lock?_of_holds? hl')
  rw [h1] at h2
  cases h2
  exact hm.exclusive i j key key ph p l hi hj hl hl'

theorem calls_place (hm : m.LocksOk) (ph' : CallPhase ε ν) (s : Shared κ ν)
    (bs : List (κ × Except ε ν)) (j : Nat) (t : Thread κ ε ν)
    (ht : (m.place i key ph' s bs).threads[j]? = some t) : ∃ k p, t = .call k p := by
  unfold place at ht
  dsimp only at ht
  by_cases hij : i = j
  · subst hij
    rw [List.getElem?_set_self'] at ht
    obtain ⟨_, -, rfl⟩ := Option.map_eq_some_iff.1 ht
    exact ⟨key, ph', rfl⟩
  · rw [List.getElem?_set_ne hij] at ht
    exact hm.calls j t ht

theorem locksOk_step (hm : m.LocksOk) (hi : m.At i key ph) (h : CallMove m.shared key ph ph' s') :
    (m.place i key ph' s' m.bodies).LocksOk := by
  refine ⟨calls_place hm ph' s' m.bodies, ?_, ?_, ?_⟩
  · intro j k p l hj hl
    rcases (at_place hi ph' s' m.bodies).1 hj with ⟨rfl, rfl, rfl⟩ | ⟨-, hj⟩
    · exact h.lock?_keyed (hm.keyed j k ph · hi) hl
    · exact h.locks_mono (hm.keyed j k p l hj hl)
  · intro j k p l hj hl
    rcases (at_place hi ph' s' m.bodies).1 hj with ⟨rfl, rfl, rfl⟩ | ⟨hij, hj⟩
    · rcases h.held_cases with ⟨he, hh⟩ | ⟨l', -, hl', -, hh⟩ | ⟨l', -, hl', -⟩
      · exact hh ▸ hm.held j k ph l hi (he ▸ hl)
      · rw [hl'] at hl; cases hl
        exact hh ▸ List.mem_cons_self
      · rw [hl'] at hl; cases hl
    · have hlm := hm.held j k p l hj hl
      rcases h.held_cases with ⟨-, hh⟩ | ⟨l', -, -, -, hh⟩ | ⟨l', hl', -, hh⟩
      · exact hh ▸ hlm
      · exact hh ▸ List.mem_cons_of_mem _ hlm
      · -- the lock that is let go is not the one that the other call holds
        have hne : l ≠ l' := by
          rintro rfl
          exact hij (hm.exclusive j i k key p ph l hj hi hl hl')
        exact hh ▸ (List.mem_erase_of_ne hne).2 hlm
  · have hnew : ∀ j k p l, m.At j k p → p.holds? = some l → ph'.holds? = some l → i = j := by
      intro j k p l hj hl hl'
      rcases h.held_cases with ⟨he, -⟩ | ⟨l', -, hl₁, hn, -⟩ | ⟨l', -, hl₁, -⟩
      · exact hm.exclusive i j key k ph p l hi hj (he ▸ hl') hl
      · rw [hl₁] at hl'; cases hl'
        exact absurd (hm.held j k p l hj hl) hn
      · rw [hl₁] at hl'; cases hl'
    intro j₁ j₂ k₁ k₂ p₁ p₂ l h₁ h₂ hl₁ hl₂
    have c₁ := (at_place hi ph' s' m.bodies).1 h₁
    have c₂ := (at_place hi ph' s' m.bodies).1 h₂
    rcases c₁ with ⟨e₁, -, hp₁⟩ | ⟨-, h₁⟩ <;> rcases c₂ with ⟨e₂, -, hp₂⟩ | ⟨-, h₂⟩
    · exact e₁.trans e₂.symm
    · exact e₁.trans (hnew j₂ k₂ p₂ l h₂ hl₂ (hp₁ ▸ hl₁))
    · exact (hnew j₁ k₁ p₁ l h₁ hl₁ (hp₂ ▸ hl₂)).symm.trans e₂.symm
    · exact hm.exclusive j₁ j₂ k₁ k₂ p₁ p₂ l h₁ h₂ hl₁ hl₂

theorem locksOk_finish (hm : m.LocksOk) {l : Nat} (hi : m.At i key (.inside l)) (r : Except ε ν) :
    (m.place i key (.afterBody l r) m.shared ((key, r) :: m.bodies)).LocksOk := by
  have hph : ∀ l', (CallPhase.afterBody l r).holds? = some l' →
      (CallPhase.inside l : CallPhase ε ν).holds? = some l' := by
    intro l' hl'
    rw [holds?_afterBody] at hl'
    exact hl'
  have hback : ∀ {j k p}, (m.place i key (.afterBody l r) m.shared ((key, r) :: m.bodies)).At j k p →
      ∃ p', m.At j k p' ∧ (∀ l', p.holds? = some l' → p'.holds? = some l') ∧
        ∀ l', p.lock? = some l' → p'.lock? = some l' := by
    intro j k p hj
    rcases (at_place hi _ _ _).1 hj with ⟨rfl, rfl, rfl⟩ | ⟨-, hj⟩
    · refine ⟨_, hi, hph, fun l' hl' => ?_⟩
      cases r <;> exact hl'
    · exact ⟨p, hj, fun _ h => h, fun _ h => h⟩
  refine ⟨calls_place hm _ _ _, ?_, ?_, ?_⟩
  · intro j k p l' hj hl'
    obtain ⟨p', hj', -, hp⟩ := hback hj
    exact hm.keyed j k p' l' hj' (hp l' hl')
  · intro j k p l' hj hl'
    obtain ⟨p', hj', hp, -⟩ := hback hj
    exact hm.held j k p' l' hj' (hp l' hl')
  · intro j₁ j₂ k₁ k₂ p₁ p₂ l' h₁ h₂ hl₁ hl₂
    obtain ⟨q₁, h₁, hq₁, -⟩ := hback h₁
    obtain ⟨q₂, h₂, hq₂, -⟩ := hback h₂
    exact hm.exclusive j₁ j₂ k₁ k₂ q₁ q₂ l' h₁ h₂ (hq₁ l' hl₁) (hq₂ l' hl₂)

end Machine

/-! ## Values -/

/-- What a call relies on in a phase, by the kept value of its key and the values that bodies of the
key ended with. -/
def Fits (kept : Option ν) (ended : List ν) : CallPhase ε ν → Prop
  | .reading _ => kept ≠ none
  | .starting _ | .inside _ => kept = none ∧ ended = []
  | .publishing _ v => kept = none ∧ ended = [v]
  | .leaving _ (.value v) | .finished (.value v) => kept = some v
  | .leaving _ .gone | .finished .gone => False
  | _ => True

/-- A call without the lock that has no value to return yet relies on nothing. -/
theorem fits_any {ended : List ν} {p : CallPhase ε ν} (h : Fits none ended p)
    (hp : p.holds? = none) (kept : Option ν) (ended' : List ν) : Fits kept ended' p := by
  cases p with
  | ready | missed | waiting => trivial
  | finished r =>
    cases r with
    | raised => trivial
    | value | gone => cases h
  | _ => cases hp

theorem CallMove.fits (h : CallMove s key ph ph' s') {ended : List ν}
    (hf : Fits (s.values.lookup key) ended ph)
    (hh : ∀ l, ph = .holding l → s.values.lookup key = none → ended = []) :
    Fits (s'.values.lookup key) ended ph' := by
  cases h with
  | found hv => exact hv
  | miss | getLock | newLock | acquire => trivial
  | refound hv => exact fun hn => by rw [hv] at hn; cases hn
  | remiss hn => exact ⟨hn, hh _ rfl hn⟩
  | read hv => exact hv
  | lost hn => exact absurd hn hf
  | start => exact hf
  | publish => exact List.lookup_cons_self
  | @release l r => cases r <;> exact hf

theorem CallMove.values_cases (h : CallMove s key ph ph' s') :
    (∀ l v, ph ≠ .publishing l v) ∧ s'.values = s.values ∨
    ∃ l v, ph = .publishing l v ∧ s'.values = (key, v) :: s.values := by
  cases h with
  | publish => exact .inr ⟨_, _, rfl, rfl⟩
  | _ => exact .inl ⟨fun _ _ e => (by cases e), rfl⟩

namespace Machine

/-- The values that bodies of the key ended with. -/
def outcomes (m : Machine κ ε ν) (key : κ) : List ν :=
  m.bodies.filterMap fun b => if b.1 = key then b.2.toOption else none

/-- A kept value is what one body ended with, a value that is not kept yet is about to be, and every
call can rely on what its phase says. -/
structure ValuesOk (m : Machine κ ε ν) : Prop where
  table : ∀ key v, m.shared.values.lookup key = some v → m.outcomes key = [v]
  pending : ∀ key, m.outcomes key ≠ [] → m.shared.values.lookup key = none →
    ∃ i l v, m.At i key (.publishing l v)
  fits : ∀ i key ph, m.At i key ph → Fits (m.shared.values.lookup key) (m.outcomes key) ph

variable {m m' : Machine κ ε ν} {mv : Move ε ν} {i : Nat}

theorem outcomes_place (ph : CallPhase ε ν) (s : Shared κ ν) (r : Except ε ν) (k : κ) :
    (m.place i key ph s ((key, r) :: m.bodies)).outcomes k =
      (if key = k then r.toOption.toList else []) ++ m.outcomes k := by
  unfold outcomes place
  rw [List.filterMap_cons]
  by_cases hk : key = k
  · simp only [hk, ite_true]
    cases r <;> rfl
  · simp [hk]

theorem outcomes_of_holding (hl : m.LocksOk) (hv : m.ValuesOk) {l : Nat}
    (hi : m.At i key (.holding l)) (hn : m.shared.values.lookup key = none) :
    m.outcomes key = [] := by
  by_cases ho : m.outcomes key = []
  · exact ho
  · obtain ⟨j, l', v, hj⟩ := hv.pending key ho hn
    cases hl.alone hi hj rfl rfl
    cases (at_unique hi hj).2

/-- While a call holds the lock and no value is kept, the other calls of the key rely on nothing. -/
theorem fits_beside (hl : m.LocksOk) (hv : m.ValuesOk) {l : Nat} (hi : m.At i key ph)
    (hh : ph.holds? = some l) (hn : m.shared.values.lookup key = none) {j : Nat}
    {p : CallPhase ε ν} (hj : m.At j key p) (hij : j ≠ i) (kept : Option ν) (ended : List ν) :
    Fits kept ended p := by
  have hf := hv.fits j key p hj
  rw [hn] at hf
  have hfree : p.holds? = none := by
    cases hp : p.holds? with
    | none => rfl
    | some l' => exact absurd (hl.alone hj hi hp hh) hij
  exact fits_any hf hfree kept ended

/-- The only call of the key that holds a lock puts its value into the table. -/
theorem valuesOk_publish (hl : m.LocksOk) (hv : m.ValuesOk) {l : Nat} {v : ν}
    (hi : m.At i key (.publishing l v)) (hs : s'.values = (key, v) :: m.shared.values)
    (hself : Fits (s'.values.lookup key) (m.outcomes key) ph') :
    (m.place i key ph' s' m.bodies).ValuesOk := by
  obtain ⟨hn, ho⟩ := hv.fits i key _ hi
  have hkey : s'.values.lookup key = some v := by rw [hs, List.lookup_cons_self]
  have hother : ∀ k, k ≠ key → s'.values.lookup k = m.shared.values.lookup k := by
    intro k hk
    rw [hs, lookup_cons_of_ne hk]
  refine ⟨fun k w (hw : s'.values.lookup k = some w) => ?_,
    fun k hne (hnone : s'.values.lookup k = none) => ?_, at_place_all hi hself fun j k p hij hj => ?_⟩
  · by_cases hk : k = key
    · subst hk
      rw [hkey] at hw
      cases hw
      exact ho
    · exact hv.table k w (hother k hk ▸ hw)
  · have hk : k ≠ key := by
      rintro rfl
      rw [hkey] at hnone
      cases hnone
    exact publishing_place hi _ _ _ (fun e => absurd e hk) (hv.pending k hne (hother k hk ▸ hnone))
  · by_cases hk : k = key
    · subst hk
      exact fits_beside hl hv hi rfl hn hj hij _ _
    · show Fits (s'.values.lookup k) (m.outcomes k) p
      rw [hother k hk]
      exact hv.fits j k p hj

theorem valuesOk_step (hl : m.LocksOk) (hv : m.ValuesOk) (hi : m.At i key ph)
    (h : CallMove m.shared key ph ph' s') : (m.place i key ph' s' m.bodies).ValuesOk := by
  have hself : Fits (s'.values.lookup key) (m.outcomes key) ph' :=
    h.fits (hv.fits i key ph hi) fun l e hn => outcomes_of_holding hl hv (e ▸ hi) hn
  rcases h.values_cases with ⟨hp, hs⟩ | ⟨l, v, rfl, hs⟩
  · refine ⟨fun k v hk => hv.table k v (hs ▸ hk), fun k ho hn => ?_,
      at_place_all hi hself fun j k p _ hj => ?_⟩
    · exact publishing_place hi _ _ _ (fun _ => hp) (hv.pending k ho (hs ▸ hn))
    · show Fits (s'.values.lookup k) (m.outcomes k) p
      rw [hs]
      exact hv.fits j k p hj
  · exact valuesOk_publish hl hv hi hs hself

theorem valuesOk_finish (hl : m.LocksOk) (hv : m.ValuesOk) {l : Nat}
    (hi : m.At i key (.inside l)) (r : Except ε ν) :
    (m.place i key (.afterBody l r) m.shared ((key, r) :: m.bodies)).ValuesOk := by
  obtain ⟨hn, ho⟩ := hv.fits i key _ hi
  have hother : ∀ k, k ≠ key → (m.place i key (.afterBody l r) m.shared
      ((key, r) :: m.bodies)).outcomes k = m.outcomes k := by
    intro k hk
    rw [outcomes_place, if_neg (Ne.symm hk), List.nil_append]
  have hself : (m.place i key (.afterBody l r) m.shared ((key, r) :: m.bodies)).outcomes key =
      r.toOption.toList := by
    rw [outcomes_place, if_pos rfl, ho, List.append_nil]
  refine ⟨fun k v (hk : m.shared.values.lookup k = some v) => ?_, fun k hne hk => ?_,
    at_place_all hi ?_ fun j k p hij hj => ?_⟩
  · have hne : k ≠ key := by
      rintro rfl
      rw [hn] at hk
      cases hk
    rw [hother k hne]
    exact hv.table k v hk
  · by_cases hkey : k = key
    · subst hkey
      rw [hself] at hne
      cases r with
      | error e => exact absurd rfl hne
      | ok v => exact ⟨i, l, v, (at_place hi _ _ _).2 (.inl ⟨rfl, rfl, rfl⟩)⟩
    · rw [hother k hkey] at hne
      exact publishing_place hi _ _ _ (fun e => absurd e hkey) (hv.pending k hne hk)
  · rw [hself]
    cases r with
    | error e => trivial
    | ok v => exact ⟨hn, rfl⟩
  · by_cases hk : k = key
    · subst hk
      exact fits_beside hl hv hi rfl hn hj hij _ _
    · rw [hother k hk]
      exact hv.fits j k p hj

/-! ## Runs -/

def Sound (m : Machine κ ε ν) : Prop := m.LocksOk ∧ m.ValuesOk

theorem sound_move (hm : m.Sound) (h : m.move mv = some m') : m'.Sound := by
  rcases move_cases h with ⟨i, key, ph, ph', s, -, hi, hs, rfl⟩ | ⟨i, ph, ph', s, -, hi, -⟩ |
    ⟨i, key, l, r, -, hi, rfl⟩
  · exact ⟨locksOk_step hm.1 hi hs, valuesOk_step hm.1 hm.2 hi hs⟩
  · obtain ⟨key, p, he⟩ := hm.1.calls i _ hi
    cases he
  · exact ⟨locksOk_finish hm.1 hi r, valuesOk_finish hm.1 hm.2 hi r⟩

theorem sound_start (keys : List κ) : (start (keys.map some) : Machine κ ε ν).Sound := by
  refine ⟨⟨?_, ?_, ?_, ?_⟩, ⟨?_, ?_, ?_⟩⟩
  · intro i t ht
    simp only [start, List.map_map, List.getElem?_map] at ht
    obtain ⟨key, -, rfl⟩ := Option.map_eq_some_iff.1 ht
    exact ⟨key, .ready, rfl⟩
  · intro i k p l hi hl
    cases at_start hi
    cases hl
  · intro i k p l hi hl
    cases at_start hi
    cases hl
  · intro i j k k' p p' l hi _ hl
    cases at_start hi
    cases hl
  · intro k v hk
    cases hk
  · intro k ho
    exact absurd rfl ho
  · intro i k p hi
    cases at_start hi
    trivial

/-- How the bodies of a call ended before a phase. -/
def EndsAs (ends : List (Except ε ν)) : CallPhase ε ν → Prop
  | .publishing _ v => ends = [.ok v]
  | .leaving _ (.raised e) | .finished (.raised e) => ends = [.error e]
  | .leaving _ (.value v) | .finished (.value v) => ends = [] ∨ ends = [.ok v]
  | _ => ends = []

theorem endsAs_callMove (h : CallMove s key ph ph' s') {ends : List (Except ε ν)}
    (he : EndsAs ends ph) : EndsAs ends ph' := by
  cases h with
  | found | read => exact .inl he
  | publish => exact .inr he
  | @release l r => cases r <;> exact he
  | _ => exact he

/-- After an exception a call is on its way out with it, or gone. -/
theorem EndsAs.of_error {ends : List (Except ε ν)} (he : EndsAs ends ph) {e : ε} (hm : .error e ∈ ends) :
    ph = .finished (.raised e) ∨ ∃ l, ph = .leaving l (.raised e) := by
  cases ph with
  | finished r =>
    cases r with
    | raised e' =>
      rw [show ends = [.error e'] from he] at hm
      cases List.mem_singleton.1 hm
      exact .inl rfl
    | value v => rcases he with he | he <;> simp [he] at hm
    | gone => simp [show ends = [] from he] at hm
  | leaving l r =>
    cases r with
    | raised e' =>
      rw [show ends = [.error e'] from he] at hm
      cases List.mem_singleton.1 hm
      exact .inr ⟨l, rfl⟩
    | value v => rcases he with he | he <;> simp [he] at hm
    | gone => simp [show ends = [] from he] at hm
  | publishing l v => simp [show ends = [.ok v] from he] at hm
  | _ => simp [show ends = [] from he] at hm

theorem endsAs_afterBody (l : Nat) (r : Except ε ν) : EndsAs [r] (.afterBody l r) := by
  cases r <;> rfl

/-- A call that got the lock and found no value, by how its body ended since. -/
def OnItsOwn (kept : Option ν) (ends : List (Except ε ν)) : CallPhase ε ν → Prop
  | .holding _ => kept = none ∧ ends = []
  | .starting _ | .inside _ => ends = []
  | .publishing _ v => ends = [.ok v]
  | .leaving _ (.value v) | .finished (.value v) => ends = [.ok v]
  | .leaving _ (.raised e) | .finished (.raised e) => ends = [.error e]
  | _ => False

theorem onItsOwn_callMove (h : CallMove s key ph ph' s') {ends : List (Except ε ν)}
    (he : OnItsOwn (s.values.lookup key) ends ph) :
    OnItsOwn (s'.values.lookup key) ends ph' := by
  cases h with
  | refound hv => rw [hv] at he; cases he.1
  | remiss => exact he.2
  | start | publish => exact he
  | @release l r => cases r <;> exact he
  | found | miss | getLock | newLock | acquire | read | lost => cases he

theorem onItsOwn_afterBody (kept : Option ν) (l : Nat) (r : Except ε ν) :
    OnItsOwn kept [r] (.afterBody l r) := by
  cases r <;> rfl

theorem onItsOwn_beside (hl : m.LocksOk) {j : Nat} {k : κ} {p : CallPhase ε ν}
    (hj : m.At j k p) (hi : m.At i key ph) (hij : j ≠ i) (h : CallMove m.shared key ph ph' s')
    {ends : List (Except ε ν)} (he : OnItsOwn (m.shared.values.lookup k) ends p) :
    OnItsOwn (s'.values.lookup k) ends p := by
  cases p with
  | holding l =>
    refine ⟨?_, he.2⟩
    rcases h.values_cases with ⟨-, hs⟩ | ⟨l', v, rfl, hs⟩
    · exact hs ▸ he.1
    · have hk : k ≠ key := by
        rintro rfl
        exact hij (hl.alone hj hi rfl rfl)
      rw [hs, lookup_cons_of_ne hk]
      exact he.1
  | leaving l r => cases r <;> exact he
  | finished r => cases r <;> exact he
  | _ => exact he

theorem run_sound {moves : List (Move ε ν)} (hm : m.Sound) (h : m.run moves = some m') :
    m'.Sound :=
  run_history (P := fun _ m => m.Sound) (fun _ _ _ _ => sound_move) moves [] m m' hm h

/-- What steps of calls and ends of bodies carry on from a sound machine. -/
theorem run_calls {P : List (Move ε ν) → Machine κ ε ν → Prop}
    (hstep : ∀ past m i key ph ph' s, m.Sound → P past m → m.At i key ph →
      CallMove m.shared key ph ph' s → P (past ++ [.step i]) (m.place i key ph' s m.bodies))
    (hend : ∀ past m i key l r, m.Sound → P past m → m.At i key (.inside l) →
      P (past ++ [.finish i r]) (m.place i key (.afterBody l r) m.shared ((key, r) :: m.bodies)))
    {moves : List (Move ε ν)} (hm : m.Sound) (h₀ : P [] m) (h : m.run moves = some m') :
    P moves m' := by
  refine (run_history (P := fun past m => m.Sound ∧ P past m) ?_ moves [] m m' ⟨hm, h₀⟩ h).2
  intro past m mv m' ⟨hm, hp⟩ hmv
  refine ⟨sound_move hm hmv, ?_⟩
  rcases move_cases hmv with ⟨i, key, ph, ph', s, rfl, hi, hs, rfl⟩ | ⟨i, ph, ph', s, -, hi, -⟩ |
    ⟨i, key, l, r, rfl, hi, rfl⟩
  · exact hstep past m i key ph ph' s hm hp hi hs
  · obtain ⟨key, p, he⟩ := hm.1.calls i _ hi
    cases he
  · exact hend past m i key l r hm hp hi

/-- What the bodies of a call ended with, also where others clear the tables meanwhile. -/
theorem run_endsAs {jobs : List (Option κ)} {moves : List (Move ε ν)} (h : (start jobs).run moves = some m)
    (hi : m.At i key ph) : EndsAs (bodyEnds i moves) ph := by
  revert i key ph
  refine run_history (P := fun past m => ∀ {i key ph}, m.At i key ph → EndsAs (bodyEnds i past) ph)
    ?_ moves [] (start jobs) m (fun hi => ?_) h
  · intro past m mv m' hp hmv j k p hj
    rw [bodyEnds_append]
    rcases move_cases hmv with ⟨i, key, ph, ph', s, rfl, hi, hs, rfl⟩ | ⟨i, ph, ph', s, rfl, hi, -, rfl⟩ |
      ⟨i, key, l, r, rfl, hi, rfl⟩
    · rw [bodyEnds_step, List.append_nil]
      rcases (at_place hi _ _ _).1 hj with ⟨rfl, rfl, rfl⟩ | ⟨-, hj⟩
      · exact endsAs_callMove hs (hp hi)
      · exact hp hj
    · rw [bodyEnds_step, List.append_nil]
      exact hp ((at_placeClear hi _ _).1 hj)
    · rcases (at_place hi _ _ _).1 hj with ⟨rfl, rfl, rfl⟩ | ⟨hij, hj⟩
      · have he : bodyEnds j past = [] := hp hi
        rw [he, bodyEnds_finish_self]
        exact endsAs_afterBody l r
      · rw [bodyEnds_finish_of_ne (Ne.symm hij), List.append_nil]
        exact hp hj
  · cases at_start hi
    rfl

theorem run_onItsOwn {moves : List (Move ε ν)} (hm : m.Sound) {l : Nat}
    (hi : m.At i key (.holding l)) (hn : m.shared.values.lookup key = none)
    (h : m.run moves = some m') :
    ∃ ph, m'.At i key ph ∧ OnItsOwn (m'.shared.values.lookup key) (bodyEnds i moves) ph := by
  refine run_calls (P := fun past m => ∃ ph, m.At i key ph ∧
    OnItsOwn (m.shared.values.lookup key) (bodyEnds i past) ph)
    ?_ ?_ hm ⟨_, hi, hn, rfl⟩ h
  · rintro past m j k ph ph' s hm ⟨p, hp, ho⟩ hj hs
    rw [bodyEnds_append, bodyEnds_step, List.append_nil]
    by_cases hij : i = j
    · subst hij
      obtain ⟨rfl, rfl⟩ := at_unique hj hp
      exact ⟨ph', (at_place hj _ _ _).2 (.inl ⟨rfl, rfl, rfl⟩), onItsOwn_callMove hs ho⟩
    · exact ⟨p, (at_place hj _ _ _).2 (.inr ⟨hij, hp⟩), onItsOwn_beside hm.1 hp hj hij hs ho⟩
  · rintro past m j k l r hm ⟨p, hp, ho⟩ hj
    rw [bodyEnds_append]
    by_cases hij : i = j
    · subst hij
      obtain ⟨rfl, rfl⟩ := at_unique hj hp
      have he : bodyEnds i past = [] := ho
      rw [he, bodyEnds_finish_self]
      exact ⟨_, (at_place hj _ _ _).2 (.inl ⟨rfl, rfl, rfl⟩), onItsOwn_afterBody _ l r⟩
    · rw [bodyEnds_finish_of_ne (Ne.symm hij), List.append_nil]
      exact ⟨p, (at_place hj _ _ _).2 (.inr ⟨hij, hp⟩), ho⟩

theorem run_start_body {l : Nat} (hi : m.At i key (.holding l))
    (hn : m.shared.values.lookup key = none) :
    ∃ m', m.run [.step i, .step i] = some m' ∧ m'.At i key (.inside l) := by
  refine run_two_steps (.starting l) m.shared hi ?_ rfl
  simp [Shared.callStep, hn]

def endOfBody : Except ε ν → CallEnd ε ν
  | .ok v => .value v
  | .error e => .raised e

theorem exactly_once {keys : List κ} {moves : List (Move ε ν)}
    (h : (start (keys.map some)).run moves = some m) :
    -- bodies of one key run one at a time, and one of them at most ends with a value
    (∀ i j key l l', m.At i key (.inside l) → m.At j key (.inside l') → i = j) ∧
    (∀ key, (m.outcomes key).length ≤ 1) ∧
    -- a call ends with that value or with the exception of its own body
    (∀ i key r, m.At i key (.finished r) →
      (∃ v, r = .value v ∧ m.outcomes key = [v]) ∨
        ∃ e, r = .raised e ∧ bodyEnds i moves = [.error e]) ∧
    -- no other value is published, and nothing by a call whose body raised
    (∀ key v, m.shared.values.lookup key = some v → m.outcomes key = [v]) ∧
    (∀ i e key ph, .error e ∈ bodyEnds i moves → m.At i key ph →
      ph = .finished (.raised e) ∨ ∃ l, ph = .leaving l (.raised e)) ∧
    -- who gets the lock and finds no value runs the body, and ends as the body does
    ∀ i key l, m.At i key (.holding l) → m.shared.values.lookup key = none →
      (∃ m', m.run [.step i, .step i] = some m' ∧ m'.At i key (.inside l)) ∧
      ∀ more m' r, m.run more = some m' → m'.At i key (.finished r) →
        ∃ b, bodyEnds i more = [b] ∧ r = endOfBody b := by
  have hm : m.Sound := run_sound (sound_start keys) h
  refine ⟨?_, ?_, ?_, hm.2.table, ?_, ?_⟩
  · intro i j key l l' hi hj
    exact hm.1.alone hi hj rfl rfl
  · intro key
    by_cases ho : m.outcomes key = []
    · simp [ho]
    · cases hv : m.shared.values.lookup key with
      | none =>
        obtain ⟨i, l, v, hi⟩ := hm.2.pending key ho hv
        simp [(hm.2.fits i key _ hi).2]
      | some v => simp [hm.2.table key v hv]
  · intro i key r hi
    have hf := hm.2.fits i key _ hi
    have he := run_endsAs h hi
    cases r with
    | value v => exact .inl ⟨v, rfl, hm.2.table key v hf⟩
    | raised e => exact .inr ⟨e, rfl, he⟩
    | gone => cases hf
  · intro i e key ph hmem hi
    exact (run_endsAs h hi).of_error hmem
  · intro i key l hi hn
    refine ⟨run_start_body hi hn, ?_⟩
    intro more m' r hr hf
    obtain ⟨ph, hp, ho⟩ := run_onItsOwn hm hi hn hr
    obtain ⟨-, rfl⟩ := at_unique hf hp
    cases r with
    | value v => exact ⟨.ok v, ho, rfl⟩
    | raised e => exact ⟨.error e, ho, rfl⟩
    | gone => cases ho

/-- Two calls of one key: the first body raises, so the second call runs the body again. -/
def retrySchedule : List (Move String Nat) :=
  [.step 0, .step 1, .step 0, .step 1, .step 0, .step 0, .step 0, .finish 0 (.error "no"), .step 0,
    .step 1, .step 1, .step 1, .finish 1 (.ok 7), .step 1, .step 1]

theorem exactly_once_retry :
    ∃ m : Machine Nat String Nat, (start ([5, 5].map some)).run retrySchedule = some m ∧
      m.At 0 5 (.finished (.raised "no")) ∧ m.At 1 5 (.finished (.value 7)) ∧ m.outcomes 5 = [7] := by
  have hrun : ∃ m : Machine Nat String Nat, (start ([5, 5].map some)).run retrySchedule = some m ∧
      m.At 0 5 (.finished (.raised "no")) ∧ m.At 1 5 (.finished (.value 7)) := ⟨_, rfl, rfl, rfl⟩
  obtain ⟨m, hm, h0, h1⟩ := hrun
  refine ⟨m, hm, h0, h1, ?_⟩
  rcases (exactly_once hm).2.2.1 1 5 (.value 7) h1 with ⟨v, hv, ho⟩ | ⟨e, he, -⟩
  · cases hv
    exact ho
  · cases he

end Machine

end Whereabouts.Once

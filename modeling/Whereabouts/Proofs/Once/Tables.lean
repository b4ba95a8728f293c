import Whereabouts.Proofs.Once.History

/-!
# Tables of functions

What the steps of a call do to the tables of the functions. `Tables` says that the kept values of a function
are those that its invocations ended with and that its counter counts the invocations of the history, and
that no two keys share a lock. `Restores` says what no call can change, however deep calls are nested in it.
-/

namespace Whereabouts.Once

variable {ν : Type} {p : Program ν} {m m' : Memory ν} {name : String} {key : Key} {f : Function ν}

/-! ## Memories -/

namespace Memory

/-- The lock of a key of a function. -/
def lock? (m : Memory ν) (x : String × Key) : Option Nat := (m.functions.lookup x.1).bind (·.locks.lookup x.2)

theorem lookup_update (m : Memory ν) (name : String) (c : Function ν → Function ν) (n : String) :
    (m.update name c).functions.lookup n =
      if n = name then (m.functions.lookup n).map c else m.functions.lookup n := by
  unfold update
  induction m.functions with
  | nil => simp
  | cons x xs ih =>
    rw [List.map_cons, List.lookup_cons, List.lookup_cons]
    have hfst : (if x.1 = name then (x.1, c x.2) else x).1 = x.1 := by split <;> rfl
    rw [hfst]
    cases hn : n == x.1 with
    | false => exact ih
    | true =>
      obtain rfl := eq_of_beq hn
      dsimp only
      split <;> rfl

theorem forall_mem_update {P : String × Function ν → Prop} {c : Function ν → Function ν}
    (hself : ∀ x ∈ m.functions, x.1 = name → P (x.1, c x.2)) (hother : ∀ x ∈ m.functions, x.1 ≠ name → P x) :
    ∀ x ∈ (m.update name c).functions, P x := by
  intro x hx
  obtain ⟨y, hy, rfl⟩ := List.mem_map.1 hx
  split
  · next hn => exact hself y hy hn
  · next hn => exact hother y hy hn

theorem mem_of_lookup {xs : List (String × Function ν)} (h : xs.lookup name = some f) : (name, f) ∈ xs := by
  obtain ⟨l₁, l₂, rfl, -⟩ := List.lookup_eq_some_iff.1 h
  exact List.mem_append_right _ List.mem_cons_self

theorem lookup_locked (k : Key) (l : Nat) :
    (locked key l f).locks.lookup k = if k = key then some l else f.locks.lookup k := by
  unfold locked
  rw [List.lookup_cons]
  cases hk : k == key with
  | false => rw [if_neg (by simpa using hk)]
  | true => rw [if_pos (eq_of_beq hk)]

/-- Changes that leave the locks of every function leave the locks of keys. -/
theorem lock?_update {c : Function ν → Function ν} (hc : ∀ f, (c f).locks = f.locks) (x : String × Key) :
    (m.update name c).lock? x = m.lock? x := by
  unfold lock?
  rw [lookup_update]
  split
  · rw [Option.bind_map]
    exact congrArg _ (funext fun f => by rw [Function.comp, hc])
  · rfl

end Memory

open Memory

/-! ## Tables -/

/-- No two keys share a lock, and the next lock is new. -/
structure LocksApart (m : Memory ν) : Prop where
  distinct : ∀ x y l, m.lock? x = some l → m.lock? y = some l → x = y
  fresh : ∀ x l, m.lock? x = some l → l < m.lockCount

theorem LocksApart.of_same (h : LocksApart m) (hs : ∀ x, m'.lock? x = m.lock? x)
    (hc : m'.lockCount = m.lockCount) : LocksApart m' where
  distinct x y l hx hy := h.distinct x y l ((hs x).symm.trans hx) ((hs y).symm.trans hy)
  fresh x l hx := hc ▸ h.fresh x l ((hs x).symm.trans hx)

/-- The tables are as the history and the program say. -/
structure Tables (p : Program ν) (m : Memory ν) : Prop where
  scripts : m.functions.map (fun x => (x.1, x.2.script)) = p.functions
  values : ∀ x ∈ m.functions, x.2.values = valuesIn x.1 m.history
  invocations : ∀ x ∈ m.functions, x.2.invocations = m.history.countP (Event.isStart x.1)
  apart : LocksApart m

namespace Tables

theorem script_mem (h : Tables p m) (hf : m.functions.lookup name = some f) : (name, f.script) ∈ p.functions := by
  rw [← h.scripts]
  exact List.mem_map_of_mem (f := fun x : String × Function ν => (x.1, x.2.script)) (mem_of_lookup hf)

/-- An event that neither begins an invocation nor brings a value. -/
theorem note (h : Tables p m) {e : Event ν} (hv : ∀ f, e.value? f = none) (hs : ∀ f, e.isStart f = false) :
    Tables p (m.note e) where
  scripts := h.scripts
  values x hx := by
    rw [h.values x hx]
    exact (valuesIn_cons_of_none (hv x.1)).symm
  invocations x hx := by
    rw [h.invocations x hx]
    exact (List.countP_cons_of_neg (by rw [hs]; decide)).symm
  apart := h.apart.of_same (fun _ => rfl) rfl

theorem held (h : Tables p m) (held : List Nat) : Tables p { m with held := held } :=
  ⟨h.scripts, h.values, h.invocations, h.apart.of_same (fun _ => rfl) rfl⟩

theorem scripts_update (h : Tables p m) {c : Function ν → Function ν} (hc : ∀ f, (c f).script = f.script) :
    (m.update name c).functions.map (fun x => (x.1, x.2.script)) = p.functions := by
  rw [← h.scripts]
  unfold update
  rw [List.map_map]
  refine List.map_congr_left fun x _ => ?_
  dsimp only [Function.comp]
  split
  · rw [hc]
  · rfl

theorem started (h : Tables p m) (name : String) (key : Key) :
    Tables p ((m.update name invoked).note (.started name key)) where
  scripts := h.scripts_update (c := invoked) fun _ => rfl
  values := forall_mem_update (fun x hx _ => h.values x hx) fun x hx _ => h.values x hx
  invocations := by
    refine forall_mem_update (fun x hx hn => ?_) fun x hx hn => ?_
    · have hstart : Event.isStart x.1 (.started name key : Event ν) = true := decide_eq_true hn.symm
      show x.2.invocations + 1 = (.started name key :: m.history).countP (Event.isStart x.1)
      rw [h.invocations x hx, List.countP_cons_of_pos hstart]
    · have hstart : ¬Event.isStart x.1 (.started name key : Event ν) = true := by
        simpa [Event.isStart] using Ne.symm hn
      show x.2.invocations = (.started name key :: m.history).countP (Event.isStart x.1)
      rw [h.invocations x hx, List.countP_cons_of_neg hstart]
  apart := h.apart.of_same (fun x => lock?_update (c := invoked) (fun _ => rfl) x) rfl

theorem valued (h : Tables p m) (name : String) (key : Key) (v : Value ν) :
    Tables p ((m.update name (Memory.valued key v)).note (.ended name key (.ok v))) where
  scripts := h.scripts_update (c := Memory.valued key v) fun _ => rfl
  values := by
    refine forall_mem_update (fun x hx hn => ?_) fun x hx hn => ?_
    · show (key, v) :: x.2.values = valuesIn x.1 (.ended name key (.ok v) :: m.history)
      rw [valuesIn_ended, if_pos hn.symm, h.values x hx]
    · show x.2.values = valuesIn x.1 (.ended name key (.ok v) :: m.history)
      rw [valuesIn_ended, if_neg (Ne.symm hn), h.values x hx]
  invocations := forall_mem_update (fun x hx _ => h.invocations x hx) fun x hx _ => h.invocations x hx
  apart := h.apart.of_same (fun x => lock?_update (c := Memory.valued key v) (fun _ => rfl) x) rfl

end Tables

/-! ## Locks -/

/-- What asking for the lock of a key leaves. -/
structure LockGot (p : Program ν) (m : Memory ν) (x : String × Key) (l : Nat) (m' : Memory ν) : Prop where
  tables : Tables p m'
  history : m'.history = m.history
  held : m'.held = m.held
  own : m'.lock? x = some l
  keeps : ∀ y l', m.lock? y = some l' → m'.lock? y = some l'

theorem lockGot_lockOf (h : Tables p m) (hf : m.functions.lookup name = some f) (key : Key) :
    LockGot p m (name, key) (m.lockOf name f key).1 (m.lockOf name f key).2 := by
  have hlock : m.lock? (name, key) = f.locks.lookup key := by
    unfold lock?
    rw [hf]
    rfl
  unfold lockOf
  cases hl : f.locks.lookup key with
  | some l => exact ⟨h, rfl, rfl, hlock.trans hl, fun _ _ hy => hy⟩
  | none =>
    have hnew : ∀ y, (m.update name (locked key m.lockCount)).lock? y =
        if y = (name, key) then some m.lockCount else m.lock? y := by
      rintro ⟨g, k⟩
      unfold lock?
      rw [lookup_update]
      by_cases hg : g = name
      · subst hg
        rw [if_pos rfl, hf, Option.map_some, Option.bind_some, Option.bind_some, lookup_locked]
        simp only [Prod.mk.injEq, true_and]
      · simp [hg]
    have hkeeps : ∀ y l', m.lock? y = some l' → y ≠ (name, key) := by
      rintro y l' hy rfl
      rw [hlock, hl] at hy
      cases hy
    refine ⟨⟨h.scripts_update (c := locked key m.lockCount) fun _ => rfl, ?_, ?_, ?_, ?_⟩, rfl, rfl, ?_, ?_⟩
    · exact forall_mem_update (fun x hx _ => h.values x hx) fun x hx _ => h.values x hx
    · exact forall_mem_update (fun x hx _ => h.invocations x hx) fun x hx _ => h.invocations x hx
    · intro x y l hx hy
      replace hx := (hnew x).symm.trans hx
      replace hy := (hnew y).symm.trans hy
      -- the new lock is above all others, so it is the lock of no other key
      split at hx <;> split at hy
      · next hxk hyk => rw [hxk, hyk]
      · cases hx
        exact absurd (h.apart.fresh y _ hy) (Nat.lt_irrefl _)
      · cases hy
        exact absurd (h.apart.fresh x _ hx) (Nat.lt_irrefl _)
      · exact h.apart.distinct x y l hx hy
    · intro x l hx
      replace hx := (hnew x).symm.trans hx
      split at hx
      · cases hx
        exact Nat.lt_succ_self _
      · exact Nat.lt_succ_of_lt (h.apart.fresh x l hx)
    · exact (hnew (name, key)).trans (if_pos rfl)
    · intro y l' hy
      exact (hnew y).trans ((if_neg (hkeeps y l' hy)).trans hy)

/-! ## What a step keeps -/

/-- A relation of the memories before and after that steps carry on from the calls in them. -/
structure Steady (R : Memory ν → Memory ν → Prop) : Prop where
  refl : ∀ m, R m m
  trans : ∀ {m m' m''}, R m m' → R m' m'' → R m m''
  clear : ∀ m name, R m (m.clear name)
  clearAll : ∀ m, R m m.clearAll

namespace Steady

variable {R : Memory ν → Memory ν → Prop} {c : Caller ν}

theorem repeatCall (hR : Steady R) {c : Memory ν → Except Problem (Value ν) × Memory ν} (hc : ∀ m, R m (c m).2)
    (n : Nat) (m : Memory ν) : R m (repeatCall c n m).2 := by
  induction n generalizing m with
  | zero => exact hR.refl m
  | succ n ih => exact hR.trans (hc m) (ih (c m).2)

theorem runStep (hR : Steady R) (hc : ∀ name args m, R m (c name args m).2) (m : Memory ν) (s : Step) :
    R m (runStep c m s).2 := by
  cases s with
  | call g args => exact hc g args m
  | threads g args n => exact hR.repeatCall (hc g args) n m
  | clear g => exact hR.clear m g
  | clearAll => exact hR.clearAll m
  | name g => exact hR.refl m

theorem runSteps (hR : Steady R) (hc : ∀ name args m, R m (c name args m).2) (ss : List Step) (m : Memory ν) :
    R m (runSteps c ss m).2 := by
  induction ss generalizing m with
  | nil => exact hR.refl m
  | cons s ss ih => exact hR.trans (hR.runStep hc m s) (ih _)

end Steady

/-! ## What is restored -/

/-- The locks that were held are held again, and nothing of the history is lost. -/
structure Restores (m m' : Memory ν) : Prop where
  held : m'.held = m.held
  history : m.history <:+ m'.history

namespace Restores

variable {m'' : Memory ν} {c : Caller ν}

theorem refl (m : Memory ν) : Restores m m := ⟨rfl, List.suffix_refl _⟩

theorem trans (h : Restores m m') (h' : Restores m' m'') : Restores m m'' :=
  ⟨h'.held.trans h.held, h.history.trans h'.history⟩

theorem note (h : Restores m m') (e : Event ν) : Restores m (m'.note e) :=
  ⟨h.held, h.history.trans (List.suffix_cons _ _)⟩

theorem update (m : Memory ν) (name : String) (c : Function ν → Function ν) : Restores m (m.update name c) :=
  ⟨rfl, List.suffix_refl _⟩

theorem lockOf (m : Memory ν) (name : String) (f : Function ν) (key : Key) : Restores m (m.lockOf name f key).2 := by
  unfold Memory.lockOf
  split
  · exact .refl m
  · exact ⟨rfl, List.suffix_refl _⟩

theorem steady : Steady (@Restores ν) where
  refl := refl
  trans := trans
  clear m name := (update m name _).note _
  clearAll _ := ⟨rfl, List.suffix_append _ _⟩

theorem invoke (hc : ∀ name args m, Restores m (c name args m).2) (name : String) (key : Key) (l : Nat)
    (i : Invocation ν) (m : Memory ν) : Restores m (invoke c name key l i m).2 := by
  unfold Once.invoke
  dsimp only
  generalize hbegun : Memory.note _ _ = begun
  have hb : Restores m begun := hbegun ▸ (update m name _).note _
  obtain ⟨hheld, hhistory⟩ := steady.runSteps hc i.during { begun with held := l :: begun.held }
  generalize Once.runSteps c i.during { begun with held := l :: begun.held } = x at hheld hhistory
  have hlet : Restores begun { x.2 with held := x.2.held.erase l } := by
    refine ⟨?_, hhistory⟩
    dsimp only
    rw [hheld]
    exact List.erase_cons_head ..
  cases i.outcome with
  | error e => exact (hb.trans hlet).note _
  | ok v => exact ((hb.trans hlet).trans (update _ name _)).note _

theorem answerCall (hc : ∀ name args m, Restores m (c name args m).2) (name : String) (key : Key) (f : Function ν)
    (m : Memory ν) : Restores m (answerCall c name key f m).2 := by
  unfold Once.answerCall
  have hl := lockOf m name f key
  split
  · exact .refl m
  · dsimp only
    split
    · exact hl
    · split
      · exact hl
      · exact hl.trans (invoke hc name key _ _ _)

theorem keyed {answer : String → Key → Function ν → Memory ν → Except Problem (Value ν) × Memory ν}
    (ha : ∀ name key f m, Restores m (answer name key f m).2) (name : String) (args : List Argument) (m : Memory ν) :
    Restores m (keyed answer name args m).2 := by
  unfold Once.keyed
  split
  · exact .refl m
  · exact .refl m
  · exact (((Restores.refl m).note _).trans (ha name _ _ _)).note _

theorem call (depth : Nat) (name : String) (args : List Argument) (m : Memory ν) :
    Restores m (call depth name args m).2 := by
  induction depth generalizing name args m with
  | zero => exact keyed (fun _ _ _ m => .refl m) name args m
  | succ depth ih => exact keyed (answerCall ih) name args m

end Restores

end Whereabouts.Once

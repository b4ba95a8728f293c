import Whereabouts.Proofs.FileTree.Growth
import Whereabouts.Session.State

/-!
# Two runs of one program

`Agree R f g s t Q`: the actions `f` and `g`, run from the states `s` and `t`, end alike and leave
states that `R` relates. On the way the first run changes nothing outside but adds to the tree, and
what it ends with satisfies `Q`. There is one rule for each way to build an action.
-/

namespace Whereabouts

instance decidableEqExcept {ε α : Type} [DecidableEq ε] [DecidableEq α] : DecidableEq (Except ε α)
  | .ok a, .ok b => decidable_of_iff (a = b) ⟨congrArg _, Except.ok.inj⟩
  | .error e, .error e' => decidable_of_iff (e = e') ⟨congrArg _, Except.error.inj⟩
  | .ok _, .error _ | .error _, .ok _ => isFalse nofun

/-! ## Mapped outcomes -/

section
variable {ε α β : Type} {x : Except ε α} {k : α → β}

theorem exists_of_map_ok {b : β} (h : x.map k = .ok b) : ∃ a, x = .ok a ∧ k a = b := by
  cases x with
  | error e => cases h
  | ok a => exact ⟨a, rfl, Except.ok.inj h⟩

theorem error_of_map_error {e : ε} (h : x.map k = .error e) : x = .error e := by
  cases x with
  | error e' => exact congrArg Except.error (Except.error.inj h)
  | ok a => cases h

end

/-! ## Runs of actions -/

namespace Action

variable {α β : Type} {s : State}

theorem run_bind (f : Action α) (F : α → Action β) :
    Action.run (f >>= F) s =
      match f.run s with
      | (.ok a, s') => (F a).run s'
      | (.error e, s') => (.error e, s') := by
  show (match (ExceptT.run f).run s with | (r, s') => (ExceptT.bindCont F r).run s') = _
  unfold Action.run
  cases (ExceptT.run f).run s with
  | mk r s' => cases r <;> rfl

theorem run_get (F : State → Action β) : Action.run (MonadState.get >>= F) s = (F s).run s := rfl

theorem run_modify (c : State → State) (F : Unit → Action β) :
    Action.run (modify c >>= F) s = (F ()).run (c s) := rfl

theorem run_tryCatch (f : Action α) (h : Failure → Action α) :
    Action.run (tryCatch f h) s =
      match f.run s with
      | (.ok a, s') => (.ok a, s')
      | (.error e, s') => (h e).run s' := by
  unfold Action.run ExceptT.run StateT.run
  simp only [tryCatch, tryCatchThe, MonadExceptOf.tryCatch, ExceptT.tryCatch, ExceptT.mk, bind, StateT.bind]
  cases f s with
  | mk r s' => cases r <;> rfl

theorem run_map (c : α → β) (f : Action α) :
    Action.run (c <$> f) s = ((f.run s).1.map c, (f.run s).2) := by
  unfold Action.run
  simp only [ExceptT.run_map, StateT.run_map]
  rfl

theorem run_bind_pure (f : Action α) (c : α → β) :
    Action.run (do pure (c (← f))) s = ((f.run s).1.map c, (f.run s).2) := by
  rw [bind_pure_comp, run_map]

end Action

/-! ## Runs side by side -/

/-- The environment and the working directory stay, and the tree grows. -/
structure Extends (s s' : State) : Prop where
  env : s'.env = s.env
  here : s'.here = s.here
  tree : FileTree.Grows s.tree s'.tree

theorem Extends.refl (s : State) : Extends s s := ⟨rfl, rfl, .refl _⟩

theorem Extends.trans {s s' s'' : State} (h : Extends s s') (h' : Extends s' s'') : Extends s s'' :=
  ⟨h'.env.trans h.env, h'.here.trans h.here, h.tree.trans h'.tree⟩

structure Agree {α : Type} (R : State → State → Prop) (f g : Action α) (s t : State)
    (Q : α → State → Prop) : Prop where
  result : (f.run s).1 = (g.run t).1
  related : R (f.run s).2 (g.run t).2
  grown : Extends s (f.run s).2
  holds : ∀ a, (f.run s).1 = .ok a → Q a (f.run s).2

namespace Agree

variable {α β : Type} {R : State → State → Prop} {s t : State} {f g : Action α}
  {P Q : α → State → Prop} {T : β → State → Prop}

theorem of_runs {a : α} {s' t' : State} (hf : f.run s = (.ok a, s')) (hg : g.run t = (.ok a, t'))
    (hr : R s' t') (he : Extends s s') (h : Q a s') : Agree R f g s t Q where
  result := by rw [hf, hg]
  related := by
    rw [hf, hg]
    exact hr
  grown := by
    rw [hf]
    exact he
  holds b hb := by
    rw [hf] at hb ⊢
    cases hb
    exact h

theorem of_errors {e : Failure} {s' t' : State} (hf : f.run s = (.error e, s')) (hg : g.run t = (.error e, t'))
    (hr : R s' t') (he : Extends s s') : Agree R f g s t Q where
  result := by rw [hf, hg]
  related := by
    rw [hf, hg]
    exact hr
  grown := by
    rw [hf]
    exact he
  holds a ha := by
    rw [hf] at ha
    cases ha

/-- Runs that go on as others from later states. -/
theorem after {f' g' : Action α} {s' t' : State} (hf : f.run s = f'.run s') (hg : g.run t = g'.run t')
    (he : Extends s s') (h : Agree R f' g' s' t' Q) : Agree R f g s t Q where
  result := by
    rw [hf, hg]
    exact h.result
  related := by
    rw [hf, hg]
    exact h.related
  grown := by
    rw [hf]
    exact he.trans h.grown
  holds := by
    rw [hf]
    exact h.holds

theorem pure {a : α} (hr : R s t) (h : Q a s) : Agree R (pure a) (pure a) s t Q where
  result := rfl
  related := hr
  grown := .refl s
  holds b hb := by
    cases hb
    exact h

theorem throw {e : Failure} (hr : R s t) : Agree R (throw e) (throw e) s t Q where
  result := rfl
  related := hr
  grown := .refl s
  holds a ha := by cases ha

theorem lift {x : Except Failure α} (hr : R s t) (h : ∀ a, x = .ok a → Q a s) :
    Agree R (ExceptT.mk (Pure.pure x)) (ExceptT.mk (Pure.pure x)) s t Q where
  result := rfl
  related := hr
  grown := .refl s
  holds := h

theorem set {s' t' : State} {Q : Unit → State → Prop} (hr : R s' t') (hg : Extends s s') (h : Q () s') :
    Agree R (MonadStateOf.set s') (MonadStateOf.set t') s t Q where
  result := rfl
  related := hr
  grown := hg
  holds _ _ := h

theorem modify {c d : State → State} {Q : Unit → State → Prop} (hr : R (c s) (d t))
    (hg : Extends s (c s)) (h : Q () (c s)) : Agree R (modify c) (modify d) s t Q where
  result := rfl
  related := hr
  grown := hg
  holds _ _ := h

theorem get {F G : State → Action β} (h : Agree R (F s) (G t) s t T) :
    Agree R (MonadState.get >>= F) (MonadState.get >>= G) s t T :=
  ⟨h.result, h.related, h.grown, h.holds⟩

theorem mono (h : Agree R f g s t P) (hq : ∀ a s', Extends s s' → P a s' → Q a s') :
    Agree R f g s t Q :=
  ⟨h.result, h.related, h.grown, fun a ha => hq a _ h.grown (h.holds a ha)⟩

theorem bind {F G : α → Action β} (h : Agree R f g s t P)
    (next : ∀ a s' t', R s' t' → Extends s s' → P a s' → Agree R (F a) (G a) s' t' T) :
    Agree R (f >>= F) (g >>= G) s t T := by
  obtain ⟨he, hr, hgrown, hp⟩ := h
  have hf := Action.run_bind f F (s := s)
  have hg := Action.run_bind g G (s := t)
  generalize f.run s = x at he hr hgrown hp hf
  generalize g.run t = y at he hr hg
  obtain ⟨x, s'⟩ := x
  obtain ⟨y, t'⟩ := y
  obtain rfl : x = y := he
  cases x with
  | error e => exact .of_errors hf hg hr hgrown
  | ok a => exact .after hf hg hgrown (next a s' t' hr hgrown (hp a rfl))

theorem throw_bind {e : Failure} {F G : α → Action β} (hr : R s t) :
    Agree R (MonadExcept.throw e >>= F) (MonadExcept.throw e >>= G) s t T :=
  .bind (P := fun _ _ => False) (.throw hr) fun _ _ _ _ _ h => h.elim

theorem tryCatch {F G : Failure → Action α} (h : Agree R f g s t Q)
    (next : ∀ e s' t', R s' t' → Extends s s' → Agree R (F e) (G e) s' t' Q) :
    Agree R (tryCatch f F) (tryCatch g G) s t Q := by
  obtain ⟨he, hr, hgrown, hp⟩ := h
  have hf := Action.run_tryCatch f F (s := s)
  have hg := Action.run_tryCatch g G (s := t)
  generalize f.run s = x at he hr hgrown hp hf
  generalize g.run t = y at he hr hg
  obtain ⟨x, s'⟩ := x
  obtain ⟨y, t'⟩ := y
  obtain rfl : x = y := he
  cases x with
  | ok a => exact .of_runs hf hg hr hgrown (hp a rfl)
  | error e => exact .after hf hg hgrown (next e s' t' hr hgrown)

theorem map {c : α → β} (h : Agree R f g s t Q) (hq : ∀ a s', Q a s' → T (c a) s') :
    Agree R (c <$> f) (c <$> g) s t T := by
  obtain ⟨he, hr, hg, hp⟩ := h
  have hf := Action.run_map c f (s := s)
  have hg' := Action.run_map c g (s := t)
  refine ⟨?_, ?_, ?_, fun b hb => ?_⟩
  · rw [hf, hg', he]
  · rw [hf, hg']
    exact hr
  · rw [hf]
    exact hg
  · rw [hf] at hb ⊢
    cases hx : (f.run s).1 with
    | error e =>
      rw [hx] at hb
      cases hb
    | ok a =>
      rw [hx] at hb
      cases hb
      exact hq a _ (hp a hx)

end Agree

end Whereabouts

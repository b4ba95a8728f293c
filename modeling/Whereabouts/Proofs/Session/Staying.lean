import Whereabouts.Proofs.Session.Caching
import Whereabouts.Proofs.Session.Peers

/-!
# Values that stay

An `Invariant` that survives what is cleared holds after every session (`holds_run`) and whenever it makes a call
(`holds_allTurns`); so steps that clear nothing keep what is kept (`stays_run`). `Recalls` says of an action that once
it ended well it ends with the same value as long as nothing is cleared.
-/

namespace Whereabouts

variable {host : Host} {α β : Type}

/-! ## What holds along a session -/

/-- One state, and something that holds in it. -/
def Holding (I : State → Prop) (s t : State) : Prop := t = s ∧ I s

/-- What a step clears. -/
def Step.cleared : Step → Kept → Kept
  | .clear lookup, k => k.clear lookup
  | .clearAll, _ => {}
  | _, k => k

theorem Step.stays_cleared (st : Step) (k : Kept) : (st.cleared k).Stays k := by
  cases st with
  | clear lookup => exact k.stays_clear lookup
  | clearAll => exact .of_nothing k
  | _ => exact .refl k

/-- What a step makes of the environment. -/
def Step.envAfter : Step → Environment → Environment
  | .change (.setVar name value), env => env.set name value
  | .change (.unsetVar name), env => env.unset name
  | _, env => env

theorem apply_same {c : Change} {s s' : State} (h : c.apply s = .ok s') :
    s'.env = (Step.change c).envAfter s.env ∧ s'.kept = s.kept ∧ s'.tempDir = s.tempDir := by
  cases c with
  | setVar | unsetVar =>
    cases h
    exact ⟨rfl, rfl, rfl⟩
  | _ =>
    obtain ⟨a, -, rfl⟩ := exists_of_map_ok (show Except.map _ _ = .ok s' from h)
    exact ⟨rfl, rfl, rfl⟩

theorem placed_afterRemoval {s : State} (h : s.IsPlaced) (tree : FileTree) (removed : Location) :
    State.IsPlaced { s with tree := tree, here := hereAfterRemoval s.here removed } := by
  unfold State.IsPlaced hereAfterRemoval at *
  cases hh : s.here with
  | none => simp
  | some loc =>
    rw [hh] at h
    rw [Option.filter_some]
    split
    · exact h
    · simp

theorem placed_apply {c : Change} {s s' : State} (h : c.apply s = .ok s') (hs : s.IsPlaced) : s'.IsPlaced := by
  cases c with
  | setVar | unsetVar | enter => exact (idle_change rfl h).placed hs
  | remove path =>
    obtain ⟨x, -, rfl⟩ := exists_of_map_ok (show Except.map _ _ = .ok s' from h)
    exact placed_afterRemoval hs _ _
  | _ =>
    obtain ⟨tree, -, rfl⟩ := exists_of_map_ok (show Except.map _ _ = .ok s' from h)
    exact hs

/-- It depends on the environment, the kept values, the directory for temporary files and whether the working directory
is placed, and lasts when a value or a directory is found. -/
structure Invariant (host : Host) (I : State → Prop) : Prop where
  same : ∀ {s s' : State}, I s → s'.env = s.env → s'.kept = s.kept → s'.tempDir = s.tempDir →
    (s.IsPlaced → s'.IsPlaced) → I s'
  found : ∀ {s : State}, I s → ∀ dir, holdsFiles s.tree s.here dir = true → I { s with tempDir := some dir }
  /-- The value of a slot that was empty when its lookup began. -/
  stored : ∀ {α : Type} {slot : Slot α}, slot.Lawful → ∀ {s₀ s : State} {a : α}, I s₀ → slot.find s₀.kept = none →
    I s → slot.StoresFrom host s₀ a → I { s with kept := slot.store s.kept a }

section
variable {I : State → Prop}

theorem Invariant.unread (hI : Invariant host I) : Unread host true (Holding I) where
  env h := h.1 ▸ ⟨fun _ => rfl, .inl rfl⟩
  tree h := by rw [h.1]
  here h := by rw [h.1]
  kept h := by rw [h.1]
  tempDir h := by rw [h.1]
  tempTried h := by rw [h.1]
  changed {s _ c} h hc hk hd hh := by
    have hplaced : s.IsPlaced → (c s).IsPlaced := fun hs => by rwa [State.IsPlaced, hh]
    exact ⟨by rw [h.1], hI.same h.2 (hc.same s).1 (hk s) (hd s) hplaced⟩
  found h dir hd := ⟨by rw [h.1], hI.found h.2 dir hd⟩
  stored hslot _ _ _ _ h₀ hs h _ hb := ⟨by rw [h.1], hI.stored hslot h₀.2 hs h.2 hb⟩
  warned h text := ⟨by rw [h.1], hI.same h.2 rfl rfl rfl id⟩
  debugged h text := ⟨by rw [h.1], hI.same h.2 rfl rfl rfl id⟩

theorem holds_call (hI : Invariant host I) (c : Call) {s : State} (h : I s) : I ((c.action host).run s).2 :=
  (agree_unread hI.unread c ⟨rfl, h⟩).related.2

/-- An invariant that survives what a step clears and sets holds after the step. -/
theorem holds_step (hI : Invariant host I) {st : Step}
    (hc : ∀ s : State, I s → I { s with env := st.envAfter s.env, kept := st.cleared s.kept }) {s : State} (h : I s) :
    I (Session.step host s st).2 := by
  have hlog : I { s with log := [] } := hI.same h rfl rfl rfl id
  have hstart : Holding I { s with log := [] } { s with log := [] } := ⟨rfl, hlog⟩
  have hsetUp : ∀ verbose, I (State.setUpLogging { s with log := [] } verbose) := fun _ => hI.same h rfl rfl rfl id
  show I ((Session.answer host st).run { s with log := [] }).2
  cases st with
  | call c => exact holds_call hI c hlog
  | threads c n => exact (hI.unread.repeated hstart c n).related.2
  | commandLine args => exact (hI.unread.commandLine hstart (fun verbose => ⟨rfl, hsetUp verbose⟩) args).related.2
  | log level name template args =>
    obtain ⟨log, hs⟩ := Session.logMessage_log level name template args { s with log := [] }
    show I ((Session.logMessage level name template args).run _).2
    rw [hs]
    exact hI.same h rfl rfl rfl id
  | change c =>
    cases happly : c.apply { s with log := [] } with
    | error why =>
      rw [run_refused happly]
      exact hlog
    | ok s' =>
      rw [run_changed happly]
      obtain ⟨henv, hkept, hdir⟩ := apply_same happly
      exact hI.same (hc _ hlog) henv hkept hdir fun hs => placed_apply happly hs
  | listing path =>
    rw [Session.run_listing]
    split <;> exact hlog
  | setupLogging verbose => exact hsetUp verbose
  | sdkRuns => exact hlog
  | clear | clearAll => exact hc _ hlog

theorem holds_run (hI : Invariant host I) {steps : List Step}
    (hc : ∀ st ∈ steps, ∀ s : State, I s → I { s with env := st.envAfter s.env, kept := st.cleared s.kept })
    {s : State} (h : I s) : I (Session.run host s steps).2 := by
  induction steps generalizing s with
  | nil => exact h
  | cons st steps ih =>
    exact ih (fun st hm => hc st (List.mem_cons_of_mem _ hm)) (holds_step hI (hc st List.mem_cons_self) h)

/-- It holds in every state that one of the calls finds. -/
theorem holds_turns (hI : Invariant host I) {cs : List Call} {s u : State} {c : Call} (h : I s)
    (hm : (c, u) ∈ Session.turns host s cs) : I u := by
  induction cs generalizing s with
  | nil => cases hm
  | cons d cs ih =>
    rcases List.mem_cons.1 hm with he | hm
    · cases he
      exact h
    · exact ih (holds_call hI d h) hm

theorem holds_step_turns (hI : Invariant host I) {st : Step} {s u : State} {c : Call} (h : I s)
    (hm : (c, u) ∈ st.turns host s) : I u := by
  cases st with
  | call | threads => exact holds_turns hI h hm
  | commandLine args =>
    have hentered : I (Cli.entered args s) := by
      unfold Cli.entered
      split
      · exact hI.same h rfl rfl rfl id
      · exact h
    exact holds_turns hI hentered hm
  | _ => cases hm

/-- It holds in every state in which a session makes a call. -/
theorem holds_allTurns (hI : Invariant host I) {steps : List Step}
    (hc : ∀ st ∈ steps, ∀ s : State, I s → I { s with env := st.envAfter s.env, kept := st.cleared s.kept })
    {s u : State} {c : Call} (h : I s) (hm : (c, u) ∈ Session.allTurns host s steps) : I u := by
  induction steps generalizing s with
  | nil => cases hm
  | cons st steps ih =>
    rcases List.mem_append.1 hm with hm | hm
    · have hlog : I { s with log := [] } := hI.same h rfl rfl rfl id
      exact holds_step_turns hI hlog hm
    · exact ih (fun st hst => hc st (List.mem_cons_of_mem _ hst)) (holds_step hI (hc st List.mem_cons_self) h) hm

end

/-! ## What holds of kept values -/

theorem invariant_kept {I : Kept → Prop}
    (hI : ∀ {α : Type} {slot : Slot α}, slot.Lawful → ∀ {k₀ k a}, I k₀ → slot.find k₀ = none → I k →
      (∃ s, slot.StoresFrom host s a) → I (slot.store k a)) :
    Invariant host fun s => I s.kept where
  same h _ hk _ _ := by rwa [hk]
  found h _ _ := h
  stored hslot _ _ _ h₀ hs h hb := hI hslot h₀ hs h ⟨_, hb⟩

theorem invariant_staying (host : Host) (k : Kept) : Invariant host fun s => k.Stays s.kept := by
  refine invariant_kept fun {_ slot} hslot k₀ k' a h₀ hs h _ => hslot.store a h ?_
  -- what the slot had held at first it would still hold
  cases hk : slot.find k with
  | none => rfl
  | some b =>
    rw [hslot.find h₀ hk] at hs
    cases hs

theorem invariant_built (host : Host) : Invariant host fun s => s.kept.IsBuilt host :=
  invariant_kept fun _ _ _ _ _ _ h ⟨s, hb⟩ v hv => (hb.buildVersion_cases hv).elim (h v) fun he => ⟨s.env, he⟩

/-- A version that a session keeps is that of the program built in some environment. -/
theorem built_run (steps : List Step) {s : State} (h : s.kept.IsBuilt host) :
    (Session.run host s steps).2.kept.IsBuilt host := by
  refine holds_run (invariant_built host) (fun st _ u hu v hv => ?_) h
  exact hu v ((st.stays_cleared u.kept).buildVersion v hv)

/-! ## Values that stay -/

/-- What was looked up is kept. -/
theorem kept_of_once {slot : Slot α} (hslot : slot.Lawful) {f : Action α} {s s' : State} {a : α}
    (h : (once slot f).run s = (.ok a, s')) : slot.find s'.kept = some a := by
  cases hs : slot.find s.kept with
  | some b =>
    rw [run_once_some hs] at h
    cases h
    exact hs
  | none =>
    rw [run_once_none hs, keep, Action.run_bind] at h
    generalize f.run s = x at h
    obtain ⟨r, s₁⟩ := x
    cases r with
    | error e => cases h
    | ok b =>
      cases h
      exact hslot.find_store _ _

/-- Once the action has ended well it ends with the same value, and does nothing, wherever all that was kept
then is still kept. -/
def Recalls (f : Action α) : Prop :=
  ∀ s a s', f.run s = (.ok a, s') → ∀ t, s'.kept.Stays t.kept → f.run t = (.ok a, t)

namespace Recalls

theorem pure (a : α) : Recalls (pure a : Action α) := by
  intro s b s' h t _
  cases h
  rfl

theorem throw (e : Failure) : Recalls (throw e : Action α) := by
  intro s a s' h
  cases h

theorem once {slot : Slot α} (hslot : slot.Lawful) (f : Action α) : Recalls (once slot f) := by
  intro s a s' h t ht
  exact run_once_some (hslot.find ht (kept_of_once hslot h))

theorem map {f : Action α} (h : Recalls f) (c : α → β) : Recalls (c <$> f) := by
  intro s b s' hb t ht
  rw [Action.run_map] at hb ⊢
  obtain ⟨hresult, rfl⟩ := Prod.mk.inj hb
  obtain ⟨a, ha, rfl⟩ := exists_of_map_ok hresult
  rw [h s a _ (Prod.ext ha rfl) t ht]
  rfl

/-- The rest must not drop what the first action kept. -/
theorem bind {f : Action α} {F : α → Action β} (hf : Recalls f) (hF : ∀ a, Recalls (F a))
    (hstays : ∀ a (s : State), s.kept.Stays ((F a).run s).2.kept) : Recalls (f >>= F) := by
  intro s b s' hb t ht
  rw [Action.run_bind] at hb ⊢
  cases hx : f.run s with
  | mk r s₁ =>
    rw [hx] at hb
    cases r with
    | error e => cases hb
    | ok a =>
      have hfirst : s₁.kept.Stays s'.kept := by
        have hrest := hstays a s₁
        rw [show (F a).run s₁ = (.ok b, s') from hb] at hrest
        exact hrest
      rw [hf s a s₁ hx t (hfirst.trans ht)]
      exact hF a s₁ b s' hb t ht

end Recalls

end Whereabouts

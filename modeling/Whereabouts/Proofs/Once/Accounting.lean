import Mathlib.Data.Finset.Card
import Whereabouts.Proofs.Once.Tables

/-!
# Accounts of calls

`Sound` is what holds between the steps of a program without clearings, also of those inside invocations:
the tables and the history are in order. Calls nest less deep than the program allows, as every call inside
another asks for a key of its own. `once_accounts_for_every_call` says what follows for a whole run.
-/

namespace Whereabouts.Once

variable {ν : Type} {p : Program ν} {m m' : Memory ν} {name : String} {key : Key} {f : Function ν}

open Memory

/-! ## Programs -/

/-- The function and the key that a step calls. -/
def Step.site? : Step → Option (String × Key)
  | .call g args | .threads g args _ => (keyOf args).toOption.map (g, ·)
  | _ => none

def Step.isClearing : Step → Bool
  | .clear _ | .clearAll => true
  | _ => false

namespace Program

def invocations (p : Program ν) : List (Invocation ν) := p.functions.flatMap (·.2)

/-- What the steps inside invocations call. -/
def sites (p : Program ν) : List (String × Key) := (p.invocations.flatMap (·.during)).filterMap Step.site?

structure NeverClears (p : Program ν) : Prop where
  outside : ∀ s ∈ p.steps, s.isClearing = false
  inside : ∀ i ∈ p.invocations, ∀ s ∈ i.during, s.isClearing = false

theorem size_eq (p : Program ν) : p.size = (p.invocations.flatMap (·.during)).length + p.invocations.length := by
  have hfold : ∀ (l : List (Invocation ν)) n, l.foldl (fun n i => n + i.during.length + 1) n =
      n + (l.flatMap (·.during)).length + l.length := by
    intro l
    induction l with
    | nil => intro n; rfl
    | cons i l ih =>
      intro n
      rw [List.foldl_cons, ih, List.flatMap_cons, List.length_append, List.length_cons]
      omega
  exact (hfold p.invocations 0).trans (by rw [Nat.zero_add])

theorem length_sites_le (p : Program ν) : p.sites.length + p.invocations.length ≤ p.size := by
  have hsites : p.sites.length ≤ (p.invocations.flatMap (·.during)).length := List.length_filterMap_le _ _
  rw [size_eq]
  omega

end Program

/-! ## Between steps -/

/-- The invocations `o` are going on, the latest first, and all that happened is in order. -/
structure Underway (p : Program ν) (o : List (String × Key)) (m : Memory ν) : Prop where
  tables : Tables p m
  orderly : Orderly m.history
  goingOn : running m.history = o
  locks : List.Forall₂ (fun l x => m.lock? x = some l) m.held o
  /-- All but the first of them come from steps inside invocations. -/
  listed : ∀ x ∈ o.dropLast, x ∈ p.sites
  scripted : o ≠ [] → p.invocations ≠ []

structure Sound (p : Program ν) (o : List (String × Key)) (m : Memory ν) : Prop extends Underway p o m where
  atRest : AtRest m.history

section
variable {o : List (String × Key)} {l : Nat} {held : List Nat} {before : List (Event ν)}

theorem Sound.called (h : Sound p o m) (hn : (name, key) ∉ o) : Underway p o (m.note (.called name key)) where
  tables := h.tables.note (fun _ => rfl) fun _ => rfl
  orderly := .called h.orderly h.atRest (h.goingOn ▸ hn)
  goingOn := h.goingOn
  locks := h.locks
  listed := h.listed
  scripted := h.scripted

theorem LockGot.underway {x : String × Key} (hg : LockGot p m x l m') (h : Underway p o m) : Underway p o m' where
  tables := hg.tables
  orderly := hg.history ▸ h.orderly
  goingOn := hg.history ▸ h.goingOn
  locks := by
    rw [hg.held]
    exact h.locks.imp fun _ _ hl => hg.keeps _ _ hl
  listed := h.listed
  scripted := h.scripted

/-- A lock that is held is the lock of a key that is being computed. -/
theorem Underway.mem_of_held (h : Underway p o m) {x : String × Key} (hx : m.lock? x = some l) (hl : l ∈ m.held) :
    x ∈ o := by
  obtain ⟨i, hi, rfl⟩ := List.mem_iff_getElem.1 hl
  have hio : i < o.length := h.locks.length_eq ▸ hi
  have hlock := List.forall₂_iff_get.1 h.locks |>.2 i hi hio
  rw [h.tables.apart.distinct x _ _ hx hlock]
  exact List.get_mem ..

theorem Underway.started (h : Underway p o m) (hh : m.history = .called name key :: before)
    (hv : (valuesIn name before).lookup key = none) (hl : m.lock? (name, key) = some l)
    (hs : o = [] ∨ (name, key) ∈ p.sites) (hp : p.invocations ≠ []) :
    Sound p ((name, key) :: o) { (m.update name invoked).note (.started name key) with held := l :: m.held } where
  tables := (h.tables.started name key).held _
  orderly := by
    have ho := h.orderly
    show Orderly (.started name key :: m.history)
    rw [hh] at ho ⊢
    exact .started ho hv
  goingOn := congrArg _ h.goingOn
  locks := by
    have hsame : ∀ x, (m.update name invoked).lock? x = m.lock? x := lock?_update (c := invoked) fun _ => rfl
    exact .cons ((hsame _).trans hl) (h.locks.imp fun _ x hx => (hsame x).trans hx)
  listed := by
    cases o with
    | nil => simp
    | cons y o =>
      have hown := hs.resolve_left (List.cons_ne_nil y o)
      intro x hx
      rw [List.dropLast_cons_cons] at hx
      rcases List.mem_cons.1 hx with rfl | hx
      · exact hown
      · exact h.listed x hx
  scripted _ := hp
  atRest := trivial

theorem Sound.ended (h : Sound p ((name, key) :: o) m) (m' : Memory ν) (hh : m.held = l :: m'.held)
    {outcome : Except Exception (Value ν)} (ht : Tables p (m'.note (.ended name key outcome)))
    (hl : ∀ x, m'.lock? x = m.lock? x) (hhistory : m'.history = m.history) :
    Underway p o (m'.note (.ended name key outcome)) where
  tables := ht
  orderly := .ended (hhistory ▸ h.orderly) (hhistory ▸ h.atRest) (hhistory ▸ h.goingOn)
  goingOn := by
    show (running m'.history).tail = o
    rw [hhistory, h.goingOn]
    rfl
  locks := by
    have hlocks := h.locks
    rw [hh] at hlocks
    exact (List.forall₂_cons.1 hlocks).2.imp fun _ x hx => (hl x).trans hx
  listed x hx := by
    cases o with
    | nil => cases hx
    | cons y o => exact h.listed x (List.mem_cons_of_mem _ hx)
  scripted _ := h.scripted (List.cons_ne_nil _ _)

theorem Underway.concluded (h : Underway p o m) {outcome : Except Exception (Value ν)}
    (hh : m.history = .ended name key outcome :: before) :
    Sound p o (m.note (.answered name key (outcome.mapError .raised))) where
  tables := h.tables.note (fun _ => rfl) fun _ => rfl
  orderly := by
    have ho := h.orderly
    show Orderly (.answered name key _ :: m.history)
    rw [hh] at ho ⊢
    exact .concluded ho
  goingOn := h.goingOn
  locks := h.locks
  listed := h.listed
  scripted := h.scripted
  atRest := trivial

theorem Underway.served (h : Underway p o m) (hh : m.history = .called name key :: before) {v : Value ν}
    (hv : (valuesIn name before).lookup key = some v) : Sound p o (m.note (.answered name key (.ok v))) where
  tables := h.tables.note (fun _ => rfl) fun _ => rfl
  orderly := by
    have ho := h.orderly
    show Orderly (.answered name key _ :: m.history)
    rw [hh] at ho ⊢
    exact .served ho hv
  goingOn := h.goingOn
  locks := h.locks
  listed := h.listed
  scripted := h.scripted
  atRest := trivial

theorem Sound.length_lt (h : Sound p o m) : o.length < p.depth := by
  have hbound := p.length_sites_le
  have hdepth : p.size < p.depth := by
    unfold Program.depth
    exact Nat.lt_of_lt_of_le (Nat.lt_succ_self _) (Nat.le_mul_self _)
  rcases List.eq_nil_or_concat o with rfl | ⟨o', x, rfl⟩
  · exact Nat.lt_of_le_of_lt (Nat.zero_le _) hdepth
  · have hnodup := h.orderly.running_fresh.1
    have hlisted := h.listed
    have hscripted := List.length_pos_iff.2 (h.scripted (by simp))
    rw [h.goingOn, List.concat_eq_append] at hnodup
    rw [List.concat_eq_append, List.dropLast_concat] at hlisted
    -- each but the first was called from another step inside an invocation
    have hle : o'.length ≤ p.sites.length := (hnodup.of_append_left).length_le_of_subset hlisted
    rw [List.length_concat]
    omega

end

/-! ## Calls -/

/-- The call leaves things in order if none of the calls inside it asks for a key that is being computed. -/
def Keeps (p : Program ν) (o : List (String × Key)) (c : Caller ν) : Prop :=
  ∀ name args m, Sound p o m → (∀ key, keyOf args = .ok key → o = [] ∨ (name, key) ∈ p.sites) →
    NeverReenters (c name args m).2.history → Sound p o (c name args m).2

section
variable {o : List (String × Key)} {c : Caller ν}

theorem sound_repeatCall {c : Memory ν → Except Problem (Value ν) × Memory ν}
    (hc : ∀ m, Sound p o m → NeverReenters (c m).2.history → Sound p o (c m).2) (hr : ∀ m, Restores m (c m).2)
    (n : Nat) (h : Sound p o m) (hn : NeverReenters (repeatCall c n m).2.history) :
    Sound p o (repeatCall c n m).2 := by
  induction n generalizing m with
  | zero => exact h
  | succ n ih => exact ih (hc m h (hn.of_suffix (Restores.steady.repeatCall hr n (c m).2).history)) hn

theorem sound_runStep (hc : Keeps p o c) (hr : ∀ name args m, Restores m (c name args m).2) {s : Step}
    (hs : s.isClearing = false) (hsite : ∀ x, s.site? = some x → o = [] ∨ x ∈ p.sites) (h : Sound p o m)
    (hn : NeverReenters (runStep c m s).2.history) : Sound p o (runStep c m s).2 := by
  have hkey : ∀ {g : String} {args : List Argument}, s.site? = (keyOf args).toOption.map (g, ·) →
      ∀ key, keyOf args = .ok key → o = [] ∨ (g, key) ∈ p.sites := by
    intro g args he key hk
    exact hsite (g, key) (by rw [he, hk]; rfl)
  cases s with
  | call g args => exact hc g args m h (hkey rfl) hn
  | threads g args n => exact sound_repeatCall (fun m hm => hc g args m hm (hkey rfl)) (hr g args) n h hn
  | clear | clearAll => cases hs
  | name => exact h

theorem sound_runSteps (hc : Keeps p o c) (hr : ∀ name args m, Restores m (c name args m).2) {ss : List Step}
    (hs : ∀ s ∈ ss, s.isClearing = false) (hsite : ∀ s ∈ ss, ∀ x, s.site? = some x → o = [] ∨ x ∈ p.sites)
    (h : Sound p o m) (hn : NeverReenters (runSteps c ss m).2.history) : Sound p o (runSteps c ss m).2 := by
  induction ss generalizing m with
  | nil => exact h
  | cons s ss ih =>
    have hrest := (Restores.steady.runSteps hr ss (runStep c m s).2).history
    have hstep := sound_runStep hc hr (hs s List.mem_cons_self) (hsite s List.mem_cons_self) h (hn.of_suffix hrest)
    exact ih (fun s hm => hs s (List.mem_cons_of_mem _ hm)) (fun s hm => hsite s (List.mem_cons_of_mem _ hm)) hstep hn

/-- An invocation ends in order, and what its call ends with is what it ended with. -/
structure Ends (p : Program ν) (o : List (String × Key)) (name : String) (key : Key)
    (x : Except Problem (Value ν) × Memory ν) : Prop where
  underway : Underway p o x.2
  answer : ∃ outcome before, x.2.history = .ended name key outcome :: before ∧ x.1 = outcome.mapError .raised

theorem ends_invoke (hp : p.NeverClears) (hc : Keeps p ((name, key) :: o) c)
    (hr : ∀ name args m, Restores m (c name args m).2) {i : Invocation ν} (hi : i ∈ p.invocations) {l : Nat}
    {before : List (Event ν)} (h : Underway p o m) (hh : m.history = .called name key :: before)
    (hv : (valuesIn name before).lookup key = none) (hl : m.lock? (name, key) = some l)
    (hs : o = [] ∨ (name, key) ∈ p.sites) (hn : NeverReenters (invoke c name key l i m).2.history) :
    Ends p o name key (invoke c name key l i m) := by
  have hbegun := h.started hh hv hl hs (List.ne_nil_of_mem hi)
  unfold invoke at hn ⊢
  dsimp only at hn ⊢
  generalize hm :
    ({ (m.update name Memory.invoked).note (.started name key) with held := l :: m.held } : Memory ν) = begun
    at hbegun
  have hmid : runSteps c i.during { (m.update name Memory.invoked).note (.started name key) with
    held := l :: ((m.update name Memory.invoked).note (.started name key)).held } = runSteps c i.during begun := by
    rw [← hm]
    rfl
  rw [hmid] at hn ⊢
  have hheld := (Restores.steady.runSteps hr i.during begun).held
  have hinside : NeverReenters (runSteps c i.during begun).2.history := by
    cases ho : i.outcome with
    | error e =>
      rw [ho] at hn
      exact hn.of_suffix (List.suffix_cons _ _)
    | ok v =>
      rw [ho] at hn
      exact hn.of_suffix (List.suffix_cons _ _)
  have hsites : ∀ s ∈ i.during, ∀ x, s.site? = some x → (name, key) :: o = [] ∨ x ∈ p.sites := by
    intro s hm x hx
    exact .inr (List.mem_filterMap.2 ⟨s, List.mem_flatMap.2 ⟨i, hi, hm⟩, hx⟩)
  have hended := sound_runSteps hc hr (hp.inside i hi) hsites hbegun hinside
  generalize runSteps c i.during begun = x at hended hheld ⊢
  have hlet : x.2.held = l :: x.2.held.erase l := by
    rw [hheld, ← hm]
    exact congrArg _ (List.erase_cons_head ..).symm
  cases i.outcome with
  | error e =>
    refine ⟨hended.ended { x.2 with held := x.2.held.erase l } hlet ?_ (fun _ => rfl) rfl, _, _, rfl, rfl⟩
    exact (hended.tables.held _).note (fun _ => rfl) fun _ => rfl
  | ok v =>
    refine ⟨hended.ended ({ x.2 with held := x.2.held.erase l }.update name _) hlet ?_ ?_ rfl, _, _, rfl, rfl⟩
    · exact (hended.tables.held _).valued name key _
    · exact lock?_update (c := Memory.valued key _) fun _ => rfl

theorem nextInvocation_mem (hs : f.script ≠ []) : ∃ i ∈ f.script, nextInvocation f = some i := by
  have hlast : f.script.getLast? = some (f.script.getLast hs) := List.getLast?_eq_some_getLast hs
  unfold nextInvocation
  cases hi : f.script[f.invocations]? with
  | none => exact ⟨_, List.getLast_mem hs, hlast⟩
  | some i => exact ⟨i, List.mem_of_getElem? hi, rfl⟩

theorem sound_answerCall (hp : p.NeverClears) (hscripts : ∀ f ∈ p.functions, f.2 ≠ [])
    (hc : Keeps p ((name, key) :: o) c) (hr : ∀ name args m, Restores m (c name args m).2)
    (hf : m.functions.lookup name = some f) (h : Sound p o m) (hs : o = [] ∨ (name, key) ∈ p.sites)
    {x : Except Problem (Value ν) × Memory ν} (hx : answerCall c name key f (m.note (.called name key)) = x)
    (hn : NeverReenters x.2.history) : Sound p o (x.2.note (.answered name key x.1)) := by
  have hcalled : NeverReenters (.called name key :: m.history) :=
    hn.of_suffix (hx ▸ (Restores.answerCall hr name key f (m.note (.called name key))).history)
  have hout : (name, key) ∉ o := h.goingOn ▸ (neverReenters_cons.1 hcalled).1 _ rfl
  have hu := h.called hout
  have hvalues : f.values = valuesIn name m.history := h.tables.values _ (mem_of_lookup hf)
  have hgot := lockGot_lockOf (m := m.note (.called name key)) hu.tables hf key
  unfold answerCall at hx
  cases hv : f.values.lookup key with
  | some v =>
    rw [hv] at hx
    subst hx
    exact hu.served rfl (hvalues ▸ hv)
  | none =>
    rw [hv] at hx
    dsimp only at hx
    generalize (m.note (.called name key)).lockOf name f key = got at hgot hx
    have hugot := hgot.underway hu
    split at hx
    · next hheld =>
      -- the lock of the key is held by nothing but an invocation for the key
      exact absurd (hugot.mem_of_held hgot.own hheld) hout
    · have hmem := h.tables.script_mem hf
      obtain ⟨i, hi, hnext⟩ := nextInvocation_mem (hscripts _ hmem)
      rw [hnext] at hx
      dsimp only at hx
      have hip : i ∈ p.invocations := List.mem_flatMap.2 ⟨_, hmem, hi⟩
      subst hx
      obtain ⟨hended, outcome, before, hhistory, hanswer⟩ :=
        ends_invoke hp hc hr hip hugot hgot.history (hvalues ▸ hv) hgot.own hs hn
      rw [hanswer]
      exact hended.concluded hhistory

theorem keeps_call (hp : p.NeverClears) (hscripts : ∀ f ∈ p.functions, f.2 ≠ []) {d : Nat}
    (hd : p.depth ≤ d + o.length) : Keeps p o (call d) := by
  induction d generalizing o with
  | zero =>
    -- the invocations that are going on are fewer than the depth
    intro name args m h
    exact absurd h.length_lt (by omega)
  | succ d ih =>
    intro name args m h hs hn
    have hinside : ∀ key, Keeps p ((name, key) :: o) (call d) := fun key => ih (by rw [List.length_cons]; omega)
    unfold call keyed at hn ⊢
    split at hn
    · exact h
    · exact h
    · next key f hk hf =>
      exact sound_answerCall hp hscripts (hinside key) (Restores.call d) hf h (hs key hk) rfl
        (hn.of_suffix (List.suffix_cons _ _))

end

/-! ## Runs -/

theorem sound_start (p : Program ν) : Sound p [] p.start where
  tables := {
    scripts := by
      unfold Program.start
      rw [List.map_map]
      exact List.map_id _
    values := fun x hx => by
      obtain ⟨f, -, rfl⟩ := List.mem_map.1 hx
      rfl
    invocations := fun x hx => by
      obtain ⟨f, -, rfl⟩ := List.mem_map.1 hx
      rfl
    apart := by
      have hnone : ∀ x l, p.start.lock? x ≠ some l := by
        intro x l hl
        obtain ⟨f, hf, hl⟩ := Option.bind_eq_some_iff.1 hl
        obtain ⟨g, -, hg⟩ := List.mem_map.1 (mem_of_lookup hf)
        obtain rfl : _ = f := congrArg Prod.snd hg
        cases hl
      exact ⟨fun x y l hx => absurd hx (hnone x l), fun x l hx => absurd hx (hnone x l)⟩ }
  orderly := .nil
  goingOn := rfl
  locks := .nil
  listed _ hx := by cases hx
  scripted h := absurd rfl h
  atRest := trivial

theorem sound_finish (hp : p.NeverClears) (hscripts : ∀ f ∈ p.functions, f.2 ≠ [])
    (hn : NeverReenters p.finish.history) : Sound p [] p.finish :=
  sound_runSteps (keeps_call hp hscripts (Nat.le_add_right _ _)) (Restores.call _) hp.outside
    (fun _ _ _ _ => .inl rfl) (sound_start p) hn

/-- What a run tells of its calls; the events of a history are in the order opposite to time. -/
structure Accounted (m : Memory ν) : Prop where
  /-- For each key of a function at most one invocation ends with a value. -/
  once : ∀ f, ((valuesIn f m.history).map (·.1)).Nodup
  /-- After that its calls are answered with the value, and invoke nothing. -/
  kept : ∀ f key v later before, m.history = later ++ .ended f key (.ok v) :: before →
    ∀ e ∈ later, e.Concerns f key → e = .called f key ∨ e = .answered f key (.ok v)
  /-- An exception reaches the caller as it is. -/
  raised : ∀ f key x later before, m.history = later ++ .ended f key (.error x) :: before →
    ∃ later', later = later' ++ [.answered f key (.error (.raised x))]
  /-- The next call after an exception invokes the function again. -/
  retried : ∀ f key x later between before,
    m.history = later ++ .called f key :: (between ++ .ended f key (.error x) :: before) → .called f key ∉ between →
    ∃ later', later = later' ++ [.started f key]
  /-- The counter counts the keys with a value and the invocations that raised. -/
  counted : ∀ x ∈ m.functions, x.2.values = valuesIn x.1 m.history ∧
    x.2.invocations = (x.2.values.map (·.1)).toFinset.card + m.history.countP (Event.isRaise x.1)

theorem Sound.accounted (h : Sound p [] m) : Accounted m where
  once := h.orderly.nodup_valuesIn
  kept f key v later before hh e he hc := by
    have ho := h.orderly
    rw [hh] at ho
    exact ho.after_value he hc
  raised f key x later before hh := by
    have ho := h.orderly
    have hr := h.atRest
    rw [hh] at ho hr
    exact ho.after_raise hr
  retried f key x later between before hh hb := by
    have ho := h.orderly
    have hr := h.atRest
    rw [hh] at ho hr
    exact ho.after_call hr (ho.of_append.tail.vacant_after_raise hb).2
  counted x hx := by
    have hvalues := h.tables.values x hx
    have hcount := h.orderly.count x.1
    rw [h.goingOn, List.countP_nil, Nat.add_zero] at hcount
    rw [h.tables.invocations x hx, hcount, hvalues, List.toFinset_card_of_nodup (h.orderly.nodup_valuesIn x.1),
      List.length_map]
    exact ⟨rfl, rfl⟩

theorem history_call (depth : Nat) {args : List Argument} (hk : keyOf args = .ok key)
    (hf : m.functions.lookup name = some f) : ∃ inside, (call depth name args m).2.history =
      .answered name key (call depth name args m).1 :: (inside ++ .called name key :: m.history) := by
  have hkeyed : ∀ answer : String → Key → Function ν → Memory ν → Except Problem (Value ν) × Memory ν,
      (∀ name key f m, Restores m (answer name key f m).2) → ∃ inside, (keyed answer name args m).2.history =
        .answered name key (keyed answer name args m).1 :: (inside ++ .called name key :: m.history) := by
    intro answer ha
    obtain ⟨inside, hinside⟩ := (ha name key f (m.note (.called name key))).history
    refine ⟨inside, ?_⟩
    unfold keyed
    rw [hk, hf]
    exact congrArg _ hinside.symm
  cases depth with
  | zero => exact hkeyed _ fun _ _ _ m => .refl m
  | succ depth => exact hkeyed _ (Restores.answerCall (Restores.call depth))

theorem call_of_unhashable (depth : Nat) (name : String) {args : List Argument} {typeName : String}
    (hk : keyOf args = .error typeName) (m : Memory ν) :
    call depth name args m = (.error (.unhashable typeName), m) := by
  cases depth with
  | zero => unfold call keyed; rw [hk]
  | succ depth => unfold call keyed; rw [hk]

/-- However the invocations end and whatever they call, a run without clearings in which no key is asked for while it
is being computed accounts for all of its calls: those with a key are in the history, with what they were
answered with, and the others leave no trace. -/
theorem once_accounts_for_every_call (hp : p.NeverClears) (hscripts : ∀ f ∈ p.functions, f.2 ≠ [])
    (hn : NeverReenters p.finish.history) :
    Accounted p.finish ∧
      ∀ (depth : Nat) (name : String) (args : List Argument) (m : Memory ν), match keyOf args with
        | .error typeName => call depth name args m = (.error (.unhashable typeName), m)
        | .ok key => ∀ f, m.functions.lookup name = some f → ∃ inside, (call depth name args m).2.history =
            .answered name key (call depth name args m).1 :: (inside ++ .called name key :: m.history) := by
  refine ⟨(sound_finish hp hscripts hn).accounted, fun depth name args m => ?_⟩
  cases hk : keyOf args with
  | error typeName => exact call_of_unhashable depth name hk m
  | ok key => exact fun f hf => history_call depth hk hf

/-- The first invocation of `outer` fails with a missing key, after a nested call that fails; the next
call makes both again. -/
def outerRetried : Program Nat where
  functions := [
    ("outer", [
      ⟨[.call "inner" [.text "a"]], .error ⟨.key, "missing"⟩⟩,
      ⟨[.call "inner" [.text "b"], .call "inner" [.text "a"]], .ok 1⟩]),
    ("inner", [⟨[], .error ⟨.value, "first"⟩⟩, ⟨[], .ok 2⟩])]
  steps := [.call "outer" [], .threads "outer" [] 2, .call "outer" [.list []]]

theorem once_accounts_for_outerRetried :
    outerRetried.NeverClears ∧ NeverReenters outerRetried.finish.history ∧ Accounted outerRetried.finish ∧
      outerRetried.finish.calls = [("outer", 2), ("inner", 3)] := by
  have hclear : outerRetried.NeverClears := ⟨by decide, by decide⟩
  have hreenter : NeverReenters outerRetried.finish.history := by decide +kernel
  obtain ⟨haccounted, -⟩ := once_accounts_for_every_call hclear (by decide) hreenter
  exact ⟨hclear, hreenter, haccounted, by decide +kernel⟩

end Whereabouts.Once

import Whereabouts.Proofs.Once.Tables

/-!
# Clearings

A clearing forgets what is kept, but an invocation that is going on keeps its value when it ends. `standing` tells
from the events alone which value stands for a key, and when the invocation that found it began. The tables and the
answers of every run agree with it (`truthful_run`), whatever is nested or cleared on the way. So a value from before
a clearing is returned after it in one case only (`returned_value_predates_clearing_iff`).
-/

namespace Whereabouts.Once

variable {ν : Type} {f name : String} {key : Key} {h : List (Event ν)}

/-! ## What stands for a key -/

/-- The invocations that began and did not end yet, the latest first, each with the number of events before it. -/
def openings : List (Event ν) → List (Nat × String × Key)
  | [] => []
  | .started f key :: h => (h.length, f, key) :: openings h
  | .ended .. :: h => (openings h).tail
  | _ :: h => openings h

/-- The value that stands for a key of a function, with the number of events before its invocation began. -/
def standing (f : String) (key : Key) : List (Event ν) → Option (Nat × Value ν)
  | [] => none
  | .ended g k (.ok v) :: h =>
    if g = f ∧ k = key then (openings h).head?.map fun o => (o.1, v) else standing f key h
  | .cleared g :: h => if g = f then none else standing f key h
  | _ :: h => standing f key h

/-- Invocations end in the order opposite to that in which they began, and what a call returns stands
for its key by then. -/
def Lawful : List (Event ν) → Prop
  | [] => True
  | .ended f key _ :: h => (∃ t rest, openings h = (t, f, key) :: rest) ∧ Lawful h
  | .answered f key (.ok v) :: h => (∃ t, standing f key h = some (t, v)) ∧ Lawful h
  | _ :: h => Lawful h

theorem Lawful.tail {e : Event ν} (hl : Lawful (e :: h)) : Lawful h := by
  cases e with
  | ended => exact hl.2
  | answered f key r =>
    cases r with
    | ok v => exact hl.2
    | error p => exact hl
  | _ => exact hl

theorem Lawful.of_suffix {h' : List (Event ν)} (hl : Lawful h) (hs : h' <:+ h) : Lawful h' := by
  obtain ⟨later, rfl⟩ := hs
  induction later with
  | nil => exact hl
  | cons e later ih => exact ih hl.tail

theorem lt_of_mem_openings {x : Nat × String × Key} (hx : x ∈ openings h) : x.1 < h.length := by
  induction h with
  | nil => cases hx
  | cons e h ih =>
    rw [List.length_cons]
    cases e with
    | started g k =>
      rcases List.mem_cons.1 hx with rfl | hx
      · exact Nat.lt_succ_self _
      · exact Nat.lt_succ_of_lt (ih hx)
    | ended => exact Nat.lt_succ_of_lt (ih (List.mem_of_mem_tail hx))
    | _ => exact Nat.lt_succ_of_lt (ih hx)

/-- An invocation that began before some events was going on before them if it is going on after them. -/
theorem mem_openings_of_append {later before : List (Event ν)} {x : Nat × String × Key}
    (hx : x ∈ openings (later ++ before)) (ht : x.1 < before.length) : x ∈ openings before := by
  induction later with
  | nil => exact hx
  | cons e later ih =>
    cases e with
    | started g k =>
      rcases List.mem_cons.1 hx with rfl | hx
      · rw [List.append_eq, List.length_append] at ht
        omega
      · exact ih hx
    | ended => exact ih (List.mem_of_mem_tail hx)
    | _ => exact ih hx

/-- What stands for a key after a clearing was found by an invocation that went on after it. -/
theorem mem_openings_of_standing {later before : List (Event ν)} {t : Nat} {v : Value ν}
    (hl : Lawful (later ++ .cleared f :: before)) (hs : standing f key (later ++ .cleared f :: before) = some (t, v)) :
    ∃ mid, (t, f, key) ∈ openings (mid ++ .cleared f :: before) := by
  induction later with
  | nil => simp [standing] at hs
  | cons e later ih =>
    rw [List.cons_append] at hl hs
    cases e with
    | ended g k outcome =>
      cases outcome with
      | error x => exact ih hl.tail hs
      | ok w =>
        by_cases hk : g = f ∧ k = key
        · obtain ⟨rfl, rfl⟩ := hk
          obtain ⟨⟨t', rest, ho⟩, -⟩ := hl
          simp [standing, ho] at hs
          exact ⟨later, by simp [ho, hs.1]⟩
        · simp only [standing, hk, if_false] at hs
          exact ih hl.tail hs
    | cleared g =>
      by_cases hg : g = f
      · simp [standing, hg] at hs
      · simp only [standing, hg, if_false] at hs
        exact ih hl.tail hs
    | _ => exact ih hl.tail hs

/-! ## What the tables hold -/

structure Truthful (m : Memory ν) : Prop where
  lawful : Lawful m.history
  values : ∀ x ∈ m.functions, ∀ key, x.2.values.lookup key = (standing x.1 key m.history).map (·.2)

/-- What began since has ended, and the tables and the answers stay true. -/
structure Returns (m m' : Memory ν) : Prop where
  openings : openings m'.history = openings m.history
  truthful : Truthful m → Truthful m'

variable {m m' m'' : Memory ν} {c : Caller ν}

open Memory

theorem Truthful.note (ht : Truthful m) {e : Event ν} (hl : Lawful (e :: m.history))
    (hs : ∀ f key, standing f key (e :: m.history) = standing f key m.history) : Truthful (m.note e) where
  lawful := hl
  values x hx key := by
    rw [ht.values x hx key]
    exact congrArg _ (hs x.1 key).symm

theorem openings_cleared (names : List String) : openings (names.map .cleared ++ h) = openings h := by
  induction names with
  | nil => rfl
  | cons g names ih => exact ih

theorem Lawful.cleared (hl : Lawful h) (names : List String) : Lawful (names.map .cleared ++ h) := by
  induction names with
  | nil => exact hl
  | cons g names ih => exact ih

theorem standing_cleared (names : List String) (f : String) (key : Key) :
    standing f key (names.map .cleared ++ h) = if f ∈ names then none else standing f key h := by
  induction names with
  | nil => simp
  | cons g names ih =>
    rw [List.map_cons, List.cons_append, standing, ih]
    by_cases hg : g = f
    · simp [hg]
    · simp [hg, Ne.symm hg]

namespace Returns

theorem refl (m : Memory ν) : Returns m m := ⟨rfl, id⟩

theorem trans (h : Returns m m') (h' : Returns m' m'') : Returns m m'' :=
  ⟨h'.openings.trans h.openings, fun ht => h'.truthful (h.truthful ht)⟩

theorem called (m : Memory ν) (name : String) (key : Key) : Returns m (m.note (.called name key)) :=
  ⟨rfl, fun ht => ht.note ht.lawful fun _ _ => rfl⟩

theorem lockOf (m : Memory ν) (name : String) (f : Function ν) (key : Key) : Returns m (m.lockOf name f key).2 := by
  unfold Memory.lockOf
  split
  · exact refl m
  · refine ⟨rfl, fun ht => ⟨ht.lawful, ?_⟩⟩
    exact forall_mem_update (fun x hx _ => ht.values x hx) fun x hx _ => ht.values x hx

theorem clear (m : Memory ν) (name : String) : Returns m (m.clear name) := by
  refine ⟨rfl, fun ht => ⟨ht.lawful, forall_mem_update (fun x _ hn key => ?_) fun x hx hn key => ?_⟩⟩
  · show none = Option.map _ (standing x.1 key (.cleared name :: m.history))
    simp [standing, hn]
  · show x.2.values.lookup key = Option.map _ (standing x.1 key (.cleared name :: m.history))
    simp [standing, Ne.symm hn, ht.values x hx key]

theorem clearAll (m : Memory ν) : Returns m m.clearAll := by
  have hnames : m.clearAll.history = (m.functions.map (·.1)).reverse.map .cleared ++ m.history := by
    simp [Memory.clearAll, List.map_reverse, Function.comp_def]
  generalize hn : (m.functions.map (·.1)).reverse = names at hnames
  refine ⟨by rw [hnames, openings_cleared], fun ht => ⟨?_, fun x hx key => ?_⟩⟩
  · rw [hnames]
    exact ht.lawful.cleared names
  · obtain ⟨y, hy, rfl⟩ := List.mem_map.1 hx
    have hmem : y.1 ∈ names := by
      rw [← hn]
      simp only [List.mem_reverse, List.mem_map]
      exact ⟨y, hy, rfl⟩
    rw [hnames, standing_cleared, if_pos hmem]
    rfl

theorem steady : Steady (@Returns ν) where
  refl := refl
  trans := trans
  clear := clear
  clearAll := clearAll

end Returns

/-! ## Calls -/

/-- What a call comes to: if it is a value, the value stands for the key. -/
structure Comes (name : String) (key : Key) (m : Memory ν) (x : Except Problem (Value ν) × Memory ν) : Prop where
  returns : Returns m x.2
  stands : Truthful m → ∀ v, x.1 = .ok v → ∃ t, standing name key x.2.history = some (t, v)

theorem comes_of_error {p : Problem} (hr : Returns m m') : Comes name key m (.error p, m') := ⟨hr, nofun⟩

theorem comes_invoke (hc : ∀ name args m, Returns m (c name args m).2) (name : String) (key : Key) (l : Nat)
    (i : Invocation ν) (m : Memory ν) : Comes name key m (invoke c name key l i m) := by
  unfold invoke
  dsimp only
  generalize hbegun : ({ (m.update name invoked).note (.started name key) with
    held := l :: ((m.update name invoked).note (.started name key)).held } : Memory ν) = begun
  have hopened : openings begun.history = (m.history.length, name, key) :: openings m.history := by
    rw [← hbegun]
    rfl
  have hstarted : Truthful m → Truthful begun := by
    intro ht
    rw [← hbegun]
    exact ⟨ht.lawful, forall_mem_update (fun x hx _ => ht.values x hx) fun x hx _ => ht.values x hx⟩
  obtain ⟨hinside, htruthful⟩ := Returns.steady.runSteps hc i.during begun
  generalize runSteps c i.during begun = x at hinside htruthful
  rw [hopened] at hinside
  cases i.outcome with
  | error e =>
    refine comes_of_error ⟨congrArg List.tail hinside, fun ht => ?_⟩
    have hx := htruthful (hstarted ht)
    exact ⟨⟨⟨_, _, hinside⟩, hx.lawful⟩, hx.values⟩
  | ok w =>
    dsimp only
    generalize (if i.during.isEmpty then Value.plain w else .traced w x.1) = v
    have hstands : standing name key (.ended name key (.ok v) :: x.2.history) = some (m.history.length, v) := by
      simp [standing, hinside]
    refine ⟨⟨congrArg List.tail hinside, fun ht => ?_⟩, fun _ v' hv => ?_⟩
    · have hx := htruthful (hstarted ht)
      refine ⟨⟨⟨_, _, hinside⟩, hx.lawful⟩, forall_mem_update (fun y hy hn k => ?_) fun y hy hn k => ?_⟩
      · show ((key, v) :: y.2.values).lookup k =
          (standing y.1 k (.ended name key (.ok v) :: x.2.history)).map (·.2)
        by_cases hk : key = k
        · subst hk
          rw [hn, hstands]
          simp
        · have hk' : (k == key) = false := by simpa using Ne.symm hk
          simp [standing, hk, hk', List.lookup_cons, hx.values y hy k]
      · show y.2.values.lookup k = (standing y.1 k (.ended name key (.ok v) :: x.2.history)).map (·.2)
        simp [standing, Ne.symm hn, hx.values y hy k]
    · cases hv
      exact ⟨_, hstands⟩

theorem comes_answerCall (hc : ∀ name args m, Returns m (c name args m).2) {g : Function ν}
    (hg : m.functions.lookup name = some g) (key : Key) : Comes name key m (answerCall c name key g m) := by
  unfold answerCall
  cases hv : g.values.lookup key with
  | some v =>
    refine ⟨.refl m, fun ht v' hv' => ?_⟩
    cases hv'
    have hkept := ht.values _ (mem_of_lookup hg) key
    rw [hv] at hkept
    obtain ⟨⟨t, w⟩, hs, rfl⟩ := Option.map_eq_some_iff.1 hkept.symm
    exact ⟨t, hs⟩
  | none =>
    have hlock := Returns.lockOf m name g key
    dsimp only
    split
    · exact comes_of_error hlock
    · split
      · exact comes_of_error hlock
      · next i _ =>
        obtain ⟨hreturns, hstands⟩ := comes_invoke hc name key (m.lockOf name g key).1 i (m.lockOf name g key).2
        exact ⟨hlock.trans hreturns, fun ht => hstands (hlock.truthful ht)⟩

theorem returns_keyed {answer : String → Key → Function ν → Memory ν → Except Problem (Value ν) × Memory ν}
    (ha : ∀ name key g m, m.functions.lookup name = some g → Comes name key m (answer name key g m))
    (name : String) (args : List Argument) (m : Memory ν) : Returns m (keyed answer name args m).2 := by
  unfold keyed
  split
  · exact .refl m
  · exact .refl m
  · next key g _ hg =>
    obtain ⟨hreturns, hstands⟩ := ha name key g (m.note (.called name key)) hg
    have hcalled := Returns.called m name key
    refine ⟨hreturns.openings.trans hcalled.openings, fun ht => ?_⟩
    have hbegun := hcalled.truthful ht
    have hended := hreturns.truthful hbegun
    refine hended.note ?_ fun _ _ => rfl
    cases hr : (answer name key g (m.note (.called name key))).1 with
    | ok v => exact ⟨hstands hbegun v hr, hended.lawful⟩
    | error p => exact hended.lawful

theorem returns_call (depth : Nat) (name : String) (args : List Argument) (m : Memory ν) :
    Returns m (call depth name args m).2 := by
  induction depth generalizing name args m with
  | zero => exact returns_keyed (fun _ _ _ m _ => comes_of_error (.refl m)) name args m
  | succ depth ih => exact returns_keyed (fun _ key _ _ hg => comes_answerCall ih hg key) name args m

/-! ## Runs -/

theorem truthful_start (p : Program ν) : Truthful p.start where
  lawful := trivial
  values x hx key := by
    obtain ⟨g, -, rfl⟩ := List.mem_map.1 hx
    rfl

theorem truthful_run (p : Program ν) (depth : Nat) : Truthful (runSteps (call depth) p.steps p.start).2 :=
  (Returns.steady.runSteps (returns_call depth) p.steps p.start).truthful (truthful_start p)

/-- The calls that began and were not answered yet, the latest first, by the number of events before each. -/
def unanswered : List (Event ν) → List Nat
  | [] => []
  | .called .. :: h => h.length :: unanswered h
  | .answered .. :: h => (unanswered h).tail
  | _ :: h => unanswered h

/-- A call that begins after a clearing returns no value of an invocation that began before it. -/
def DropsValues (h : List (Event ν)) : Prop :=
  ∀ f key v answered before began, .answered f key (.ok v) :: answered <:+ h → .cleared f :: before <:+ answered →
    (unanswered answered).head? = some began → before.length < began →
    ∃ t, standing f key answered = some (t, v) ∧ before.length ≤ t

/-- No function is cleared while an invocation of it is going on. -/
def ClearsOutside (h : List (Event ν)) : Prop :=
  ∀ f before, .cleared f :: before <:+ h → ∀ x ∈ openings before, x.2.1 ≠ f

/-- However calls, invocations and clearings are nested: a value that a call returns after a clearing is of an
invocation that had begun before the clearing exactly if that invocation was going on when the clearing came. -/
theorem returned_value_predates_clearing_iff (p : Program ν) (depth : Nat) :
    let h := (runSteps (call depth) p.steps p.start).2.history
    (∀ f key v answered before, .answered f key (.ok v) :: answered <:+ h → .cleared f :: before <:+ answered →
      ∃ t, standing f key answered = some (t, v) ∧ (t < before.length ↔ (t, f, key) ∈ openings before)) ∧
      (ClearsOutside h → DropsValues h) := by
  intro h
  have hlawful : Lawful h := (truthful_run p depth).lawful
  have hiff : ∀ f key v answered before, .answered f key (.ok v) :: answered <:+ h →
      .cleared f :: before <:+ answered →
      ∃ t, standing f key answered = some (t, v) ∧ (t < before.length ↔ (t, f, key) ∈ openings before) := by
    intro f key v answered before ha hc
    obtain ⟨⟨t, hs⟩, hl⟩ := hlawful.of_suffix ha
    obtain ⟨later, rfl⟩ := hc
    refine ⟨t, hs, fun ht => ?_, lt_of_mem_openings⟩
    obtain ⟨mid, hmid⟩ := mem_openings_of_standing hl hs
    have hopen : (t, f, key) ∈ openings (.cleared f :: before) := mem_openings_of_append hmid (Nat.lt_succ_of_lt ht)
    exact hopen
  refine ⟨hiff, fun houtside f key v answered before began ha hc _ _ => ?_⟩
  obtain ⟨t, hs, ht⟩ := hiff f key v answered before ha hc
  refine ⟨t, hs, Nat.le_of_not_lt fun hlt => ?_⟩
  have hbefore : .cleared f :: before <:+ h := hc.trans ((List.suffix_cons _ _).trans ha)
  exact houtside f before hbefore _ (ht.1 hlt) rfl

/-- The first invocation of `f` clears `f` and ends with a value after that. -/
def clearedInside : Program Nat where
  functions := [("f", [⟨[.clear "f"], .ok 1⟩, ⟨[], .ok 2⟩])]
  steps := [.call "f" [], .call "f" []]

def overtakenValue : Value Nat := .traced 1 [.nothing [("f", 1)]]

def untilClearing : List (Event Nat) := [.started "f" [], .called "f" []]

def untilAnswer : List (Event Nat) :=
  [.called "f" [], .answered "f" [] (.ok overtakenValue), .ended "f" [] (.ok overtakenValue)] ++
    .cleared "f" :: untilClearing

theorem history_clearedInside :
    clearedInside.finish.history = .answered "f" [] (.ok overtakenValue) :: untilAnswer := rfl

theorem suffix_untilAnswer : .cleared "f" :: untilClearing <:+ untilAnswer := List.suffix_append _ _

/-- The second call returns the value of the invocation that was overtaken. -/
theorem returned_value_predates_clearing_inside :
    ∃ t, standing "f" [] untilAnswer = some (t, overtakenValue) ∧ t < untilClearing.length ∧
      (t, "f", []) ∈ openings untilClearing := by
  have hsuffix : .answered "f" [] (.ok overtakenValue) :: untilAnswer <:+ clearedInside.finish.history :=
    ⟨[], history_clearedInside.symm⟩
  obtain ⟨t, hs, ht⟩ := (returned_value_predates_clearing_iff clearedInside clearedInside.depth).1 "f" []
    overtakenValue untilAnswer untilClearing hsuffix suffix_untilAnswer
  have htime : t = 1 := by
    cases hs
    rfl
  subst htime
  exact ⟨1, hs, by decide, ht.1 (by decide)⟩

theorem cleared_value_comes_back : ¬∀ p : Program Nat, DropsValues p.finish.history := by
  intro hdrops
  obtain ⟨t, hs, ht⟩ := hdrops clearedInside "f" [] overtakenValue untilAnswer untilClearing 5
    ⟨[], history_clearedInside.symm⟩ suffix_untilAnswer rfl (by decide)
  cases hs
  exact absurd ht (by decide)

end Whereabouts.Once

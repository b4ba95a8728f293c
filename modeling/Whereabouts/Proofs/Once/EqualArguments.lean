import Mathlib.Data.Rat.Cast.Order
import Mathlib.Tactic.FieldSimp
import Mathlib.Tactic.Ring
import Whereabouts.Proofs.Once.Clearing

/-!
# Equal arguments

Arguments are equal if they are the same number, whatever their types, or the same text. The key of a call is equality
of its arguments and no more (`keyOf_eq_of_equal`, `equal_of_keyOf`). Two programs that pass equal arguments are
`Alike`, and nothing that a run answers or counts tells them apart.
-/

namespace Whereabouts

/-! ## Keys of equal arguments -/

theorem Binary64.exact_eq (negative : Bool) (m : Nat) (e : Int) :
    Binary64.exact negative m e = (if negative then -1 else 1) * ((m : Rat) * 2 ^ e) := by
  have hmag : mkRat (scaled m 1 e).1 (scaled m 1 e).2 = (m : Rat) * 2 ^ e := by
    unfold scaled
    by_cases he : 0 ≤ e
    · obtain ⟨k, rfl⟩ := Int.eq_ofNat_of_zero_le he
      simp [Rat.mkRat_eq_div]
    · obtain ⟨k, rfl⟩ : ∃ k : Nat, e = -k := ⟨(-e).toNat, by omega⟩
      have hk : k ≠ 0 := by omega
      simp [Rat.mkRat_eq_div, hk, div_eq_mul_inv]
  cases negative with
  | false => simpa [Binary64.exact, Binary64.fraction] using hmag
  | true => simpa [Binary64.exact, Binary64.fraction] using hmag

namespace Argument

/-- The number that an argument is, if it is a finite one: truth values are zero and one. -/
def number? : Argument → Option Rat
  | bool b => some (if b then 1 else 0)
  | whole n => some n
  | real (.finite negative m e) => some ((if negative then -1 else 1) * (m * 2 ^ e))
  | _ => Option.none

/-- Equality of arguments: numbers and truth values by their exact value, lists and records by what they hold. -/
inductive Equal : Argument → Argument → Prop where
  | none : Equal none none
  | number {a b : Argument} {x : Rat} (ha : a.number? = some x) (hb : b.number? = some x) : Equal a b
  | infinite (negative : Bool) : Equal (real (.infinite negative)) (real (.infinite negative))
  | text (s : String) : Equal (text s) (text s)
  | list {as bs : List Argument} (h : List.Forall₂ Equal as bs) : Equal (list as) (list bs)
  | record {fs gs : List (String × Argument)} (h : ∀ k, Option.Rel Equal (fs.lookup k) (gs.lookup k)) :
      Equal (record fs) (record gs)

end Argument

namespace Once

open Argument

theorem keyPart_number {a : Argument} {x : Rat} : keyPart a = .ok (.number x) ↔ a.number? = some x := by
  cases a with
  | real r => cases r <;> simp [keyPart, number?, Binary64.exact_eq]
  | _ => simp [keyPart, number?]

theorem keyPart_none {a : Argument} : keyPart a = .ok .none ↔ a = .none := by
  cases a with
  | real r => cases r <;> simp [keyPart]
  | _ => simp [keyPart]

theorem keyPart_infinite {a : Argument} {negative : Bool} :
    keyPart a = .ok (.infinite negative) ↔ a = .real (.infinite negative) := by
  cases a with
  | real r => cases r <;> simp [keyPart]
  | _ => simp [keyPart]

theorem keyPart_text {a : Argument} {s : String} : keyPart a = .ok (.text s) ↔ a = .text s := by
  cases a with
  | real r => cases r <;> simp [keyPart]
  | _ => simp [keyPart]

theorem keyPart_eq_of_equal {a b : Argument} (h : a.Equal b) : keyPart a = keyPart b := by
  cases h with
  | number ha hb => rw [keyPart_number.2 ha, keyPart_number.2 hb]
  | _ => rfl

theorem equal_of_keyPart {a b : Argument} {part : KeyPart} (ha : keyPart a = .ok part)
    (hb : keyPart b = .ok part) : a.Equal b := by
  cases part with
  | none =>
    rw [keyPart_none.1 ha, keyPart_none.1 hb]
    exact .none
  | number x => exact .number (keyPart_number.1 ha) (keyPart_number.1 hb)
  | infinite negative =>
    rw [keyPart_infinite.1 ha, keyPart_infinite.1 hb]
    exact .infinite negative
  | text s =>
    rw [keyPart_text.1 ha, keyPart_text.1 hb]
    exact .text s

theorem keyOf_cons_ok {a : Argument} {as : List Argument} {key : Key} :
    keyOf (a :: as) = .ok key ↔ ∃ part rest, keyPart a = .ok part ∧ keyOf as = .ok rest ∧ key = part :: rest := by
  rw [keyOf]
  cases keyPart a with
  | error t => simp [bind, Except.bind]
  | ok part =>
    cases keyOf as with
    | error t => simp [bind, Except.bind]
    | ok rest => simp [bind, Except.bind, pure, Except.pure, eq_comm]

theorem keyOf_eq_of_equal {as bs : List Argument} (h : List.Forall₂ Argument.Equal as bs) :
    keyOf as = keyOf bs := by
  induction h with
  | nil => rfl
  | cons hab _ ih => rw [keyOf, keyOf, keyPart_eq_of_equal hab, ih]

theorem equal_of_keyOf {as bs : List Argument} {key : Key} (ha : keyOf as = .ok key)
    (hb : keyOf bs = .ok key) : List.Forall₂ Argument.Equal as bs := by
  induction as generalizing bs key with
  | nil =>
    cases ha
    cases bs with
    | nil => exact .nil
    | cons b bs =>
      obtain ⟨part, rest, -, -, he⟩ := keyOf_cons_ok.1 hb
      cases he
  | cons a as ih =>
    obtain ⟨part, rest, hpart, hrest, rfl⟩ := keyOf_cons_ok.1 ha
    cases bs with
    | nil => cases hb
    | cons b bs =>
      obtain ⟨_, _, hpart', hrest', he⟩ := keyOf_cons_ok.1 hb
      cases he
      exact .cons (equal_of_keyPart hpart hpart') (ih hrest hrest')

/-! ## Programs that pass equal arguments -/

variable {ν : Type}

inductive Step.Alike : Step → Step → Prop where
  | call (f : String) {as bs : List Argument} (h : List.Forall₂ Argument.Equal as bs) :
      Alike (.call f as) (.call f bs)
  | threads (f : String) {as bs : List Argument} (count : Nat) (h : List.Forall₂ Argument.Equal as bs) :
      Alike (.threads f as count) (.threads f bs count)
  | clear (f : String) : Alike (.clear f) (.clear f)
  | clearAll : Alike .clearAll .clearAll
  | name (f : String) : Alike (.name f) (.name f)

structure Invocation.Alike (i j : Invocation ν) : Prop where
  during : List.Forall₂ Step.Alike i.during j.during
  outcome : i.outcome = j.outcome

/-- Two functions under one name. -/
def Named {α β : Type} (R : α → β → Prop) (x : String × α) (y : String × β) : Prop := x.1 = y.1 ∧ R x.2 y.2

/-- The programs differ at most in the arguments that calls pass, and these are equal call by call. -/
structure Program.Alike (p q : Program ν) : Prop where
  functions : List.Forall₂ (Named (List.Forall₂ Invocation.Alike)) p.functions q.functions
  steps : List.Forall₂ Step.Alike p.steps q.steps

structure Function.Alike (f g : Function ν) : Prop where
  script : List.Forall₂ Invocation.Alike f.script g.script
  values : f.values = g.values
  locks : f.locks = g.locks
  invocations : f.invocations = g.invocations

structure Memory.Alike (m m' : Memory ν) : Prop where
  functions : List.Forall₂ (Named Function.Alike) m.functions m'.functions
  held : m.held = m'.held
  lockCount : m.lockCount = m'.lockCount
  history : m.history = m'.history

theorem lookup_named {α β : Type} {R : α → β → Prop} {xs : List (String × α)} {ys : List (String × β)}
    (h : List.Forall₂ (Named R) xs ys) (name : String) : Option.Rel R (xs.lookup name) (ys.lookup name) := by
  induction h with
  | nil => exact .none
  | @cons x y xs ys hxy _ ih =>
    obtain ⟨n, a⟩ := x
    obtain ⟨k, b⟩ := y
    obtain ⟨rfl, hab⟩ : n = k ∧ R a b := hxy
    rw [List.lookup_cons, List.lookup_cons]
    by_cases hn : (name == n) = true
    · simpa [hn] using Option.Rel.some hab
    · simpa [hn] using ih

theorem getElem?_forall₂ {α β : Type} {R : α → β → Prop} {xs : List α} {ys : List β} (h : List.Forall₂ R xs ys)
    (n : Nat) : Option.Rel R xs[n]? ys[n]? := by
  induction h generalizing n with
  | nil => exact .none
  | cons hxy _ ih =>
    cases n with
    | zero => exact .some hxy
    | succ n => simpa using ih n

theorem rel_or {α β : Type} {R : α → β → Prop} {a c : Option α} {b d : Option β} (h : Option.Rel R a b)
    (h' : Option.Rel R c d) : Option.Rel R (a.or c) (b.or d) := by
  cases h with
  | some hab => exact .some hab
  | none => exact h'

variable {f g : Function ν} {m m' : Memory ν}

namespace Function.Alike

theorem invoked (h : f.Alike g) : (Memory.invoked f).Alike (Memory.invoked g) :=
  ⟨h.script, h.values, h.locks, congrArg (· + 1) h.invocations⟩

theorem valued (h : f.Alike g) (key : Key) (v : Value ν) : (Memory.valued key v f).Alike (Memory.valued key v g) :=
  ⟨h.script, congrArg (List.cons _) h.values, h.locks, h.invocations⟩

theorem locked (h : f.Alike g) (key : Key) (l : Nat) : (Memory.locked key l f).Alike (Memory.locked key l g) :=
  ⟨h.script, h.values, congrArg (List.cons _) h.locks, h.invocations⟩

theorem cleared (h : f.Alike g) : (Memory.cleared f).Alike (Memory.cleared g) :=
  ⟨h.script, rfl, rfl, h.invocations⟩

theorem nextInvocation (h : f.Alike g) :
    Option.Rel Invocation.Alike (Memory.nextInvocation f) (Memory.nextInvocation g) := by
  unfold Memory.nextInvocation
  rw [List.getLast?_eq_getElem?, List.getLast?_eq_getElem?, ← h.invocations, ← h.script.length_eq]
  exact rel_or (getElem?_forall₂ h.script _) (getElem?_forall₂ h.script _)

end Function.Alike

namespace Memory.Alike

theorem note (h : m.Alike m') (e : Event ν) : (m.note e).Alike (m'.note e) :=
  ⟨h.functions, h.held, h.lockCount, congrArg (List.cons e) h.history⟩

theorem withHeld (h : m.Alike m') {held held' : List Nat} (hh : held = held') :
    ({ m with held := held } : Memory ν).Alike { m' with held := held' } :=
  ⟨h.functions, hh, h.lockCount, h.history⟩

theorem update (h : m.Alike m') (name : String) {c : Function ν → Function ν}
    (hc : ∀ {f g : Function ν}, f.Alike g → (c f).Alike (c g)) : (m.update name c).Alike (m'.update name c) := by
  refine ⟨?_, h.held, h.lockCount, h.history⟩
  unfold Memory.update
  rw [List.forall₂_map_left_iff, List.forall₂_map_right_iff]
  refine h.functions.imp fun x y ⟨hn, hxy⟩ => ?_
  by_cases hx : x.1 = name
  · rw [if_pos hx, if_pos (hn ▸ hx)]
    exact ⟨hn, hc hxy⟩
  · rw [if_neg hx, if_neg (hn ▸ hx)]
    exact ⟨hn, hxy⟩

theorem calls (h : m.Alike m') : m.calls = m'.calls := by
  unfold Memory.calls
  rw [← List.forall₂_eq_eq_eq, List.forall₂_map_left_iff, List.forall₂_map_right_iff]
  exact h.functions.imp fun x y ⟨hn, hxy⟩ => Prod.ext hn hxy.invocations

theorem clear (h : m.Alike m') (name : String) : (m.clear name).Alike (m'.clear name) :=
  (h.update name .cleared).note (.cleared name)

theorem clearAll (h : m.Alike m') : m.clearAll.Alike m'.clearAll := by
  have hnames : m.functions.map (fun f => (.cleared f.1 : Event ν)) = m'.functions.map fun f => .cleared f.1 := by
    rw [← List.forall₂_eq_eq_eq, List.forall₂_map_left_iff, List.forall₂_map_right_iff]
    exact h.functions.imp fun x y ⟨hn, _⟩ => congrArg _ hn
  refine ⟨?_, h.held, h.lockCount, ?_⟩
  · unfold Memory.clearAll
    rw [List.forall₂_map_left_iff, List.forall₂_map_right_iff]
    exact h.functions.imp fun x y ⟨hn, hxy⟩ => ⟨hn, hxy.cleared⟩
  · unfold Memory.clearAll
    rw [hnames, h.history]

theorem lockOf (h : m.Alike m') (hf : f.Alike g) (name : String) (key : Key) :
    (m.lockOf name f key).1 = (m'.lockOf name g key).1 ∧
      (m.lockOf name f key).2.Alike (m'.lockOf name g key).2 := by
  unfold Memory.lockOf
  rw [← hf.locks]
  cases f.locks.lookup key with
  | some l => exact ⟨rfl, h⟩
  | none =>
    have hu := h.update name (c := locked key m.lockCount) fun hfg => hfg.locked key m.lockCount
    rw [← h.lockCount]
    exact ⟨rfl, hu.functions, hu.held, rfl, hu.history⟩

end Memory.Alike

/-! ## Runs that agree -/

/-- The same result, and memories that are alike. -/
structure Agree {α : Type} (x y : α × Memory ν) : Prop where
  result : x.1 = y.1
  memory : x.2.Alike y.2

def Respects (c : Caller ν) : Prop :=
  ∀ name as bs m m', List.Forall₂ Argument.Equal as bs → m.Alike m' → Agree (c name as m) (c name bs m')

theorem agree_repeatCall {c c' : Memory ν → Except Problem (Value ν) × Memory ν}
    (hc : ∀ m m', m.Alike m' → Agree (c m) (c' m')) (n : Nat) (h : m.Alike m') :
    Agree (repeatCall c n m) (repeatCall c' n m') := by
  induction n generalizing m m' with
  | zero => exact ⟨rfl, h⟩
  | succ n ih =>
    have hfirst := hc m m' h
    have hrest := ih hfirst.memory
    exact ⟨congrArg₂ List.cons hfirst.result hrest.result, hrest.memory⟩

variable {c : Caller ν}

theorem agree_runStep (hc : Respects c) {s s' : Step} (hs : s.Alike s') (h : m.Alike m') :
    Agree (runStep c m s) (runStep c m' s') := by
  cases hs with
  | call f hargs =>
    have hcall := hc f _ _ m m' hargs h
    exact ⟨congrArg₂ Answer.result hcall.result hcall.memory.calls, hcall.memory⟩
  | threads f n hargs =>
    have hcalls := agree_repeatCall (fun m m' => hc f _ _ m m' hargs) n h
    exact ⟨congrArg₂ Answer.results hcalls.result hcalls.memory.calls, hcalls.memory⟩
  | clear f => exact ⟨congrArg Answer.nothing (h.clear f).calls, h.clear f⟩
  | clearAll => exact ⟨congrArg Answer.nothing h.clearAll.calls, h.clearAll⟩
  | name f => exact ⟨congrArg (Answer.name f) h.calls, h⟩

theorem agree_runSteps (hc : Respects c) {ss ss' : List Step} (hs : List.Forall₂ Step.Alike ss ss')
    (h : m.Alike m') : Agree (runSteps c ss m) (runSteps c ss' m') := by
  induction hs generalizing m m' with
  | nil => exact ⟨rfl, h⟩
  | cons hs _ ih =>
    have hfirst := agree_runStep hc hs h
    have hrest := ih hfirst.memory
    exact ⟨congrArg₂ List.cons hfirst.result hrest.result, hrest.memory⟩

theorem agree_invoke (hc : Respects c) (name : String) (key : Key) (l : Nat) {i j : Invocation ν}
    (hi : i.Alike j) (h : m.Alike m') : Agree (invoke c name key l i m) (invoke c name key l j m') := by
  have hstarted := (h.update name .invoked).note (.started name key)
  have hbegun := hstarted.withHeld (congrArg (List.cons l) hstarted.held)
  obtain ⟨hresult, hmemory⟩ := agree_runSteps hc hi.during hbegun
  have hended := hmemory.withHeld (congrArg (List.erase · l) hmemory.held)
  have hempty : i.during.isEmpty = j.during.isEmpty := by
    rw [Bool.eq_iff_iff, List.isEmpty_iff_length_eq_zero, List.isEmpty_iff_length_eq_zero, hi.during.length_eq]
  unfold invoke
  dsimp only at hresult ⊢
  rw [← hi.outcome, ← hempty, ← hresult]
  cases i.outcome with
  | error e => exact ⟨rfl, hended.note _⟩
  | ok v => exact ⟨rfl, (hended.update name fun hfg => hfg.valued key _).note _⟩

theorem agree_answerCall (hc : Respects c) (name : String) (key : Key) (hf : f.Alike g) (h : m.Alike m') :
    Agree (answerCall c name key f m) (answerCall c name key g m') := by
  unfold answerCall
  rw [← hf.values]
  cases f.values.lookup key with
  | some v => exact ⟨rfl, h⟩
  | none =>
    obtain ⟨hlock, hm⟩ := h.lockOf hf name key
    generalize m.lockOf name f key = x at hlock hm
    generalize m'.lockOf name g key = y at hlock hm
    obtain ⟨l, m⟩ := x
    obtain ⟨l', m'⟩ := y
    dsimp only at hlock hm ⊢
    rw [← hlock, ← hm.held]
    by_cases hl : l ∈ m.held
    · rw [if_pos hl, if_pos hl]
      exact ⟨rfl, hm⟩
    · rw [if_neg hl, if_neg hl]
      have hnext := hf.nextInvocation
      generalize Memory.nextInvocation f = x at hnext
      generalize Memory.nextInvocation g = y at hnext
      cases hnext with
      | none => exact ⟨rfl, hm⟩
      | some hi => exact agree_invoke hc name key l hi hm

theorem respects_keyed {answer : String → Key → Function ν → Memory ν → Except Problem (Value ν) × Memory ν}
    (ha : ∀ name key {f g : Function ν} {m m' : Memory ν}, f.Alike g → m.Alike m' →
      Agree (answer name key f m) (answer name key g m')) : Respects (keyed answer) := by
  intro name as bs m m' hargs h
  unfold keyed
  rw [← keyOf_eq_of_equal hargs]
  have hlookup := lookup_named h.functions name
  cases keyOf as with
  | error t => exact ⟨rfl, h⟩
  | ok key =>
    generalize m.functions.lookup name = x at hlookup
    generalize m'.functions.lookup name = y at hlookup
    cases hlookup with
    | none => exact ⟨rfl, h⟩
    | some hf =>
      obtain ⟨hr, hm⟩ := ha name key hf (h.note (.called name key))
      dsimp only
      rw [← hr]
      exact ⟨rfl, hm.note _⟩

theorem respects_call (depth : Nat) : Respects (call depth : Caller ν) := by
  induction depth with
  | zero => exact respects_keyed fun _ _ _ _ _ _ _ h => ⟨rfl, h⟩
  | succ depth ih => exact respects_keyed fun name key _ _ _ _ hf h => agree_answerCall ih name key hf h

namespace Program.Alike

variable {p q : Program ν}

theorem size (h : p.Alike q) : p.size = q.size := by
  have hall : List.Forall₂ Invocation.Alike (p.functions.flatMap (·.2)) (q.functions.flatMap (·.2)) :=
    List.rel_flatMap h.functions fun _ _ hf => hf.2
  refine List.rel_foldl (P := Eq) (R := Invocation.Alike) (fun n n' hn i j hi => ?_) rfl hall
  rw [hn, hi.during.length_eq]

theorem depth (h : p.Alike q) : p.depth = q.depth := by rw [Program.depth, Program.depth, h.size]

theorem start (h : p.Alike q) : p.start.Alike q.start := by
  refine ⟨?_, rfl, rfl, rfl⟩
  unfold Program.start
  rw [List.forall₂_map_left_iff, List.forall₂_map_right_iff]
  exact h.functions.imp fun f g ⟨hn, hs⟩ => ⟨hn, hs, rfl, rfl, rfl⟩

end Program.Alike

theorem ended_of_standing {name : String} {key : Key} {h : List (Event ν)} {t : Nat} {v : Value ν}
    (hs : standing name key h = some (t, v)) : .ended name key (.ok v) ∈ h := by
  induction h with
  | nil => cases hs
  | cons e h ih =>
    cases e with
    | ended g k outcome =>
      cases outcome with
      | error x => exact List.mem_cons_of_mem _ (ih hs)
      | ok w =>
        by_cases hk : g = name ∧ k = key
        · simp only [standing, hk, and_self, if_true] at hs
          obtain ⟨o, -, he⟩ := Option.map_eq_some_iff.1 hs
          cases he
          rw [hk.1, hk.2]
          exact List.mem_cons_self
        · simp only [standing, hk, if_false] at hs
          exact List.mem_cons_of_mem _ (ih hs)
    | cleared g =>
      by_cases hg : g = name
      · simp [standing, hg] at hs
      · simp only [standing, hg, if_false] at hs
        exact List.mem_cons_of_mem _ (ih hs)
    | _ => exact List.mem_cons_of_mem _ (ih hs)

theorem entries_follow_equality {p q : Program ν} (h : p.Alike q) :
    p.run = q.run ∧ p.finish.calls = q.finish.calls ∧
    -- a call returns what an invocation for its own key ended with
    (∀ f key v answered, .answered f key (.ok v) :: answered <:+ p.finish.history →
      .ended f key (.ok v) ∈ answered) ∧
    -- and that is the key of equal arguments only
    ∀ as bs key, keyOf as = .ok key → (keyOf bs = .ok key ↔ List.Forall₂ Argument.Equal as bs) := by
  have hruns : Agree (runSteps (call p.depth) p.steps p.start) (runSteps (call q.depth) q.steps q.start) := by
    rw [h.depth]
    exact agree_runSteps (respects_call q.depth) h.steps h.start
  refine ⟨hruns.result, hruns.memory.calls, fun f key v answered ha => ?_,
    fun as bs key ha => ⟨fun hb => ?_, fun hab => ?_⟩⟩
  · obtain ⟨⟨t, hs⟩, -⟩ := (truthful_run p p.depth).lawful.of_suffix ha
    exact ended_of_standing hs
  · exact equal_of_keyOf ha hb
  · rw [← keyOf_eq_of_equal hab, ha]

/-- Calls with numbers around the last one from which on the whole numbers have gaps among the reals. -/
def wholeNumbers : Program Nat where
  functions := [("f", [⟨[], .ok 1⟩, ⟨[.call "f" [.whole 0]], .ok 2⟩, ⟨[], .ok 3⟩])]
  steps := [.call "f" [.whole (2 ^ 53)], .call "f" [.whole (2 ^ 53 + 1)],
    .call "f" [.real (.finite false (2 ^ 52) 1)], .threads "f" [.bool false] 2]

def otherNumbers : Program Nat where
  functions := [("f", [⟨[], .ok 1⟩, ⟨[.call "f" [.bool false]], .ok 2⟩, ⟨[], .ok 3⟩])]
  steps := [.call "f" [.real (.finite false 1 53)], .call "f" [.whole (2 ^ 53 + 1)], .call "f" [.whole (2 ^ 53)],
    .threads "f" [.real (.finite true 0 (-1074))] 2]

theorem alike_otherNumbers : wholeNumbers.Alike otherNumbers := by
  have hzero : Argument.Equal (.whole 0) (.bool false) := .number (x := 0) rfl rfl
  have hgap : Argument.Equal (.whole (2 ^ 53 + 1)) (.whole (2 ^ 53 + 1)) := .number rfl rfl
  have hminus : Argument.Equal (.bool false) (.real (.finite true 0 (-1074))) :=
    .number (x := 0) rfl (by simp [number?])
  have hwhole : Argument.Equal (.whole (2 ^ 53)) (.real (.finite false 1 53)) :=
    .number (x := 2 ^ 53) rfl (by simp [number?])
  have hreal : Argument.Equal (.real (.finite false (2 ^ 52) 1)) (.whole (2 ^ 53)) :=
    .number (x := 2 ^ 53) (by norm_num [number?]) rfl
  refine ⟨.cons ⟨rfl, .cons ⟨.nil, rfl⟩ (.cons ⟨.cons (.call "f" (.cons hzero .nil)) .nil, rfl⟩
    (.cons ⟨.nil, rfl⟩ .nil))⟩ .nil, ?_⟩
  exact .cons (.call "f" (.cons hwhole .nil)) (.cons (.call "f" (.cons hgap .nil))
    (.cons (.call "f" (.cons hreal .nil)) (.cons (.threads "f" 2 (.cons hminus .nil)) .nil)))

theorem entries_follow_equality_at_gap :
    wholeNumbers.run = otherNumbers.run ∧ otherNumbers.finish.calls = [("f", 3)] ∧
      keyOf [.whole (2 ^ 53 + 1)] ≠ keyOf [.real (.finite false 1 53)] := by
  obtain ⟨hrun, hcalls, -, hkeys⟩ := entries_follow_equality alike_otherNumbers
  refine ⟨hrun, ?_, fun he => ?_⟩
  · rw [← hcalls]
    decide +kernel
  · have hequal := (hkeys [.whole (2 ^ 53 + 1)] [.real (.finite false 1 53)] _ rfl).1 he.symm
    obtain ⟨hnumber, -⟩ := List.forall₂_cons.1 hequal
    cases hnumber with
    | number ha hb =>
      rw [← hb] at ha
      norm_num [number?] at ha

end Once

end Whereabouts

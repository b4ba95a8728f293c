import Mathlib.Data.List.Nodup
import Whereabouts.Once.Script

/-!
# Histories of calls

`Orderly` says how the calls of a program without clearings go: a call is answered with the value that an
invocation of its key ended with, or else it invokes the function, unless its key is being computed, and
is answered as that invocation ends. What a history tells about keys and their values follows from it, event
by event. Histories have the latest event first.
-/

namespace Whereabouts.Once

variable {ν : Type} {f : String} {key : Key} {h : List (Event ν)}

/-! ## What a history tells -/

/-- The invocations that began and did not end yet, the latest first. -/
def running : List (Event ν) → List (String × Key)
  | [] => []
  | .started f key :: h => (f, key) :: running h
  | .ended .. :: h => (running h).tail
  | _ :: h => running h

def Event.value? (f : String) : Event ν → Option (Key × Value ν)
  | .ended g key (.ok v) => if g = f then some (key, v) else none
  | _ => none

/-- The values that invocations of the function ended with, each with its key. -/
def valuesIn (f : String) (h : List (Event ν)) : List (Key × Value ν) := h.filterMap (Event.value? f)

def Event.isStart (f : String) : Event ν → Bool
  | .started g _ => g = f
  | _ => false

def Event.isRaise (f : String) : Event ν → Bool
  | .ended g _ (.error _) => g = f
  | _ => false

def Event.Concerns (f : String) (key : Key) : Event ν → Prop
  | .called g k | .started g k | .ended g k _ | .answered g k _ => g = f ∧ k = key
  | .cleared _ => False

/-- No call has just begun and no invocation has just ended. -/
def AtRest : List (Event ν) → Prop
  | .called .. :: _ | .ended .. :: _ => False
  | _ => True

def Event.asked? : Event ν → Option (String × Key)
  | .called f key => some (f, key)
  | _ => none

/-- No call begins whose key is being computed. -/
def NeverReenters (h : List (Event ν)) : Prop :=
  ∀ e before, e :: before <:+ h → ∀ x ∈ e.asked?, x ∉ running before

theorem NeverReenters.of_suffix {h' : List (Event ν)} (hs : h' <:+ h) (hn : NeverReenters h) : NeverReenters h' :=
  fun e before hb => hn e before (hb.trans hs)

theorem neverReenters_cons {e : Event ν} :
    NeverReenters (e :: h) ↔ (∀ x ∈ e.asked?, x ∉ running h) ∧ NeverReenters h := by
  constructor
  · intro hn
    exact ⟨hn e h (List.suffix_refl _), hn.of_suffix (List.suffix_cons e h)⟩
  · rintro ⟨he, hn⟩ e' before hb
    rcases List.suffix_cons_iff.1 hb with heq | hb
    · cases heq
      exact he
    · exact hn e' before hb

instance NeverReenters.decidable : (h : List (Event ν)) → Decidable (NeverReenters h)
  | [] => .isTrue fun _ _ hb => by cases List.suffix_nil.1 hb
  | _ :: h =>
    have := NeverReenters.decidable h
    decidable_of_iff _ neverReenters_cons.symm

/-! ## Orderly histories -/

inductive Orderly : List (Event ν) → Prop where
  | nil : Orderly []
  | called {f : String} {key : Key} {h : List (Event ν)} (ho : Orderly h) (hr : AtRest h) (hn : (f, key) ∉ running h) :
      Orderly (.called f key :: h)
  | started {f : String} {key : Key} {h : List (Event ν)} (ho : Orderly (.called f key :: h))
      (hv : (valuesIn f h).lookup key = none) : Orderly (.started f key :: .called f key :: h)
  | ended {f : String} {key : Key} {outcome : Except Exception (Value ν)} {rest : List (String × Key)}
      {h : List (Event ν)} (ho : Orderly h) (hr : AtRest h) (hrun : running h = (f, key) :: rest) :
      Orderly (.ended f key outcome :: h)
  | served {f : String} {key : Key} {v : Value ν} {h : List (Event ν)} (ho : Orderly (.called f key :: h))
      (hv : (valuesIn f h).lookup key = some v) : Orderly (.answered f key (.ok v) :: .called f key :: h)
  | concluded {f : String} {key : Key} {outcome : Except Exception (Value ν)} {h : List (Event ν)}
      (ho : Orderly (.ended f key outcome :: h)) :
      Orderly (.answered f key (outcome.mapError .raised) :: .ended f key outcome :: h)

theorem Orderly.tail {e : Event ν} (ho : Orderly (e :: h)) : Orderly h := by
  cases ho with
  | called ho | started ho | ended ho | served ho | concluded ho => exact ho

theorem Orderly.of_append {later : List (Event ν)} (ho : Orderly (later ++ h)) : Orderly h := by
  induction later with
  | nil => exact ho
  | cons e later ih => exact ih ho.tail

/-! ## Values -/

theorem valuesIn_cons_of_none {e : Event ν} (he : e.value? f = none) : valuesIn f (e :: h) = valuesIn f h := by
  unfold valuesIn
  rw [List.filterMap_cons, he]

theorem valuesIn_ended (g : String) (key : Key) (v : Value ν) :
    valuesIn f (.ended g key (.ok v) :: h) = if g = f then (key, v) :: valuesIn f h else valuesIn f h := by
  unfold valuesIn
  rw [List.filterMap_cons]
  by_cases hg : g = f
  · simp [Event.value?, hg]
  · simp [Event.value?, hg]

/-- A key that an event does not end with a value keeps the values that it had. -/
theorem lookup_valuesIn_of_ne {g : String} {k : Key} {outcome : Except Exception (Value ν)} (hne : (g, k) ≠ (f, key)) :
    (valuesIn f (.ended g k outcome :: h)).lookup key = (valuesIn f h).lookup key := by
  cases outcome with
  | error e => rfl
  | ok v =>
    rw [valuesIn_ended]
    split
    · next hg =>
      have hk : (key == k) = false := by
        rw [beq_eq_false_iff_ne]
        rintro rfl
        exact hne (by rw [hg])
      rw [List.lookup_cons, hk]
    · rfl

/-- What is being computed has no value yet, and is computed only once at a time. -/
theorem Orderly.running_fresh (ho : Orderly h) :
    (running h).Nodup ∧ ∀ x ∈ running h, (valuesIn x.1 h).lookup x.2 = none := by
  induction ho with
  | nil => exact ⟨List.nodup_nil, fun x hx => by cases hx⟩
  | called ho hr hn ih => exact ih
  | @started f key h ho hv ih =>
    obtain ⟨hnodup, hfresh⟩ := ih
    have hn : (f, key) ∉ running h := by
      cases ho with
      | called _ _ hn => exact hn
    refine ⟨List.nodup_cons.2 ⟨hn, hnodup⟩, fun x hx => ?_⟩
    rcases List.mem_cons.1 hx with rfl | hx
    · exact hv
    · exact hfresh x hx
  | @ended f key outcome rest h ho hr hrun ih =>
    obtain ⟨hnodup, hfresh⟩ := ih
    rw [hrun] at hnodup hfresh
    have htail : running (.ended f key outcome :: h) = rest := congrArg List.tail hrun
    rw [htail]
    refine ⟨hnodup.of_cons, fun x hx => ?_⟩
    have hne : (f, key) ≠ x := by
      rintro rfl
      exact (List.nodup_cons.1 hnodup).1 hx
    rw [lookup_valuesIn_of_ne hne]
    exact hfresh x (List.mem_cons_of_mem _ hx)
  | served ho hv ih => exact ih
  | concluded ho ih => exact ih

theorem Orderly.vacant_of_ended {outcome : Except Exception (Value ν)} (ho : Orderly (.ended f key outcome :: h)) :
    (valuesIn f h).lookup key = none := by
  cases ho with
  | ended ho hr hrun => exact ho.running_fresh.2 (f, key) (by rw [hrun]; exact List.mem_cons_self)

theorem Orderly.nodup_valuesIn (ho : Orderly h) (f : String) : ((valuesIn f h).map (·.1)).Nodup := by
  induction h with
  | nil => exact List.nodup_nil
  | cons e h ih =>
    have hrest := ih ho.tail
    cases he : e.value? f with
    | none =>
      rw [valuesIn_cons_of_none he]
      exact hrest
    | some x =>
      cases e with
      | ended g key outcome =>
        cases outcome with
        | error e => cases he
        | ok v =>
          obtain ⟨rfl, -⟩ : g = f ∧ _ := by simpa [Event.value?] using he
          have hkey := ho.vacant_of_ended
          rw [valuesIn_ended, if_pos rfl, List.map_cons, List.nodup_cons]
          refine ⟨fun hm => ?_, hrest⟩
          obtain ⟨y, hy, rfl⟩ := List.mem_map.1 hm
          have hne := List.lookup_eq_none_iff.1 hkey y hy
          simp at hne
      | _ => cases he

theorem Orderly.lookup_of_ended {later before : List (Event ν)} {v : Value ν}
    (ho : Orderly (later ++ .ended f key (.ok v) :: before)) :
    (valuesIn f (later ++ .ended f key (.ok v) :: before)).lookup key = some v := by
  induction later with
  | nil =>
    rw [List.nil_append, valuesIn_ended, if_pos rfl]
    exact List.lookup_cons_self
  | cons e later ih =>
    have hv := ih ho.tail
    cases e with
    | ended g k outcome =>
      rw [List.cons_append, lookup_valuesIn_of_ne]
      · exact hv
      · -- a second invocation for the key would have found the value
        intro he
        cases he
        have hnone : (valuesIn f (later ++ .ended f key (.ok v) :: before)).lookup key = none := ho.vacant_of_ended
        rw [hv] at hnone
        cases hnone
    | _ => exact hv

/-! ## What follows an event -/

theorem exists_concat_of_not_atRest {e : Event ν} {later before : List (Event ν)} (hr : AtRest (later ++ e :: before))
    (he : ¬AtRest (e :: before)) : ∃ later' next, later = later' ++ [next] := by
  rcases List.eq_nil_or_concat later with rfl | ⟨later', next, rfl⟩
  · exact absurd hr he
  · exact ⟨later', next, List.concat_eq_append⟩

/-- Once an invocation for a key ended with a value, the calls with the key are answered with it and
invoke nothing. -/
theorem Orderly.after_value {later before : List (Event ν)} {v : Value ν}
    (ho : Orderly (later ++ .ended f key (.ok v) :: before)) {e : Event ν} (he : e ∈ later) (hc : e.Concerns f key) :
    e = .called f key ∨ e = .answered f key (.ok v) := by
  obtain ⟨l₁, l₂, rfl⟩ := List.append_of_mem he
  rw [List.append_assoc] at ho
  have hstep : Orderly (e :: (l₂ ++ .ended f key (.ok v) :: before)) := ho.of_append
  have hvalue := hstep.tail.lookup_of_ended
  generalize hh : l₂ ++ .ended f key (.ok v) :: before = h at hstep hvalue
  cases e with
  | called g k =>
    obtain ⟨rfl, rfl⟩ := hc
    exact .inl rfl
  | started g k =>
    obtain ⟨rfl, rfl⟩ := hc
    cases hstep with
    | started _ hv =>
      rw [valuesIn_cons_of_none rfl, hv] at hvalue
      cases hvalue
  | ended g k outcome =>
    obtain ⟨rfl, rfl⟩ := hc
    have hnone := hstep.vacant_of_ended
    rw [hvalue] at hnone
    cases hnone
  | answered g k r =>
    obtain ⟨rfl, rfl⟩ := hc
    cases hstep with
    | served _ hv =>
      rw [valuesIn_cons_of_none rfl, hv] at hvalue
      cases hvalue
      exact .inr rfl
    | @concluded _ _ outcome t hended =>
      cases outcome with
      | ok w =>
        rw [valuesIn_ended, if_pos rfl, List.lookup_cons_self] at hvalue
        cases hvalue
        exact .inr rfl
      | error x =>
        rw [valuesIn_cons_of_none rfl, hended.vacant_of_ended] at hvalue
        cases hvalue
  | cleared g => exact hc.elim

/-- An invocation that ends with an exception is followed by the answer of its own call. -/
theorem Orderly.after_raise {later before : List (Event ν)} {x : Exception}
    (ho : Orderly (later ++ .ended f key (.error x) :: before))
    (hr : AtRest (later ++ .ended f key (.error x) :: before)) :
    ∃ later', later = later' ++ [.answered f key (.error (.raised x))] := by
  obtain ⟨later', next, rfl⟩ := exists_concat_of_not_atRest hr id
  rw [List.append_assoc] at ho
  have hstep : Orderly (next :: .ended f key (.error x) :: before) := ho.of_append
  cases hstep with
  | called _ hr => exact hr.elim
  | ended _ hr => exact hr.elim
  | concluded => exact ⟨later', rfl⟩

theorem Orderly.after_call {later before : List (Event ν)} (ho : Orderly (later ++ .called f key :: before))
    (hr : AtRest (later ++ .called f key :: before)) (hv : (valuesIn f before).lookup key = none) :
    ∃ later', later = later' ++ [.started f key] := by
  obtain ⟨later', next, rfl⟩ := exists_concat_of_not_atRest hr id
  rw [List.append_assoc] at ho
  have hstep : Orderly (next :: .called f key :: before) := ho.of_append
  cases hstep with
  | called _ hr => exact hr.elim
  | ended _ hr => exact hr.elim
  | started => exact ⟨later', rfl⟩
  | served _ hv' =>
    rw [hv] at hv'
    cases hv'

/-- After an invocation that raised, the key stays without a value and without an invocation until the next
call with it. -/
theorem Orderly.vacant_after_raise {between before : List (Event ν)} {x : Exception}
    (ho : Orderly (between ++ .ended f key (.error x) :: before)) (hb : .called f key ∉ between) :
    (f, key) ∉ running (between ++ .ended f key (.error x) :: before) ∧
      (valuesIn f (between ++ .ended f key (.error x) :: before)).lookup key = none := by
  induction between with
  | nil =>
    refine ⟨?_, (congrArg _ (valuesIn_cons_of_none rfl)).trans ho.vacant_of_ended⟩
    cases ho with
    | ended ho hr hrun =>
      have hnodup := ho.running_fresh.1
      rw [hrun] at hnodup
      rw [List.nil_append, running, hrun]
      exact (List.nodup_cons.1 hnodup).1
  | cons e between ih =>
    obtain ⟨hout, hvacant⟩ := ih ho.tail fun hm => hb (List.mem_cons_of_mem _ hm)
    rw [List.cons_append] at ho ⊢
    generalize hh : between ++ .ended f key (.error x) :: before = h at ho hout hvacant ⊢
    cases e with
    | started g k =>
      refine ⟨fun hm => ?_, hvacant⟩
      rcases List.mem_cons.1 hm with heq | hm
      · -- the call that begins the invocation is not among the events between
        cases heq
        cases ho with
        | started =>
          cases between with
          | nil => cases hh
          | cons e between =>
            cases hh
            exact hb (List.mem_cons_of_mem _ List.mem_cons_self)
      · exact hout hm
    | ended g k outcome =>
      have hne : (g, k) ≠ (f, key) := by
        intro heq
        cases ho with
        | ended ho hr hrun =>
          rw [hrun, heq] at hout
          exact hout List.mem_cons_self
      exact ⟨fun hm => hout (List.mem_of_mem_tail hm), (lookup_valuesIn_of_ne hne).trans hvacant⟩
    | _ => exact ⟨hout, hvacant⟩

/-! ## Counting -/

/-- Every invocation of a function goes on, ended with a value or raised an exception. -/
theorem Orderly.count (ho : Orderly h) (f : String) :
    h.countP (Event.isStart f) =
      (valuesIn f h).length + h.countP (Event.isRaise f) + (running h).countP (·.1 = f) := by
  induction h with
  | nil => rfl
  | cons e h ih =>
    have hrest := ih ho.tail
    rw [List.countP_cons, List.countP_cons]
    cases e with
    | started g k =>
      have hrun : running (.started g k :: h) = (g, k) :: running h := rfl
      rw [valuesIn_cons_of_none rfl, hrun, List.countP_cons]
      simp only [Event.isStart, Event.isRaise]
      by_cases hg : g = f <;> simp [hg] <;> omega
    | ended g k outcome =>
      cases ho with
      | @ended _ _ _ rest _ _ _ hrun =>
        have htail : running (.ended g k outcome :: h) = rest := congrArg List.tail hrun
        rw [hrun, List.countP_cons] at hrest
        rw [htail]
        cases outcome with
        | error x =>
          rw [valuesIn_cons_of_none rfl]
          simp only [Event.isStart, Event.isRaise]
          by_cases hg : g = f <;> simp [hg] at hrest ⊢ <;> omega
        | ok v =>
          rw [valuesIn_ended]
          simp only [Event.isStart, Event.isRaise]
          by_cases hg : g = f <;> simp [hg] at hrest ⊢ <;> omega
    | _ =>
      rw [valuesIn_cons_of_none rfl]
      exact hrest

end Whereabouts.Once

import Mathlib.Algebra.Group.Nat.Defs
import Mathlib.Data.List.TakeWhile
import Whereabouts.Executable

/-!
# The name of a module

The buffers for the name have 260 characters, then twice as many each time. The last size within the bound is 16640,
and the next one is past it. So a name is found exactly if it is shorter than 16640 characters, and is then found
whole; a longer one is reported to exceed the bound long before it does (`moduleName_found_iff`).
-/

namespace Whereabouts

variable {name reported stored : String} {size length : Nat} {sizes : List Nat} {f : Failure}

theorem beforeZero_of_not_mem (hz : '\x00' ∉ name.toList) : beforeZero name = name := by
  have hall : ∀ c ∈ name.toList, decide (c ≠ '\x00') = true := fun c hc => decide_eq_true fun he => hz (he ▸ hc)
  rw [beforeZero, List.takeWhile_eq_self_iff.2 hall, String.ofList_toList]

theorem storedName_cases (h : storedName name size = (length, stored)) :
    name.length < size ∧ length = name.length ∧ stored = name ∨ size ≤ name.length ∧ length = size := by
  unfold storedName at h
  split at h
  · next hfit =>
    cases h
    exact .inl ⟨hfit, rfl, rfl⟩
  · next hcut =>
    cases h
    exact .inr ⟨Nat.le_of_not_lt hcut, rfl⟩

/-- The questions for the name from a size on: the sizes of the buffers, and what comes of them. -/
inductive Questions (name : String) : Nat → List Nat → Except Failure String → Prop where
  | pastBound {size : Nat} (hs : maxBufferSize < size) : Questions name size [] (.error .moduleNameTooLong)
  | refused {size : Nat} {stored : String} (hs : size ≤ maxBufferSize) (hst : storedName name size = (0, stored)) :
      Questions name size [size] (.error (.moduleNameRefused 0))
  | whole {size length : Nat} {stored : String} (hs : size ≤ maxBufferSize)
      (hst : storedName name size = (length, stored)) (hn : length ≠ 0) (hw : length < size) :
      Questions name size [size] (.ok (beforeZero stored))
  | cutShort {size length : Nat} {stored : String} {sizes : List Nat} {x : Except Failure String}
      (hs : size ≤ maxBufferSize) (hst : storedName name size = (length, stored)) (hn : length ≠ 0)
      (hw : size ≤ length) (rest : Questions name (2 * size) sizes x) : Questions name size (size :: sizes) x

/-- The questions come to an end. -/
theorem questions_askModuleName (name : String) (hs : 0 < size) :
    ∃ sizes, Questions name size sizes (askModuleName name size) := by
  fun_induction askModuleName name size with
  | case1 size hb stored hst => exact ⟨_, .refused hb.2 hst⟩
  | case2 size hb length stored hst hn hw => exact ⟨_, .whole hb.2 hst hn hw⟩
  | case3 size hb length stored hst hn hw ih =>
    obtain ⟨sizes, hrest⟩ := ih (by omega)
    exact ⟨_, .cutShort hb.2 hst hn (Nat.le_of_not_lt hw) hrest⟩
  | case4 size hb => exact ⟨_, .pastBound (by omega)⟩

namespace Questions

/-- Every question doubles the size, up to the bound. -/
theorem doubles {x : Except Failure String} (h : Questions name size sizes x) (hs : size ≤ 2 * maxBufferSize) :
    2 ^ sizes.length * size ≤ 2 * maxBufferSize := by
  induction h with
  | pastBound => simpa using hs
  | refused hb | whole hb => exact Nat.mul_le_mul_left 2 hb
  | cutShort hb hst hn hw rest ih =>
    rw [List.length_cons, Nat.pow_succ, Nat.mul_assoc]
    exact ih (Nat.mul_le_mul_left 2 hb)

/-- What is found is the whole name, and it fits into one of the sizes. -/
theorem of_ok (hz : '\x00' ∉ name.toList) (h : Questions name size sizes (.ok reported)) :
    reported = name ∧ ∃ k, name.length < 2 ^ k * size ∧ 2 ^ k * size ≤ maxBufferSize := by
  generalize hx : (.ok reported : Except Failure String) = x at h
  induction h with
  | pastBound | refused => cases hx
  | whole hb hst hn hw =>
    cases hx
    rcases storedName_cases hst with ⟨hfit, -, rfl⟩ | ⟨-, rfl⟩
    · exact ⟨beforeZero_of_not_mem hz, 0, by simpa using hfit, by simpa using hb⟩
    · exact absurd hw (Nat.lt_irrefl _)
  | cutShort hb hst hn hw rest ih =>
    obtain ⟨rfl, k, hk⟩ := ih hx
    refine ⟨rfl, k + 1, ?_⟩
    rwa [Nat.pow_succ, Nat.mul_assoc]

/-- A name that is not found is at least as long as every size within the bound. -/
theorem of_error (hne : name ≠ "") (hs : 0 < size) (h : Questions name size sizes (.error f)) :
    f = .moduleNameTooLong ∧ ∀ k, 2 ^ k * size ≤ maxBufferSize → 2 ^ k * size ≤ name.length := by
  generalize hx : (.error f : Except Failure String) = x at h
  induction h with
  | @pastBound size hb =>
    cases hx
    refine ⟨rfl, fun k hk => ?_⟩
    have hle := Nat.le_mul_of_pos_left size (Nat.two_pow_pos k)
    omega
  | refused hb hst =>
    rcases storedName_cases hst with ⟨-, hl, -⟩ | ⟨-, hl⟩
    · exact absurd (String.length_eq_zero_iff.1 hl.symm) hne
    · omega
  | whole => cases hx
  | cutShort hb hst hn hw rest ih =>
    obtain ⟨rfl, hlong⟩ := ih (by omega) hx
    refine ⟨rfl, fun k hk => ?_⟩
    cases k with
    | zero =>
      rcases storedName_cases hst with ⟨-, hl, -⟩ | ⟨hcut, -⟩
      · omega
      · simpa using hcut
    | succ k =>
      rw [Nat.pow_succ, Nat.mul_assoc] at hk ⊢
      exact hlong k hk

end Questions

/-! ## From the first size on -/

/-- The last of the doubled sizes that is within the bound. -/
def largestBufferSize : Nat := 16640

/-- The eighth doubling of the first size is past twice the bound. -/
theorem doublings_le {k : Nat} (h : 2 ^ k * firstBufferSize ≤ 2 * maxBufferSize) : k ≤ 7 := by
  refine Nat.le_of_not_lt fun hk => ?_
  have hpow : 2 ^ 8 ≤ 2 ^ k := Nat.pow_le_pow_right (by decide) hk
  unfold firstBufferSize maxBufferSize at h
  omega

theorem le_largestBufferSize {k : Nat} (h : 2 ^ k * firstBufferSize ≤ maxBufferSize) :
    2 ^ k * firstBufferSize ≤ largestBufferSize := by
  have hk : k + 1 ≤ 7 := by
    apply doublings_le
    rw [Nat.pow_succ', Nat.mul_assoc]
    exact Nat.mul_le_mul_left 2 h
  have hpow : 2 ^ k ≤ 2 ^ 6 := Nat.pow_le_pow_right (by decide) (Nat.le_of_succ_le_succ hk)
  exact Nat.mul_le_mul_right firstBufferSize hpow

theorem questions_moduleName (name : String) :
    ∃ sizes, Questions name firstBufferSize sizes (moduleName (.path name)) :=
  questions_askModuleName name (by decide)

theorem Questions.length_le {x : Except Failure String} (h : Questions name firstBufferSize sizes x) :
    sizes.length ≤ 7 :=
  doublings_le (h.doubles (by decide))

theorem moduleName_cases (hne : name ≠ "") (hz : '\x00' ∉ name.toList) :
    name.length < largestBufferSize ∧ moduleName (.path name) = .ok name ∨
      largestBufferSize ≤ name.length ∧ moduleName (.path name) = .error .moduleNameTooLong := by
  obtain ⟨sizes, h⟩ := questions_moduleName name
  cases hx : moduleName (.path name) with
  | ok reported =>
    rw [hx] at h
    obtain ⟨rfl, k, hfit, hk⟩ := h.of_ok hz
    exact .inl ⟨Nat.lt_of_lt_of_le hfit (le_largestBufferSize hk), rfl⟩
  | error f =>
    rw [hx] at h
    obtain ⟨rfl, hlong⟩ := h.of_error hne (by decide)
    exact .inr ⟨hlong 6 (by decide), rfl⟩

/-- For every name the questions come to an end, after seven at most. A name without the zero character is found, and
then whole, exactly if it is shorter than the largest buffer; every other such name is reported to be too long. -/
theorem moduleName_found_iff (name : String) :
    (∃ sizes, Questions name firstBufferSize sizes (moduleName (.path name)) ∧ sizes.length ≤ 7) ∧
      (name ≠ "" → '\x00' ∉ name.toList →
        (moduleName (.path name) = .ok name ↔ name.length < largestBufferSize) ∧
          (moduleName (.path name) = .error .moduleNameTooLong ↔ largestBufferSize ≤ name.length)) := by
  constructor
  · obtain ⟨sizes, h⟩ := questions_moduleName name
    exact ⟨sizes, h, h.length_le⟩
  · intro hne hz
    rcases moduleName_cases hne hz with ⟨hfit, hfound⟩ | ⟨hlong, hfound⟩
    · have hnot : ¬largestBufferSize ≤ name.length := Nat.not_le_of_lt hfit
      rw [hfound]
      exact ⟨⟨fun _ => hfit, fun _ => rfl⟩, nofun, fun h => absurd h hnot⟩
    · have hnot : ¬name.length < largestBufferSize := Nat.not_lt_of_le hlong
      rw [hfound]
      exact ⟨⟨nofun, fun h => absurd h hnot⟩, fun _ => hlong, fun _ => rfl⟩

/-- A name of one letter, `n` times. -/
def repeatedName (n : Nat) : String := String.ofList (List.replicate n 'a')

theorem length_repeatedName (n : Nat) : (repeatedName n).length = n := by simp [repeatedName]

theorem zero_not_mem_repeatedName (n : Nat) : '\x00' ∉ (repeatedName n).toList := by simp [repeatedName]

theorem repeatedName_ne_empty {n : Nat} (h : 0 < n) : repeatedName n ≠ "" := by
  intro he
  have hl : (repeatedName n).length = 0 := by rw [he]; rfl
  rw [length_repeatedName] at hl
  omega

/-- The longest name that is found. -/
theorem moduleName_found_iff_longest :
    repeatedName 16639 ≠ "" ∧ '\x00' ∉ (repeatedName 16639).toList ∧
      moduleName (.path (repeatedName 16639)) = .ok (repeatedName 16639) := by
  have hne : repeatedName 16639 ≠ "" := repeatedName_ne_empty (by decide)
  have hz := zero_not_mem_repeatedName 16639
  have hfit : (repeatedName 16639).length < largestBufferSize := by
    rw [length_repeatedName]
    decide
  exact ⟨hne, hz, ((moduleName_found_iff _).2 hne hz).1.2 hfit⟩

/-- A name of 16640 characters is within the bound of 32767, and is not found. -/
theorem long_name_not_found :
    ¬∀ name : String, name ≠ "" → '\x00' ∉ name.toList → name.length ≤ 32767 →
      moduleName (.path name) = .ok name := by
  intro h
  have hne : repeatedName 16640 ≠ "" := repeatedName_ne_empty (by decide)
  have hz := zero_not_mem_repeatedName 16640
  have hl := length_repeatedName 16640
  have hfound := h _ hne hz (by omega)
  rcases moduleName_cases hne hz with ⟨hfit, -⟩ | ⟨-, he⟩
  · rw [hl] at hfit
    cases Nat.lt_irrefl _ hfit
  · cases hfound.symm.trans he

end Whereabouts

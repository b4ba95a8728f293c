import Whereabouts.Session.TempFiles

/-!
# Paths as texts

The text of an absolute path whose names hold no slash is read back as the path, and as its route.
The text of an entry is that of the path with one more name.
-/

namespace Whereabouts

/-! ## Glued texts -/

theorem glue_append_singleton (sep : Char) {ps : List (List Char)} (h : ps ≠ []) (p : List Char) :
    glue sep (ps ++ [p]) = glue sep ps ++ sep :: p := by
  induction ps with
  | nil => exact absurd rfl h
  | cons q ps ih =>
    cases ps with
    | nil => rfl
    | cons r ps =>
      rw [List.cons_append, glue_cons sep q (by simp), ih (by simp), glue_cons sep q (by simp)]
      simp

theorem glue_ne_nil {sep : Char} {ps : List (List Char)} (hne : ps ≠ []) (h : ∀ p ∈ ps, p ≠ []) :
    glue sep ps ≠ [] := by
  cases ps with
  | nil => exact absurd rfl hne
  | cons p ps =>
    have hp : p ≠ [] := h p List.mem_cons_self
    cases ps with
    | nil => exact hp
    | cons q ps => simp [glue]

theorem head?_glue_ne {sep : Char} {ps : List (List Char)} (h : ∀ p ∈ ps, p ≠ [] ∧ sep ∉ p) :
    (glue sep ps).head? ≠ some sep := by
  cases ps with
  | nil => simp [glue]
  | cons p ps =>
    obtain ⟨hp, hs⟩ := h p List.mem_cons_self
    obtain ⟨c, cs, rfl⟩ := List.exists_cons_of_ne_nil hp
    have hh : (glue sep ((c :: cs) :: ps)).head? = some c := by
      cases ps with
      | nil => rfl
      | cons q ps => rfl
    rw [hh]
    intro he
    exact hs (Option.some.inj he ▸ List.mem_cons_self)

theorem getLast?_glue_ne {sep : Char} {ps : List (List Char)} (h : ∀ p ∈ ps, p ≠ [] ∧ sep ∉ p) :
    (glue sep ps).getLast? ≠ some sep := by
  induction ps with
  | nil => simp [glue]
  | cons p ps ih =>
    have ih' := ih fun q hq => h q (List.mem_cons_of_mem p hq)
    cases ps with
    | nil => exact fun he => (h p List.mem_cons_self).2 (List.mem_of_getLast? he)
    | cons q ps =>
      have hne : glue sep (q :: ps) ≠ [] :=
        glue_ne_nil (by simp) fun r hr => (h r (List.mem_cons_of_mem p hr)).1
      rw [glue_cons sep p (by simp), List.getLast?_append, List.getLast?_cons_of_ne_nil hne,
        List.getLast?_eq_some_getLast hne]
      rw [List.getLast?_eq_some_getLast hne] at ih'
      exact ih'

namespace Path

/-- A name that can stand between two slashes. -/
def Plain (n : String) : Prop := n ≠ "" ∧ '/' ∉ n.toList

variable {p : Path} {name : String}

/-! ## The text of an absolute path -/

theorem anchor_of_isAbsolute (ha : p.isAbsolute = true) :
    p.anchor.toString.toList = ['/'] ∨ p.anchor.toString.toList = ['/', '/'] := by
  obtain ⟨anchor, names⟩ := p
  cases anchor with
  | here => cases ha
  | root => exact .inl (by simp [Anchor.toString])
  | doubleRoot => exact .inr (by simp [Anchor.toString])

theorem plain_reverse (h : ∀ n ∈ p.names, Plain n) : ∀ n ∈ p.names.reverse, Plain n :=
  fun n hn => h n (List.mem_reverse.1 hn)

theorem toList_toString (ha : p.isAbsolute = true) :
    p.toString.toList = p.anchor.toString.toList ++ glue '/' (p.names.reverse.map String.toList) := by
  obtain ⟨anchor, names⟩ := p
  cases anchor with
  | here => cases ha
  | root => simp [toString, join]
  | doubleRoot => simp [toString, join]

theorem plain_toList {ns : List String} (h : ∀ n ∈ ns, Plain n) :
    ∀ p ∈ ns.map String.toList, p ≠ [] ∧ '/' ∉ p := by
  intro p hp
  obtain ⟨n, hn, rfl⟩ := List.mem_map.1 hp
  refine ⟨fun he => (h n hn).1 ?_, (h n hn).2⟩
  rw [← String.ofList_toList (s := n), he]

theorem named_glue {ns : List String} (h : ∀ n ∈ ns, Plain n) :
    ((pieces '/' (glue '/' (ns.map String.toList))).map String.ofList).filter (· ≠ "") = ns := by
  by_cases hne : ns = []
  · subst hne
    rfl
  · rw [pieces_glue (by simpa using hne) fun p hp => (plain_toList h p hp).2, List.map_map]
    have hid : (String.ofList ∘ String.toList) = id := by
      funext s
      simp
    rw [hid, List.map_id, List.filter_eq_self]
    exact fun n hn => decide_eq_true (h n hn).1

theorem named_toString (ha : p.isAbsolute = true) (h : ∀ n ∈ p.names, Plain n) :
    (cut '/' p.toString).filter (· ≠ "") = p.names.reverse := by
  have hg := named_glue (plain_reverse h)
  unfold cut
  rw [toList_toString ha]
  rcases anchor_of_isAbsolute ha with hr | hr
  · rw [hr]
    simpa [pieces] using hg
  · rw [hr]
    simpa [pieces] using hg

theorem ofChars_append {anchor : Anchor} (ha : anchor ≠ .here) {cs : List Char}
    (h : cs.head? ≠ some '/') : Anchor.ofChars (anchor.toString.toList ++ cs) = anchor := by
  cases anchor with
  | here => exact absurd rfl ha
  | root =>
    cases cs with
    | nil => rfl
    | cons c cs =>
      have hc : c ≠ '/' := fun he => h (by rw [he]; rfl)
      simp [Anchor.ofChars, Anchor.toString, hc]
  | doubleRoot =>
    cases cs with
    | nil => rfl
    | cons c cs =>
      have hc : c ≠ '/' := fun he => h (by rw [he]; rfl)
      simp [Anchor.ofChars, Anchor.toString, hc]

/-- An absolute path is read back from its text. -/
theorem ofString_toString (ha : p.isAbsolute = true) (h : ∀ n ∈ p.names, Plain n)
    (hd : "." ∉ p.names) : ofString p.toString = p := by
  have hanchor : Anchor.ofChars p.toString.toList = p.anchor := by
    rw [toList_toString ha]
    exact ofChars_append (by simpa [isAbsolute] using ha) (head?_glue_ne (plain_toList (plain_reverse h)))
  have hnames : components p.toString = p.names.reverse := by
    have hf : (p.names.reverse.filter fun n => decide (n ≠ ".")) = p.names.reverse := by
      rw [List.filter_eq_self]
      intro n hn
      refine decide_eq_true fun he => hd ?_
      rw [← he]
      exact List.mem_reverse.1 hn
    rw [← named_toString ha h, List.filter_filter] at hf
    rw [← named_toString ha h, ← hf]
    unfold components
    congr 1
    funext n
    simp [Bool.and_comm]
  unfold ofString
  rw [hanchor, hnames, List.reverse_reverse]

theorem getLast?_toString (ha : p.isAbsolute = true) (h : ∀ n ∈ p.names, Plain n) (hne : p.names ≠ []) :
    p.toString.toList.getLast? ≠ some '/' := by
  have hp := plain_toList (plain_reverse h)
  have hg : glue '/' (p.names.reverse.map String.toList) ≠ [] :=
    glue_ne_nil (by simpa using hne) fun q hq => (hp q hq).1
  have hl := getLast?_glue_ne hp
  rw [toList_toString ha, List.getLast?_append, List.getLast?_eq_some_getLast hg]
  rw [List.getLast?_eq_some_getLast hg] at hl
  exact hl

theorem getLast?_child_empty (ha : p.isAbsolute = true) :
    (p.child "").toString.toList.getLast? = some '/' := by
  have hc : (p.child "").isAbsolute = true := ha
  have hn : (p.child "").names.reverse.map String.toList = p.names.reverse.map String.toList ++ [[]] := by
    simp [child]
  rw [toList_toString hc, hn]
  by_cases hnil : p.names.reverse.map String.toList = []
  · rw [hnil]
    rcases anchor_of_isAbsolute hc with hr | hr
    · rw [hr]
      rfl
    · rw [hr]
      rfl
  · rw [glue_append_singleton '/' hnil, List.getLast?_append, List.getLast?_append]
    rfl

theorem route_toString (ha : p.isAbsolute = true) (h : ∀ n ∈ p.names, Plain n) :
    Route.ofString p.toString = { absolute := true, steps := p.names.reverse } := by
  have hroot : p.toString.toList.head? = some '/' := by
    rw [toList_toString ha]
    rcases anchor_of_isAbsolute ha with hr | hr
    · rw [hr]
      rfl
    · rw [hr]
      rfl
  have hsteps : Route.stepsOf p.toString = p.names.reverse := by
    unfold Route.stepsOf
    rw [named_toString ha h]
    by_cases hne : p.names = []
    · simp [hne]
    · simp [getLast?_toString ha h hne]
  unfold Route.ofString
  rw [hroot, hsteps]
  rfl

/-! ## The text of a name -/

theorem ofString_of_isName (h : isName name = true) : ofString name = ⟨.here, [name]⟩ := by
  simp only [isName, Bool.and_eq_true, decide_eq_true_eq, Bool.not_eq_true'] at h
  obtain ⟨⟨⟨hempty, hdot⟩, -⟩, hslash⟩ := h
  have hs : '/' ∉ name.toList := by simpa using hslash
  have hanchor : Anchor.ofChars name.toList = .here := by
    unfold Anchor.ofChars
    split
    · next he => exact absurd (he ▸ List.mem_cons_self) hs
    · next he => exact absurd (he ▸ List.mem_cons_self) hs
    · next he => exact absurd (he ▸ List.mem_cons_self) hs
    · rfl
  have hcut : components name = [name] := by
    unfold components
    rw [cut_of_not_mem hs]
    simp [hempty, hdot]
  unfold ofString
  rw [hanchor, hcut]
  rfl

/-! ## The text of an entry -/

theorem entryText_of_name {dir : String} (hn : '/' ∉ name.toList) :
    entryText dir name = if dir.toList.getLast? = some '/' then dir ++ name else dir ++ "/" ++ name := by
  have hb : beginsWith name "/" = false := by
    rw [← Bool.not_eq_true]
    intro hb
    obtain ⟨cs, hcs⟩ := List.isPrefixOf_iff_prefix.1 hb
    exact hn (hcs ▸ List.mem_cons_self)
  unfold entryText
  rw [hb, if_neg Bool.false_ne_true]
  rfl

theorem entryText_toString (ha : p.isAbsolute = true) (h : ∀ n ∈ p.names, Plain n)
    (hn : '/' ∉ name.toList) : entryText p.toString name = (p.child name).toString := by
  have hc : (p.child name).isAbsolute = true := ha
  refine String.toList_inj.1 ?_
  rw [toList_toString hc, entryText_of_name hn]
  unfold child
  by_cases hne : p.names = []
  · have hl : p.toString.toList.getLast? = some '/' := by
      rw [toList_toString ha, hne]
      rcases anchor_of_isAbsolute ha with hr | hr
      · rw [hr]
        rfl
      · rw [hr]
        rfl
    rw [if_pos hl, String.toList_append, toList_toString ha, hne]
    simp [glue]
  · rw [if_neg (getLast?_toString ha h hne)]
    have hnil : p.names.reverse.map String.toList ≠ [] := by simpa using hne
    have hg := glue_append_singleton '/' hnil name.toList
    simp only [List.reverse_cons, List.map_append, List.map_cons, List.map_nil]
    rw [hg, String.toList_append, String.toList_append, toList_toString ha]
    simp

end Path

end Whereabouts

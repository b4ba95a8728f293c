import Whereabouts.FileTree.Walk

/-!
# Where steps lead

`Leads` is the walk as a relation: one constructor for each thing that a step
can do, with the number of links that may still be followed. The walk finds
exactly what steps lead to (`walkLinks_ok_iff`), so facts about walks are
proved by induction on `Leads`.
-/

namespace Whereabouts.FileTree

/-- A name that stands for an entry of a directory. -/
structure EntryName (name : String) : Prop where
  ne_empty : name ≠ ""
  ne_dot : name ≠ "."
  ne_parent : name ≠ ".."
  short : name.utf8ByteSize ≤ maxNameBytes

/-- A directory whose entries can be reached. -/
def Opens (t : FileTree) (loc : Location) : Prop :=
  ∃ mode : Mode, t.get? loc = some (.dir mode) ∧ mode.searchable = true

inductive Leads (t : FileTree) (follow : Bool) : Nat → Location → List String → Reached → Prop where
  | done {n : Nat} {loc : Location} {node : Node} (h : t.get? loc = some node) :
      Leads t follow n loc [] (.entry loc node)
  | slash {n : Nat} {loc : Location} {rest : List String} {r : Reached}
      (h : Leads t follow n loc rest r) : Leads t follow n loc ("" :: rest) r
  | dot {n : Nat} {loc : Location} {rest : List String} {r : Reached} (ho : t.Opens loc)
      (h : Leads t follow n loc rest r) : Leads t follow n loc ("." :: rest) r
  | up {n : Nat} {loc : Location} {rest : List String} {r : Reached} (ho : t.Opens loc)
      (h : Leads t follow n loc.tail rest r) : Leads t follow n loc (".." :: rest) r
  | vacant {n : Nat} {loc : Location} {name : String} (ho : t.Opens loc) (hn : EntryName name)
      (hg : t.get? (name :: loc) = none) : Leads t follow n loc [name] (.vacant loc name)
  | dir {n : Nat} {loc : Location} {name : String} {rest : List String} {r : Reached} {mode : Mode}
      (ho : t.Opens loc) (hn : EntryName name) (hg : t.get? (name :: loc) = some (.dir mode))
      (h : Leads t follow n (name :: loc) rest r) : Leads t follow n loc (name :: rest) r
  | file {n : Nat} {loc : Location} {name : String} {mode : Mode} {text : String}
      (ho : t.Opens loc) (hn : EntryName name) (hg : t.get? (name :: loc) = some (.file mode text)) :
      Leads t follow n loc [name] (.entry (name :: loc) (.file mode text))
  | stay {n : Nat} {loc : Location} {name target : String} (ho : t.Opens loc) (hn : EntryName name)
      (hg : t.get? (name :: loc) = some (.link target)) (hf : follow = false) :
      Leads t follow n loc [name] (.entry (name :: loc) (.link target))
  | link {n : Nat} {loc : Location} {name target : String} {rest : List String} {r : Reached}
      (ho : t.Opens loc) (hn : EntryName name) (hg : t.get? (name :: loc) = some (.link target))
      (hf : rest ≠ [] ∨ follow = true)
      (h : Leads t follow n (if (Route.ofString target).absolute then [] else loc)
        ((Route.ofString target).steps ++ rest) r) : Leads t follow (n + 1) loc (name :: rest) r

/-! ## The walk -/

/-- What follows a link when so many more may be followed. -/
def jumps (t : FileTree) (follow : Bool) : Nat → Location → List String → Except Refusal Reached
  | 0 => fun _ _ => .error .tooManyLinks
  | n + 1 => walkLinks t follow n

theorem walkLinks_eq (t : FileTree) (follow : Bool) (n : Nat) :
    walkLinks t follow n = descend t follow (jumps t follow n) := by
  cases n <;> rfl

section
variable {t : FileTree} {follow : Bool} {jump : Location → List String → Except Refusal Reached}
  {loc : Location} {name : String}

theorem descend_cons (hn : name ≠ "") (rest : List String) :
    descend t follow jump loc (name :: rest) =
      match t.get? loc with
      | some (.dir mode) =>
        if !mode.searchable then .error .denied
        else if name = "." then descend t follow jump loc rest
        else if name = ".." then descend t follow jump loc.tail rest
        else if maxNameBytes < name.utf8ByteSize then .error .nameTooLong
        else match t.get? (name :: loc) with
          | none => if rest.isEmpty then .ok (.vacant loc name) else .error .noEntry
          | some (.dir _) => descend t follow jump (name :: loc) rest
          | some (.file mode text) =>
            if rest.isEmpty then .ok (.entry (name :: loc) (.file mode text))
            else .error .notDirectory
          | some (.link target) =>
            if rest.isEmpty && !follow then .ok (.entry (name :: loc) (.link target))
            else jump (if (Route.ofString target).absolute then [] else loc)
              ((Route.ofString target).steps ++ rest)
      | _ => .error .notDirectory :=
  descend.eq_3 t follow jump loc name rest hn

theorem opens_of_descend (hn : name ≠ "") {rest : List String} {r : Reached}
    (h : descend t follow jump loc (name :: rest) = .ok r) : t.Opens loc := by
  rw [descend_cons hn] at h
  split at h
  · next mode hd =>
    cases hs : mode.searchable with
    | false => simp [hs] at h
    | true => exact ⟨mode, hd, hs⟩
  · cases h

theorem descend_dot (ho : t.Opens loc) (rest : List String) :
    descend t follow jump loc ("." :: rest) = descend t follow jump loc rest := by
  obtain ⟨mode, hd, hs⟩ := ho
  rw [descend_cons (by decide)]
  simp [hd, hs]

theorem descend_up (ho : t.Opens loc) (rest : List String) :
    descend t follow jump loc (".." :: rest) = descend t follow jump loc.tail rest := by
  obtain ⟨mode, hd, hs⟩ := ho
  rw [descend_cons (by decide)]
  simp [hd, hs]

theorem short_of_descend (hn : name ≠ "") (hd : name ≠ ".") (hp : name ≠ "..") {rest : List String}
    {r : Reached} (h : descend t follow jump loc (name :: rest) = .ok r) : EntryName name := by
  obtain ⟨mode, hm, hs⟩ := opens_of_descend hn h
  refine ⟨hn, hd, hp, Nat.le_of_not_lt fun hl => ?_⟩
  rw [descend_cons hn] at h
  simp [hm, hs, hd, hp, hl] at h

theorem descend_entry (ho : t.Opens loc) (hn : EntryName name) (rest : List String) :
    descend t follow jump loc (name :: rest) =
      match t.get? (name :: loc) with
      | none => if rest.isEmpty then .ok (.vacant loc name) else .error .noEntry
      | some (.dir _) => descend t follow jump (name :: loc) rest
      | some (.file mode text) =>
        if rest.isEmpty then .ok (.entry (name :: loc) (.file mode text))
        else .error .notDirectory
      | some (.link target) =>
        if rest.isEmpty && !follow then .ok (.entry (name :: loc) (.link target))
        else jump (if (Route.ofString target).absolute then [] else loc)
          ((Route.ofString target).steps ++ rest) := by
  obtain ⟨mode, hd, hs⟩ := ho
  rw [descend_cons hn.ne_empty, hd]
  simp only [hs, Bool.not_true, Bool.false_eq_true, ite_false, hn.ne_dot, hn.ne_parent,
    Nat.not_lt.2 hn.short]

end

variable {t : FileTree} {follow : Bool}

theorem leads_of_descend {n : Nat}
    (hj : ∀ loc steps r, jumps t follow n loc steps = .ok r →
      ∃ k, n = k + 1 ∧ Leads t follow k loc steps r) :
    ∀ (steps : List String) (loc : Location) (r : Reached),
      descend t follow (jumps t follow n) loc steps = .ok r → Leads t follow n loc steps r
  | [], loc, r, h => by
    rw [descend] at h
    split at h
    · next hg => cases h; exact .done hg
    · cases h
  | name :: rest, loc, r, h => by
    have ih := leads_of_descend hj rest
    by_cases hn : name = ""
    · subst hn
      rw [descend] at h
      exact .slash (ih loc r h)
    have ho := opens_of_descend hn h
    by_cases hd : name = "."
    · subst hd
      rw [descend_dot ho] at h
      exact .dot ho (ih loc r h)
    by_cases hp : name = ".."
    · subst hp
      rw [descend_up ho] at h
      exact .up ho (ih loc.tail r h)
    have he := short_of_descend hn hd hp h
    rw [descend_entry ho he] at h
    split at h
    · next hg =>
      split at h
      · next hr => cases List.isEmpty_iff.1 hr; cases h; exact .vacant ho he hg
      · cases h
    · next hg => exact .dir ho he hg (ih (name :: loc) r h)
    · next hg =>
      split at h
      · next hr => cases List.isEmpty_iff.1 hr; cases h; exact .file ho he hg
      · cases h
    · next hg =>
      split at h
      · next hr =>
        simp only [Bool.and_eq_true, List.isEmpty_iff, Bool.not_eq_true'] at hr
        cases hr.1
        cases h
        exact .stay ho he hg hr.2
      · next hr =>
        have hf : rest ≠ [] ∨ follow = true := by
          by_cases hr' : rest = []
          · right
            simpa [hr'] using hr
          · exact .inl hr'
        obtain ⟨k, rfl, hk⟩ := hj _ _ _ h
        exact .link ho he hg hf hk

theorem walkLinks_ok_iff {n : Nat} {loc : Location} {steps : List String} {r : Reached} :
    walkLinks t follow n loc steps = .ok r ↔ Leads t follow n loc steps r := by
  constructor
  · intro h
    induction n generalizing loc steps r with
    | zero =>
      refine leads_of_descend (fun loc steps r h => ?_) steps loc r h
      cases h
    | succ n ih =>
      refine leads_of_descend (fun loc steps r h => ?_) steps loc r h
      exact ⟨n, rfl, ih h⟩
  · intro h
    induction h with
    | done hg => rw [walkLinks_eq, descend, hg]
    | slash _ ih =>
      rw [walkLinks_eq] at ih ⊢
      rw [descend]
      exact ih
    | dot ho _ ih =>
      rw [walkLinks_eq] at ih ⊢
      rw [descend_dot ho]
      exact ih
    | up ho _ ih =>
      rw [walkLinks_eq] at ih ⊢
      rw [descend_up ho]
      exact ih
    | vacant ho hn hg => rw [walkLinks_eq, descend_entry ho hn, hg]; rfl
    | dir ho hn hg _ ih =>
      rw [walkLinks_eq] at ih ⊢
      rw [descend_entry ho hn, hg]
      exact ih
    | file ho hn hg => rw [walkLinks_eq, descend_entry ho hn, hg]; rfl
    | stay ho hn hg hf => rw [walkLinks_eq, descend_entry ho hn, hg, hf]; rfl
    | @link n loc name target rest r ho hn hg hf _ ih =>
      have hc : ¬(rest.isEmpty && !follow) = true := by
        rcases hf with hf | hf
        · simp [hf]
        · simp [hf]
      rw [walkLinks_eq, descend_entry ho hn, hg]
      dsimp only
      rw [if_neg hc]
      exact ih

theorem leads_unique {n : Nat} {loc : Location} {steps : List String} {r r' : Reached}
    (h : Leads t follow n loc steps r) (h' : Leads t follow n loc steps r') : r = r' := by
  rw [← walkLinks_ok_iff] at h h'
  rw [h] at h'
  exact Except.ok.inj h'

/-! ## The first step -/

section
variable {n : Nat} {loc : Location} {name : String} {rest : List String} {r : Reached}

theorem Leads.of_blank (h : Leads t follow n loc (name :: rest) r) (hn : name = "" ∨ name = ".") :
    Leads t follow n loc rest r := by
  cases h with
  | slash h => exact h
  | dot _ h => exact h
  | up => exact absurd hn (by decide)
  | vacant _ he => exact absurd hn (not_or.2 ⟨he.ne_empty, he.ne_dot⟩)
  | dir _ he => exact absurd hn (not_or.2 ⟨he.ne_empty, he.ne_dot⟩)
  | file _ he => exact absurd hn (not_or.2 ⟨he.ne_empty, he.ne_dot⟩)
  | stay _ he => exact absurd hn (not_or.2 ⟨he.ne_empty, he.ne_dot⟩)
  | link _ he => exact absurd hn (not_or.2 ⟨he.ne_empty, he.ne_dot⟩)

theorem Leads.of_parent (h : Leads t follow n loc (name :: rest) r) (hn : name = "..") :
    Leads t follow n loc.tail rest r := by
  cases h with
  | slash => exact absurd hn (by decide)
  | dot => exact absurd hn (by decide)
  | up _ h => exact h
  | vacant _ he => exact absurd hn he.ne_parent
  | dir _ he => exact absurd hn he.ne_parent
  | file _ he => exact absurd hn he.ne_parent
  | stay _ he => exact absurd hn he.ne_parent
  | link _ he => exact absurd hn he.ne_parent

theorem Leads.of_dir (h : Leads t follow n loc (name :: rest) r) (hn : EntryName name) {mode : Mode}
    (hg : t.get? (name :: loc) = some (.dir mode)) : Leads t follow n (name :: loc) rest r := by
  cases h with
  | slash => exact absurd rfl hn.ne_empty
  | dot => exact absurd rfl hn.ne_dot
  | up => exact absurd rfl hn.ne_parent
  | vacant _ _ hg' => rw [hg] at hg'; cases hg'
  | dir _ _ _ h => exact h
  | file _ _ hg' => rw [hg] at hg'; cases hg'
  | stay _ _ hg' => rw [hg] at hg'; cases hg'
  | link _ _ hg' => rw [hg] at hg'; cases hg'

theorem Leads.of_file (h : Leads t follow n loc (name :: rest) r) (hn : EntryName name) {mode : Mode}
    {text : String} (hg : t.get? (name :: loc) = some (.file mode text)) :
    rest = [] ∧ r = .entry (name :: loc) (.file mode text) := by
  cases h with
  | slash => exact absurd rfl hn.ne_empty
  | dot => exact absurd rfl hn.ne_dot
  | up => exact absurd rfl hn.ne_parent
  | vacant _ _ hg' => rw [hg] at hg'; cases hg'
  | dir _ _ hg' => rw [hg] at hg'; cases hg'
  | file _ _ hg' =>
    rw [hg] at hg'
    cases hg'
    exact ⟨rfl, rfl⟩
  | stay _ _ hg' => rw [hg] at hg'; cases hg'
  | link _ _ hg' => rw [hg] at hg'; cases hg'

theorem Leads.of_link (h : Leads t true n loc (name :: rest) r) (hn : EntryName name) {target : String}
    (hg : t.get? (name :: loc) = some (.link target)) :
    ∃ k, n = k + 1 ∧ Leads t true k (if (Route.ofString target).absolute then [] else loc)
      ((Route.ofString target).steps ++ rest) r := by
  cases h with
  | slash => exact absurd rfl hn.ne_empty
  | dot => exact absurd rfl hn.ne_dot
  | up => exact absurd rfl hn.ne_parent
  | vacant _ _ hg' => rw [hg] at hg'; cases hg'
  | dir _ _ hg' => rw [hg] at hg'; cases hg'
  | file _ _ hg' => rw [hg] at hg'; cases hg'
  | stay _ _ _ hf => cases hf
  | link _ _ hg' _ h =>
    rw [hg] at hg'
    cases hg'
    exact ⟨_, rfl, h⟩

/-- A last name that is not followed leads to its own place. -/
theorem Leads.of_last {l : Location} {node : Node} (h : Leads t false n loc [name] (.entry l node))
    (hn : ¬(name = "" ∨ name = ".")) (hp : name ≠ "..") :
    t.Opens loc ∧ EntryName name ∧ l = name :: loc ∧ t.get? l = some node := by
  cases h with
  | slash => exact absurd (.inl rfl) hn
  | dot => exact absurd (.inr rfl) hn
  | up => exact absurd rfl hp
  | dir ho he hg h =>
    cases h with
    | done hg' => exact ⟨ho, he, rfl, hg'⟩
  | file ho he hg => exact ⟨ho, he, rfl, hg⟩
  | stay ho he hg => exact ⟨ho, he, rfl, hg⟩
  | link _ _ _ hf => simp at hf

end

/-! ## Walks from the working directory -/

/-- Where a walk along a route starts, if it can start at all. -/
def startOf (here : Option Location) (r : Route) : Option Location :=
  if r.absolute then some [] else if r.steps = [] then none else here

theorem walk_ok_iff {here : Option Location} {r : Route} {x : Reached} :
    t.walk here follow r = .ok x ↔
      r.hasZero = false ∧ ∃ loc, startOf here r = some loc ∧
        Leads t follow maxLinks loc r.steps x := by
  unfold walk startOf
  cases r.hasZero with
  | true => simp
  | false =>
    cases r.absolute with
    | true => simp [walkLinks_ok_iff]
    | false =>
      cases hs : r.steps with
      | nil => simp
      | cons s ss => cases here <;> simp [walkLinks_ok_iff]

theorem stat_ok_iff {here : Option Location} {r : Route} {loc : Location} {node : Node} :
    t.stat here r = .ok (loc, node) ↔ t.walk here true r = .ok (.entry loc node) := by
  unfold stat
  cases t.walk here true r with
  | error e => exact ⟨fun h => (by cases h), fun h => (by cases h)⟩
  | ok x =>
    cases x with
    | entry l nd => exact ⟨fun h => by cases h; rfl, fun h => by cases h; rfl⟩
    | vacant l name => exact ⟨fun h => (by cases h), fun h => (by cases h)⟩

theorem lstat_ok_iff {here : Option Location} {r : Route} {loc : Location} {node : Node} :
    t.lstat here r = .ok (loc, node) ↔ t.walk here false r = .ok (.entry loc node) := by
  unfold lstat
  cases t.walk here false r with
  | error e => exact ⟨fun h => (by cases h), fun h => (by cases h)⟩
  | ok x =>
    cases x with
    | entry l nd => exact ⟨fun h => by cases h; rfl, fun h => by cases h; rfl⟩
    | vacant l name => exact ⟨fun h => (by cases h), fun h => (by cases h)⟩

theorem isDirectory_iff {here : Option Location} {r : Route} :
    t.isDirectory here r = .ok true ↔ ∃ loc mode, t.stat here r = .ok (loc, .dir mode) := by
  unfold isDirectory
  split
  · next loc mode hs => simp [hs]
  · next x hx hs =>
    constructor
    · intro h; cases h
    · intro ⟨loc, mode, h⟩
      rw [hs] at h
      cases h
      exact absurd rfl (hx loc mode)
  all_goals next hs => simp [hs]

end Whereabouts.FileTree

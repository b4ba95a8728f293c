import Whereabouts.Proofs.FileTree.Growth

/-!
# What canonical paths name

`Unwinds` is the search for a canonical path as a relation, one constructor for each thing that a
component can be. While the components are resolved the path so far stands free of links
(`Resolved`), so a canonical path names a node that the system finds by it (`canonical_ok`), the one
that the original path leads to (`canonical_same`). A canonical path stays one as the tree grows.
-/

namespace Whereabouts.FileTree

inductive Unwinds (t : FileTree) (here : Option Location) :
    Nat → List Path → Path → List String → Path → Prop where
  | done {n : Nat} {active : List Path} {p : Path} : Unwinds t here n active p [] p
  | skip {n : Nat} {active : List Path} {p q : Path} {name : String} {rest : List String}
      (hn : name = "" ∨ name = ".") (h : Unwinds t here n active p rest q) :
      Unwinds t here n active p (name :: rest) q
  | up {n : Nat} {active : List Path} {p q : Path} {rest : List String}
      (h : Unwinds t here n active { p with names := Path.push p.isAbsolute p.names ".." } rest q) :
      Unwinds t here n active p (".." :: rest) q
  | entry {n : Nat} {active : List Path} {p q : Path} {name : String} {rest : List String}
      {loc : Location} {node : Node} (hn : ¬(name = "" ∨ name = ".")) (hp : name ≠ "..")
      (hl : t.lstat here (p.child name).route = .ok (loc, node)) (hd : ∀ target, node ≠ .link target)
      (h : Unwinds t here n active (p.child name) rest q) : Unwinds t here n active p (name :: rest) q
  | link {n : Nat} {active : List Path} {p p' q : Path} {name target : String} {rest : List String}
      {loc : Location} (hn : ¬(name = "" ∨ name = ".")) (hp : name ≠ "..")
      (hl : t.lstat here (p.child name).route = .ok (loc, .link target)) (ha : p.child name ∉ active)
      (h : Unwinds t here n (p.child name :: active)
        (if (Route.ofString target).absolute then ⟨.root, []⟩ else p) (Route.ofString target).steps p')
      (h' : Unwinds t here (n + 1) active p' rest q) :
      Unwinds t here (n + 1) active p (name :: rest) q

/-! ## The search -/

/-- How the targets of links are resolved when so many more may be inside one another. -/
def targets (t : FileTree) (here : Option Location) :
    Nat → List Path → Path → List String → Except Uncanonical Path
  | 0 => fun active p _ => .error (.loop (active.headD p))
  | n + 1 => unwindLinks t here n

theorem unwindLinks_eq (t : FileTree) (here : Option Location) (n : Nat) :
    unwindLinks t here n = unwind t here (targets t here n) := by
  cases n <;> rfl

variable {t : FileTree} {here : Option Location}

theorem unwinds_of_unwind {n : Nat} {active : List Path}
    (ht : ∀ active p steps q, targets t here n active p steps = .ok q →
      ∃ k, n = k + 1 ∧ Unwinds t here k active p steps q) :
    ∀ (steps : List String) (p q : Path),
      unwind t here (targets t here n) active p steps = .ok q → Unwinds t here n active p steps q
  | [], p, q, h => by
    rw [unwind] at h
    cases h
    exact .done
  | name :: rest, p, q, h => by
    have ih : ∀ p q, _ → Unwinds t here n active p rest q := unwinds_of_unwind ht rest
    rw [unwind] at h
    split at h
    · next hn => exact .skip hn (ih p q h)
    · next hn =>
      split at h
      · next hp =>
        subst hp
        exact .up (ih _ q h)
      · next hp =>
        dsimp only at h
        split at h
        · cases h
        · next hl =>
          split at h
          · cases h
          · next ha =>
            split at h
            · cases h
            · next p' he =>
              obtain ⟨k, rfl, hk⟩ := ht _ _ _ _ he
              exact .link hn hp hl ha hk (ih p' q h)
        · next x hx hl =>
          obtain ⟨loc, node⟩ := x
          refine .entry hn hp hl (fun target hd => ?_) (ih _ q h)
          exact hx loc target (by rw [hd])

theorem unwindLinks_ok_iff {n : Nat} {active : List Path} {p q : Path} {steps : List String} :
    unwindLinks t here n active p steps = .ok q ↔ Unwinds t here n active p steps q := by
  constructor
  · intro h
    rw [unwindLinks_eq] at h
    induction n generalizing active p q steps with
    | zero =>
      refine unwinds_of_unwind (fun active p steps q h => ?_) steps p q h
      cases h
    | succ n ih =>
      refine unwinds_of_unwind (fun active p steps q h => ?_) steps p q h
      refine ⟨n, rfl, ih ?_⟩
      rw [← unwindLinks_eq]
      exact h
  · intro h
    induction h with
    | done => rw [unwindLinks_eq, unwind]
    | skip hn _ ih =>
      rw [unwindLinks_eq] at ih ⊢
      rw [unwind, if_pos hn]
      exact ih
    | up _ ih =>
      rw [unwindLinks_eq] at ih ⊢
      rw [unwind, if_neg (by decide), if_pos rfl]
      exact ih
    | @entry _ _ _ _ _ _ loc node hn hp hl hd _ ih =>
      rw [unwindLinks_eq] at ih ⊢
      rw [unwind, if_neg hn, if_neg hp]
      dsimp only
      rw [hl]
      cases node with
      | dir mode => exact ih
      | file mode text => exact ih
      | link target => exact absurd rfl (hd target)
    | link hn hp hl ha _ _ ih ih' =>
      rw [unwindLinks_eq t here (_ + 1)] at ih' ⊢
      rw [unwind, if_neg hn, if_neg hp]
      dsimp only
      rw [hl]
      dsimp only
      rw [if_neg ha]
      simp only [targets]
      rw [ih]
      exact ih'

/-! ## Standing free of links -/

/-- The way down to the location is open, by names that a route may hold. -/
def Clear (t : FileTree) : Location → Prop
  | [] => True
  | name :: loc => EntryName name ∧ '\x00' ∉ name.toList ∧ t.Opens loc ∧ Clear t loc

/-- The location can be reached, and what is there is no link. -/
structure Stands (t : FileTree) (loc : Location) : Prop where
  clear : t.Clear loc
  node : ∃ node, t.get? loc = some node ∧ ∀ target, node ≠ .link target

theorem stands_of_opens {loc : Location} (hc : t.Clear loc) (ho : t.Opens loc) : t.Stands loc := by
  obtain ⟨mode, hd, -⟩ := ho
  exact ⟨hc, .dir mode, hd, fun target he => by cases he⟩

theorem Stands.tail {loc : Location} (h : t.Stands loc) : t.Stands loc.tail := by
  cases loc with
  | nil => exact h
  | cons name loc =>
    obtain ⟨-, -, ho, hc⟩ := h.clear
    exact stands_of_opens hc ho

theorem Stands.root {loc : Location} (h : t.Stands loc) : t.Stands [] := by
  induction loc with
  | nil => exact h
  | cons name loc ih => exact ih h.tail

theorem Clear.mem {loc : Location} (h : t.Clear loc) {n : String} (hn : n ∈ loc) :
    EntryName n ∧ '\x00' ∉ n.toList := by
  induction loc with
  | nil => cases hn
  | cons name loc ih =>
    obtain ⟨he, hz, -, hc⟩ := h
    rcases List.mem_cons.1 hn with rfl | hn
    · exact ⟨he, hz⟩
    · exact ih hc hn

theorem Clear.parent_not_mem {loc : Location} (h : t.Clear loc) : ".." ∉ loc :=
  fun hm => (h.mem hm).1.ne_parent rfl

theorem Clear.leads {follow : Bool} {n : Nat} {loc : Location} {rest : List String} {r : Reached}
    (hc : t.Clear loc) (ho : t.Opens loc) (h : Leads t follow n loc rest r) :
    Leads t follow n [] (loc.reverse ++ rest) r := by
  induction loc generalizing rest with
  | nil => exact h
  | cons name loc ih =>
    obtain ⟨hn, -, ho', hc'⟩ := hc
    obtain ⟨mode, hd, -⟩ := ho
    rw [List.reverse_cons, List.append_assoc]
    exact ih hc' ho' (.dir ho' hn hd h)

theorem Stands.leads {follow : Bool} {n : Nat} {loc : Location} (h : t.Stands loc) :
    ∃ node, Leads t follow n [] loc.reverse (.entry loc node) := by
  obtain ⟨hc, node, hg, hl⟩ := h
  refine ⟨node, ?_⟩
  cases loc with
  | nil => exact .done hg
  | cons name loc =>
    obtain ⟨hn, -, ho, hc'⟩ := hc
    rw [List.reverse_cons]
    refine hc'.leads ho ?_
    cases node with
    | dir mode => exact .dir ho hn hg (.done hg)
    | file mode text => exact .file ho hn hg
    | link target => exact absurd rfl (hl target)

theorem Grows.clear {t' : FileTree} (hg : Grows t t') {loc : Location} (h : t.Clear loc) : t'.Clear loc := by
  induction loc with
  | nil => trivial
  | cons name loc ih =>
    obtain ⟨hn, hz, ho, hc⟩ := h
    exact ⟨hn, hz, hg.opens ho, ih hc⟩

theorem Grows.stands {t' : FileTree} (hg : Grows t t') {loc : Location} (h : t.Stands loc) :
    t'.Stands loc := by
  obtain ⟨hc, node, hn, hl⟩ := h
  exact ⟨hg.clear hc, node, hg.keeps hn, hl⟩

theorem route_of_isAbsolute {p : Path} (h : p.isAbsolute = true) :
    p.route = { absolute := true, steps := p.names.reverse } := by
  obtain ⟨anchor, names⟩ := p
  cases anchor with
  | here => cases h
  | root => rfl
  | doubleRoot => rfl

theorem Stands.walk {follow : Bool} {p : Path} (hp : p.isAbsolute = true) (h : t.Stands p.names) :
    ∃ node, t.walk here follow p.route = .ok (.entry p.names node) := by
  obtain ⟨node, hl⟩ := h.leads
  refine ⟨node, walk_ok_iff.2 ⟨?_, [], ?_, ?_⟩⟩
  · rw [route_of_isAbsolute hp, Route.hasZero, List.any_eq_false]
    intro s hs
    rw [Bool.not_eq_true, ← Bool.not_eq_true, List.contains_iff_mem]
    exact (h.clear.mem (List.mem_reverse.1 hs)).2
  · rw [route_of_isAbsolute hp]
    rfl
  · rw [route_of_isAbsolute hp]
    exact hl

/-! ## The path so far -/

/-- Where a path leads if no name on it is a link. -/
def spot (here : Option Location) (p : Path) : Location :=
  p.names.reverse.foldl (Path.push true) (if p.isAbsolute then [] else here.getD [])

/-- Every beginning of the path stands free of links, and parent components are left only at the
beginning of a relative path. -/
structure Resolved (t : FileTree) (here : Option Location) (p : Path) : Prop where
  stands : ∀ names, names <:+ p.names → t.Stands (spot here ⟨p.anchor, names⟩)
  rooted : p.isAbsolute = true → ".." ∉ p.names

theorem spot_cons {anchor : Anchor} {name : String} {names : List String} :
    spot here ⟨anchor, name :: names⟩ = Path.push true (spot here ⟨anchor, names⟩) name := by
  unfold spot
  rw [List.reverse_cons, List.foldl_append]
  rfl

theorem spot_child {p : Path} {name : String} (hn : name ≠ "..") :
    spot here (p.child name) = name :: spot here p := by
  obtain ⟨anchor, names⟩ := p
  exact spot_cons.trans (Path.push_of_ne hn)

theorem push_parent_of_not_mem {loc : Location} (h : ".." ∉ loc) : Path.push true loc ".." = loc.tail := by
  cases loc with
  | nil => rfl
  | cons name loc =>
    have hn : name ≠ ".." := fun he => h (he ▸ List.mem_cons_self)
    simp [Path.push, hn]

theorem Stands.push_parent {loc : Location} (h : t.Stands loc) : Path.push true loc ".." = loc.tail :=
  push_parent_of_not_mem h.clear.parent_not_mem

theorem Resolved.self {p : Path} (h : Resolved t here p) : t.Stands (spot here p) :=
  h.stands p.names (List.suffix_refl _)

theorem Resolved.start {p : Path} (h : t.Stands (if p.isAbsolute then [] else here.getD []))
    (hp : p.names = []) : Resolved t here p where
  stands names hs := by
    rw [hp, List.suffix_nil] at hs
    subst hs
    exact h
  rooted _ := by simp [hp]

theorem Resolved.root {p : Path} (h : Resolved t here p) : Resolved t here ⟨.root, []⟩ :=
  .start h.self.root rfl

theorem Resolved.suffix {p : Path} (h : Resolved t here p) {names : List String}
    (hs : names <:+ p.names) : Resolved t here ⟨p.anchor, names⟩ where
  stands ns hns := h.stands ns (hns.trans hs)
  rooted ha hm := h.rooted ha (hs.subset hm)

theorem Resolved.push {p : Path} {name : String} (h : Resolved t here p)
    (hs : t.Stands (spot here (p.child name))) (hr : p.isAbsolute = true → name ≠ "..") :
    Resolved t here (p.child name) where
  stands ns hns := by
    rcases List.suffix_cons_iff.1 hns with he | hns
    · rw [he]
      exact hs
    · exact h.stands ns hns
  rooted ha hm := by
    rcases List.mem_cons.1 hm with he | hm
    · exact hr ha he.symm
    · exact h.rooted ha hm

/-- The path one level up: the root as it is, one more parent component on a relative path, or a name less. -/
theorem push_parent_cases {p : Path} (hr : p.isAbsolute = true → ".." ∉ p.names) :
    let up : Path := { p with names := Path.push p.isAbsolute p.names ".." }
    (p.isAbsolute = true ∧ p.names = [] ∧ up = p) ∨ (p.isAbsolute = false ∧ up = p.child "..") ∨
      ∃ top rest, p.names = top :: rest ∧ top ≠ ".." ∧ up = ⟨p.anchor, rest⟩ := by
  obtain ⟨anchor, names⟩ := p
  cases names with
  | nil =>
    cases ha : (Path.mk anchor []).isAbsolute with
    | true => exact .inl ⟨rfl, rfl, by simp [Path.push]⟩
    | false => exact .inr (.inl ⟨rfl, by simp [Path.push, Path.child]⟩)
  | cons top rest =>
    by_cases ht : top = ".."
    · have ha : (Path.mk anchor (top :: rest)).isAbsolute = false := by
        rw [← Bool.not_eq_true]
        intro ha
        exact hr ha (ht ▸ List.mem_cons_self)
      exact .inr (.inl ⟨ha, by simp [Path.push, ht, Path.child]⟩)
    · exact .inr (.inr ⟨top, rest, rfl, ht, by simp [Path.push, ht]⟩)

theorem Resolved.parent {p : Path} (h : Resolved t here p) :
    Resolved t here { p with names := Path.push p.isAbsolute p.names ".." } ∧
      spot here { p with names := Path.push p.isAbsolute p.names ".." } = (spot here p).tail := by
  rcases push_parent_cases h.rooted with ⟨ha, hnil, hup⟩ | ⟨ha, hup⟩ | ⟨top, rest, hnames, ht, hup⟩ <;> rw [hup]
  · exact ⟨h, by simp [spot, ha, hnil]⟩
  · have hspot : spot here (p.child "..") = (spot here p).tail := spot_cons.trans h.self.push_parent
    refine ⟨h.push (hspot ▸ h.self.tail) fun ha' => ?_, hspot⟩
    rw [ha] at ha'
    cases ha'
  · obtain ⟨anchor, names⟩ := p
    obtain rfl : names = top :: rest := hnames
    refine ⟨h.suffix (List.suffix_cons top rest), ?_⟩
    rw [spot_cons, Path.push_of_ne ht]
    rfl

/-- A walk along the path so far goes on from where the path leads. -/
theorem Resolved.leads {follow : Bool} {n : Nat} {p : Path} {rest : List String} {r : Reached}
    (h : Resolved t here p) (hr : rest ≠ [])
    (hl : Leads t follow n (if p.isAbsolute then [] else here.getD []) (p.names.reverse ++ rest) r) :
    Leads t follow n (spot here p) rest r := by
  obtain ⟨anchor, names⟩ := p
  induction names generalizing rest with
  | nil => exact hl
  | cons name names ih =>
    have hs := h.self
    rw [List.reverse_cons, List.append_assoc] at hl
    have hl' := ih (List.cons_ne_nil name rest) (h.suffix (List.suffix_cons name names)) hl
    rw [spot_cons] at hs ⊢
    by_cases hp : name = ".."
    · rw [hp, (h.suffix (List.suffix_cons name names)).self.push_parent]
      exact hl'.of_parent hp
    · rw [Path.push_of_ne hp] at hs ⊢
      obtain ⟨hn, -, -, -⟩ := hs.clear
      obtain ⟨node, hg, hd⟩ := hs.node
      cases node with
      | dir mode => exact hl'.of_dir hn hg
      | file mode text => exact absurd (hl'.of_file hn hg).1 hr
      | link target => exact absurd rfl (hd target)

theorem route_child (p : Path) (name : String) :
    (p.child name).route = { absolute := p.isAbsolute, steps := p.names.reverse ++ [name] } := by
  obtain ⟨anchor, names⟩ := p
  rw [← List.reverse_cons]
  cases anchor <;> rfl

theorem Resolved.lstat {p : Path} {name : String} {loc : Location} {node : Node} (h : Resolved t here p)
    (hn : ¬(name = "" ∨ name = ".")) (hp : name ≠ "..")
    (hl : t.lstat here (p.child name).route = .ok (loc, node)) :
    loc = spot here (p.child name) ∧ t.Clear loc ∧ t.get? loc = some node := by
  obtain ⟨hz, start, hs, hw⟩ := walk_ok_iff.1 (lstat_ok_iff.1 hl)
  rw [route_child] at hz hs hw
  have hst : start = if p.isAbsolute then [] else here.getD [] := by
    unfold startOf at hs
    split at hs
    · next ha => rw [if_pos ha]; exact (Option.some.inj hs).symm
    · next ha =>
      rw [if_neg ha]
      simp only [List.append_eq_nil_iff, List.cons_ne_self, and_false, if_false] at hs
      rw [hs]
      rfl
  subst hst
  obtain ⟨ho, he, rfl, hg⟩ := (h.leads (List.cons_ne_nil _ _) hw).of_last hn hp
  refine ⟨(spot_child hp).symm, ⟨he, ?_, ho, h.self.clear⟩, hg⟩
  unfold Route.hasZero at hz
  rw [List.any_eq_false] at hz
  simpa using hz name (by simp)

/-! ## Canonical paths -/

theorem Unwinds.resolved {n : Nat} {active : List Path} {p q : Path} {steps : List String}
    (h : Unwinds t here n active p steps q) (hp : Resolved t here p) : Resolved t here q := by
  induction h with
  | done => exact hp
  | skip _ _ ih => exact ih hp
  | up _ ih => exact ih hp.parent.1
  | entry hn hne hl hd _ ih =>
    obtain ⟨he, hc, hg⟩ := hp.lstat hn hne hl
    rw [he] at hc hg
    exact ih (hp.push ⟨hc, _, hg, hd⟩ fun _ => hne)
  | link _ _ _ _ _ _ ih ih' =>
    refine ih' (ih ?_)
    split
    · exact hp.root
    · exact hp

/-- A walk along the components goes on from where the resolved path leads. -/
theorem Unwinds.leads {n : Nat} {active : List Path} {p q : Path} {steps : List String}
    (h : Unwinds t here n active p steps q) (hp : Resolved t here p) {k : Nat} {rest : List String}
    {r : Reached} (hl : Leads t true k (spot here p) (steps ++ rest) r) :
    ∃ k', Leads t true k' (spot here q) rest r := by
  induction h generalizing k rest with
  | done => exact ⟨k, hl⟩
  | skip hn _ ih => exact ih hp (hl.of_blank hn)
  | up _ ih =>
    obtain ⟨hup, hs⟩ := hp.parent
    refine ih hup (k := k) ?_
    rw [hs]
    exact hl.of_parent rfl
  | @entry _ _ _ _ name steps loc node hn hne hlst hd _ ih =>
    obtain ⟨he, hc, hg⟩ := hp.lstat hn hne hlst
    have hq : Resolved t here _ := hp.push ⟨he ▸ hc, node, he ▸ hg, hd⟩ fun _ => hne
    rw [he, spot_child hne] at hc hg
    cases node with
    | dir mode =>
      refine ih hq (k := k) ?_
      rw [spot_child hne]
      exact hl.of_dir hc.1 hg
    | file mode text =>
      -- a file ends the walk, so nothing is left to be resolved
      obtain ⟨hnil, hr⟩ := hl.of_file hc.1 hg
      obtain ⟨rfl, rfl⟩ := List.append_eq_nil_iff.1 hnil
      refine ih hq (k := k) ?_
      rw [spot_child hne, hr]
      exact .done hg
    | link target => exact absurd rfl (hd target)
  | @link _ _ p _ _ name target steps loc hn hne hlst _ hx _ ih ih' =>
    obtain ⟨he, hc, hg⟩ := hp.lstat hn hne hlst
    rw [he, spot_child hne] at hc hg
    obtain ⟨j, -, hj⟩ := hl.of_link hc.1 hg
    have hstart : Resolved t here (if (Route.ofString target).absolute then ⟨.root, []⟩ else p) := by
      split
      · exact hp.root
      · exact hp
    have hspot : spot here (if (Route.ofString target).absolute then ⟨.root, []⟩ else p) =
        if (Route.ofString target).absolute then [] else spot here p := by
      split
      · rfl
      · rfl
    obtain ⟨j', hj'⟩ := ih hstart (hspot ▸ hj)
    exact ih' (hx.resolved hstart) hj'

def origin (p : Path) : Path := ⟨if p.isAbsolute then .root else .here, []⟩

theorem isAbsolute_origin (p : Path) : (origin p).isAbsolute = p.isAbsolute := by
  unfold origin
  cases h : p.isAbsolute <;> rfl

theorem names_of_rooted {p : Path} (ha : p.isAbsolute = true) (hn : ".." ∉ p.names) :
    p.names = spot here p := by
  unfold spot
  rw [if_pos ha, Path.foldl_push_of_not_mem (by simpa using hn)]
  simp

theorem append_of_relative {p q : Path} (h : q.isAbsolute = false) :
    p ++ q = ⟨p.anchor, q.names ++ p.names⟩ := by
  show Path.append p q = _
  unfold Path.append
  rw [h]
  rfl

theorem names_below {loc : Location} (hc : ".." ∉ loc) {p : Path} (ha : p.isAbsolute = false) :
    ((⟨.root, loc⟩ : Path) ++ p).normal.names = spot (some loc) p := by
  have hloc : loc.reverse.foldl (Path.push true) [] = loc := by
    rw [Path.foldl_push_of_not_mem (by simpa using hc)]
    simp
  rw [append_of_relative ha]
  show (p.names ++ loc).reverse.foldl (Path.push true) [] = _
  rw [List.reverse_append, List.foldl_append, hloc]
  unfold spot
  rw [ha]
  rfl

theorem leads_of_stat {p : Path} {loc : Location} {node : Node} (h : t.stat here p.route = .ok (loc, node)) :
    Leads t true maxLinks (if p.isAbsolute then [] else here.getD []) p.names.reverse (.entry loc node) := by
  obtain ⟨-, start, hs, hl⟩ := walk_ok_iff.1 (stat_ok_iff.1 h)
  obtain ⟨anchor, names⟩ := p
  cases anchor with
  | here =>
    unfold startOf at hs
    cases names with
    | nil =>
      have hh : here = some start := hs
      subst hh
      exact hl.of_blank (.inr rfl)
    | cons name names =>
      have hr : (Path.mk .here (name :: names)).route = ⟨false, (name :: names).reverse⟩ := rfl
      rw [hr, if_neg Bool.false_ne_true, if_neg (by simp)] at hs
      subst hs
      exact hl
  | root =>
    cases hs
    exact hl
  | doubleRoot =>
    cases hs
    exact hl

/-- The absolute path that a resolved one means in the working directory. -/
def grounded (here : Option Location) (q : Path) : Except Uncanonical Path :=
  if q.isAbsolute then .ok q
  else match here with
    | none => .error (.refused none .noEntry)
    | some loc => .ok ((⟨.root, loc⟩ : Path) ++ q).normal

theorem canonical_eq (t : FileTree) (here : Option Location) (p : Path) : t.canonical here p =
    (unwindLinks t here (t.maxNesting here) [] (origin p) p.names.reverse).bind (grounded here) := by
  unfold canonical origin
  rfl

theorem canonical_ok_iff {p q : Path} :
    t.canonical here p = .ok q ↔
      ∃ q', Unwinds t here (t.maxNesting here) [] (origin p) p.names.reverse q' ∧
        grounded here q' = .ok q := by
  rw [canonical_eq]
  constructor
  · intro h
    cases hu : unwindLinks t here (t.maxNesting here) [] (origin p) p.names.reverse with
    | error e => rw [hu] at h; cases h
    | ok q' =>
      rw [hu] at h
      exact ⟨q', unwindLinks_ok_iff.1 hu, h⟩
  · intro ⟨q', hu, hq⟩
    rw [unwindLinks_ok_iff.2 hu]
    exact hq

theorem Resolved.grounded {q' q : Path} (h : Resolved t here q') (hq : grounded here q' = .ok q) :
    q.isAbsolute = true ∧ q.names = spot here q' := by
  unfold FileTree.grounded at hq
  split at hq
  · next ha =>
    cases hq
    exact ⟨ha, names_of_rooted ha (h.rooted ha)⟩
  · next ha =>
    rw [Bool.not_eq_true] at ha
    split at hq
    · cases hq
    · next loc =>
      cases hq
      have hloc : t.Stands (if q'.isAbsolute then [] else loc) := h.stands [] List.nil_suffix
      rw [ha] at hloc
      refine ⟨?_, names_below hloc.clear.parent_not_mem ha⟩
      rw [Path.isAbsolute_normal, append_of_relative ha]
      rfl

theorem Unwinds.anchor {n : Nat} {active : List Path} {p q : Path} {steps : List String}
    (h : Unwinds t here n active p steps q) (hp : p.anchor ≠ .doubleRoot) : q.anchor ≠ .doubleRoot := by
  induction h with
  | done => exact hp
  | skip _ _ ih => exact ih hp
  | up _ ih => exact ih hp
  | entry _ _ _ _ _ ih => exact ih hp
  | link _ _ _ _ _ _ ih ih' =>
    refine ih' (ih ?_)
    split
    · nofun
    · exact hp

/-- A canonical path starts at the root. -/
theorem anchor_of_canonical {p q : Path} (h : t.canonical here p = .ok q) : q.anchor = .root := by
  obtain ⟨q', hu, hg⟩ := canonical_ok_iff.1 h
  have horigin : (origin p).anchor ≠ .doubleRoot := by
    unfold origin
    dsimp only
    split <;> nofun
  have hq := hu.anchor horigin
  unfold FileTree.grounded at hg
  split at hg
  · next ha =>
    cases hg
    cases hanchor : q.anchor with
    | root => rfl
    | here => simp [Path.isAbsolute, hanchor] at ha
    | doubleRoot => exact absurd hanchor hq
  · next ha =>
    split at hg
    · cases hg
    · cases hg
      rw [append_of_relative (by simpa using ha)]
      rfl

variable {p q : Path}

theorem canonical_ok (hs : t.Stands (if p.isAbsolute then [] else here.getD []))
    (h : t.canonical here p = .ok q) : q.isAbsolute = true ∧ t.Stands q.names := by
  obtain ⟨q', hu, hg⟩ := canonical_ok_iff.1 h
  have hr := hu.resolved (.start (by rw [isAbsolute_origin]; exact hs) rfl)
  obtain ⟨ha, hn⟩ := hr.grounded hg
  exact ⟨ha, hn ▸ hr.self⟩

/-- A canonical path names the node that the path itself leads to. -/
theorem canonical_same (hs : t.Stands (if p.isAbsolute then [] else here.getD []))
    (h : t.canonical here p = .ok q) {loc : Location} {node : Node}
    (hst : t.stat here p.route = .ok (loc, node)) : q.names = loc := by
  obtain ⟨q', hu, hg⟩ := canonical_ok_iff.1 h
  have hstart : Resolved t here (origin p) := .start (by rw [isAbsolute_origin]; exact hs) rfl
  obtain ⟨-, hn⟩ := (hu.resolved hstart).grounded hg
  have hspot : spot here (origin p) = if p.isAbsolute then [] else here.getD [] := by
    rw [← isAbsolute_origin]
    rfl
  have hl := leads_of_stat hst
  rw [← hspot, ← List.append_nil p.names.reverse] at hl
  obtain ⟨k, hk⟩ := hu.leads hstart hl
  rw [hn]
  cases hk
  rfl

theorem Unwinds.grown {t' : FileTree} (hg : Grows t t') {n m : Nat} (hm : n ≤ m) {active : List Path}
    {steps : List String} (h : Unwinds t here n active p steps q) : Unwinds t' here m active p steps q := by
  induction h generalizing m with
  | done => exact .done
  | skip hn _ ih => exact .skip hn (ih hm)
  | up _ ih => exact .up (ih hm)
  | entry hn hp hl hd _ ih => exact .entry hn hp (hg.lstat hl) hd (ih hm)
  | link hn hp hl ha _ _ ih ih' =>
    obtain ⟨k, rfl⟩ := Nat.exists_eq_add_of_le' (Nat.le_trans (Nat.succ_le_succ (Nat.zero_le _)) hm)
    exact .link hn hp (hg.lstat hl) ha (ih (Nat.le_of_succ_le_succ hm)) (ih' hm)

/-- A canonical path stays one in a tree that grows. -/
theorem Grows.canonical {t' : FileTree} (hg : Grows t t') (h : t.canonical here p = .ok q) :
    t'.canonical here p = .ok q := by
  obtain ⟨q', hu, hq⟩ := canonical_ok_iff.1 h
  have hm : t.maxNesting here ≤ t'.maxNesting here :=
    Nat.mul_le_mul_right _ (Nat.succ_le_succ hg.links)
  exact canonical_ok_iff.2 ⟨q', hu.grown hg hm, hq⟩

end Whereabouts.FileTree

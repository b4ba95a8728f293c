import Mathlib.Data.List.Perm.Subperm
import Whereabouts.Proofs.FileTree.Failing
import Whereabouts.Proofs.FileTree.Proper

/-!
# Paths that the system resolves have a canonical form

`Passes` is the walk of the system with every link's target passed on its own, and with the number of links that are
followed in all. The search for a canonical path takes the same way. It does not run into a link whose target it is
resolving, since the way from there would be as long as a part of itself, so every path that leads to an entry has a
canonical form (`canonical_of_stat`).
-/

namespace Whereabouts.FileTree

variable {t : FileTree} {here : Option Location} {p q : Path} {loc l : Location} {name target : String}
  {steps rest : List String} {node : Node} {cost : Nat}

/-- Where the steps of a link's target start from. -/
def targetStart (target : String) (loc : Location) : Location := if (Route.ofString target).absolute then [] else loc

inductive Passes (t : FileTree) : Nat → Location → List String → Location → Prop where
  | done {loc : Location} : Passes t 0 loc [] loc
  | blank {cost : Nat} {loc l : Location} {name : String} {rest : List String} (hn : name = "" ∨ name = ".")
      (h : Passes t cost loc rest l) : Passes t cost loc (name :: rest) l
  | up {cost : Nat} {loc l : Location} {rest : List String} (ho : t.Opens loc) (h : Passes t cost loc.tail rest l) :
      Passes t cost loc (".." :: rest) l
  | entry {cost : Nat} {loc l : Location} {name : String} {rest : List String} {node : Node} (ho : t.Opens loc)
      (hn : EntryName name) (hg : t.get? (name :: loc) = some node) (hd : ∀ target, node ≠ .link target)
      (h : Passes t cost (name :: loc) rest l) : Passes t cost loc (name :: rest) l
  | link {cost cost' : Nat} {loc l l' : Location} {name target : String} {rest : List String} (ho : t.Opens loc)
      (hn : EntryName name) (hg : t.get? (name :: loc) = some (.link target))
      (h : Passes t cost (targetStart target loc) (Route.ofString target).steps l) (h' : Passes t cost' l rest l') :
      Passes t (cost + cost' + 1) loc (name :: rest) l'

/-! ## The first step -/

section
variable (h : Passes t cost loc (name :: rest) l)
include h

theorem Passes.of_blank (hn : name = "" ∨ name = ".") : Passes t cost loc rest l := by
  cases h with
  | blank _ h => exact h
  | up => exact absurd hn (by decide)
  | entry _ he | link _ he => exact absurd hn (not_or.2 ⟨he.ne_empty, he.ne_dot⟩)

theorem Passes.of_parent (hn : name = "..") : Passes t cost loc.tail rest l := by
  cases h with
  | blank hb =>
    subst hn
    exact absurd hb (by decide)
  | up _ h => exact h
  | entry _ he | link _ he => exact absurd hn he.ne_parent

theorem Passes.of_entry (hn : EntryName name) (hg : t.get? (name :: loc) = some node)
    (hd : ∀ target, node ≠ .link target) : Passes t cost (name :: loc) rest l := by
  cases h with
  | blank hb => exact absurd hb (not_or.2 ⟨hn.ne_empty, hn.ne_dot⟩)
  | up => exact absurd rfl hn.ne_parent
  | entry _ _ _ _ h => exact h
  | link _ _ hg' =>
    cases hg.symm.trans hg'
    exact absurd rfl (hd _)

theorem Passes.of_link (hn : EntryName name) (hg : t.get? (name :: loc) = some (.link target)) :
    ∃ c c' m, cost = c + c' + 1 ∧ Passes t c (targetStart target loc) (Route.ofString target).steps m ∧
      Passes t c' m rest l := by
  cases h with
  | blank hb => exact absurd hb (not_or.2 ⟨hn.ne_empty, hn.ne_dot⟩)
  | up => exact absurd rfl hn.ne_parent
  | entry _ _ hg' hd =>
    cases hg.symm.trans hg'
    exact absurd rfl (hd _)
  | link _ _ hg' h h' =>
    cases hg.symm.trans hg'
    exact ⟨_, _, _, rfl, h, h'⟩

end

theorem passes_unique {c c' : Nat} {l' : Location} (h : Passes t c loc steps l) (h' : Passes t c' loc steps l') :
    c = c' ∧ l = l' := by
  induction h generalizing c' l' with
  | done =>
    cases h'
    exact ⟨rfl, rfl⟩
  | blank hn _ ih => exact ih (h'.of_blank hn)
  | up _ _ ih => exact ih (h'.of_parent rfl)
  | entry _ hn hg hd _ ih => exact ih (h'.of_entry hn hg hd)
  | link _ hn hg _ _ ih ih' =>
    obtain ⟨k, k', m, rfl, ht, hr⟩ := h'.of_link hn hg
    obtain ⟨rfl, rfl⟩ := ih ht
    obtain ⟨rfl, rfl⟩ := ih' hr
    exact ⟨rfl, rfl⟩

/-! ## The walk of the system -/

theorem Passes.split {a b : List String} (h : Passes t cost loc (a ++ b) l) :
    ∃ c c' m, cost = c + c' ∧ Passes t c loc a m ∧ Passes t c' m b l := by
  induction a generalizing cost loc with
  | nil => exact ⟨0, cost, loc, (Nat.zero_add cost).symm, .done, h⟩
  | cons step a ih =>
    cases h with
    | blank hn h =>
      obtain ⟨c, c', m, hc, ha, hb⟩ := ih h
      exact ⟨c, c', m, hc, .blank hn ha, hb⟩
    | up ho h =>
      obtain ⟨c, c', m, hc, ha, hb⟩ := ih h
      exact ⟨c, c', m, hc, .up ho ha, hb⟩
    | entry ho hn hg hd h =>
      obtain ⟨c, c', m, hc, ha, hb⟩ := ih h
      exact ⟨c, c', m, hc, .entry ho hn hg hd ha, hb⟩
    | @link k _ _ _ _ _ _ _ ho hn hg ht h =>
      obtain ⟨c, c', m, rfl, ha, hb⟩ := ih h
      exact ⟨k + c + 1, c', m, by omega, .link ho hn hg ht ha, hb⟩

/-- What the system walks to it passes to, target by target. -/
theorem Leads.passes {n : Nat} (h : Leads t true n loc steps (.entry l node)) : ∃ c, Passes t c loc steps l := by
  generalize hr : Reached.entry l node = r at h
  induction h with
  | done =>
    cases hr
    exact ⟨0, .done⟩
  | slash _ ih =>
    obtain ⟨c, h⟩ := ih hr
    exact ⟨c, .blank (.inl rfl) h⟩
  | dot _ _ ih =>
    obtain ⟨c, h⟩ := ih hr
    exact ⟨c, .blank (.inr rfl) h⟩
  | up ho _ ih =>
    obtain ⟨c, h⟩ := ih hr
    exact ⟨c, .up ho h⟩
  | vacant => cases hr
  | dir ho hn hg _ ih =>
    obtain ⟨c, h⟩ := ih hr
    exact ⟨c, .entry ho hn hg nofun h⟩
  | file ho hn hg =>
    cases hr
    exact ⟨0, .entry ho hn hg nofun .done⟩
  | stay _ _ _ hf => cases hf
  | link ho hn hg _ _ ih =>
    obtain ⟨c, h⟩ := ih hr
    obtain ⟨k, k', m, -, ht, hrest⟩ := h.split
    exact ⟨k + k' + 1, .link ho hn hg ht hrest⟩

/-- Blank steps make no difference. -/
theorem Passes.filter (h : Passes t cost loc steps l) :
    Passes t cost loc (steps.filter fun n => n ≠ "" && n ≠ ".") l := by
  induction h with
  | done => exact .done
  | blank hn _ ih =>
    rw [List.filter_cons_of_neg (by rcases hn with rfl | rfl <;> decide)]
    exact ih
  | up ho _ ih =>
    rw [List.filter_cons_of_pos (by decide)]
    exact .up ho ih
  | entry ho hn hg hd _ ih =>
    rw [List.filter_cons_of_pos (by simp [hn.ne_empty, hn.ne_dot])]
    exact .entry ho hn hg hd ih
  | link ho hn hg h _ _ ih' =>
    rw [List.filter_cons_of_pos (by simp [hn.ne_empty, hn.ne_dot])]
    exact .link ho hn hg h ih'

/-! ## Along the path so far -/

/-- A walk from a place on the path is found along the path from where that starts. -/
structure Traced (t : FileTree) (here : Option Location) (p : Path) : Prop where
  along : ∀ {names}, names <:+ p.names → ∀ {follow n name rest r}, name ≠ "" →
    Leads t follow n (spot here ⟨p.anchor, names⟩) (name :: rest) r →
    Leads t follow n (if p.isAbsolute then [] else here.getD []) (names.reverse ++ name :: rest) r
  rooted : p.isAbsolute = true → ".." ∉ p.names
  placed : p.isAbsolute = false → here.isSome
  free : ∀ n ∈ p.names, '\x00' ∉ n.toList

namespace Traced

theorem start (hp : p.names = []) (hh : p.isAbsolute = false → here.isSome) : Traced t here p where
  along {names} hs {_ _ _ _ _} _ hl := by
    rw [hp, List.suffix_nil] at hs
    subst hs
    exact hl
  rooted _ := by simp [hp]
  placed := hh
  free := by simp [hp]

theorem suffix (h : Traced t here p) {names : List String} (hs : names <:+ p.names) :
    Traced t here ⟨p.anchor, names⟩ where
  along hns := h.along (hns.trans hs)
  rooted ha hm := h.rooted ha (hs.subset hm)
  placed := h.placed
  free n hm := h.free n (hs.subset hm)

theorem push (h : Traced t here p) (hb : name ≠ "") (hr : p.isAbsolute = true → name ≠ "..")
    (hz : '\x00' ∉ name.toList)
    (hn : ∀ {follow n x rest r}, x ≠ "" → Leads t follow n (spot here (p.child name)) (x :: rest) r →
      Leads t follow n (spot here p) (name :: x :: rest) r) : Traced t here (p.child name) where
  along {names} hs {_ _ x rest _} hx hl := by
    rcases List.suffix_cons_iff.1 hs with rfl | hs
    · rw [List.reverse_cons, List.append_assoc]
      exact h.along (List.suffix_refl _) hb (hn hx hl)
    · exact h.along hs hx hl
  rooted ha hm := by
    rcases List.mem_cons.1 hm with he | hm
    · exact hr ha he.symm
    · exact h.rooted ha hm
  placed := h.placed
  free n hm := by
    rcases List.mem_cons.1 hm with rfl | hm
    · exact hz
    · exact h.free n hm

theorem parent (h : Traced t here p) (ho : t.Opens (spot here p)) (hup : ".." ∉ spot here p) :
    Traced t here { p with names := Path.push p.isAbsolute p.names ".." } ∧
      spot here { p with names := Path.push p.isAbsolute p.names ".." } = (spot here p).tail := by
  rcases push_parent_cases h.rooted with ⟨ha, hnil, he⟩ | ⟨ha, he⟩ | ⟨top, rest, hnames, ht, he⟩ <;> rw [he]
  · exact ⟨h, by simp [spot, ha, hnil]⟩
  · have hspot : spot here (p.child "..") = (spot here p).tail := spot_cons.trans (push_parent_of_not_mem hup)
    refine ⟨h.push (by decide) (fun ha' => ?_) (by decide) fun _ hl => .up ho (hspot ▸ hl), hspot⟩
    rw [ha] at ha'
    cases ha'
  · obtain ⟨anchor, names⟩ := p
    obtain rfl : names = top :: rest := hnames
    refine ⟨h.suffix (List.suffix_cons top rest), ?_⟩
    rw [spot_cons, Path.push_of_ne ht]
    rfl

theorem child (h : Traced t here p) (ho : t.Opens (spot here p)) (hn : EntryName name) (hz : '\x00' ∉ name.toList) :
    Traced t here (p.child name) := by
  refine h.push hn.ne_empty (fun _ => hn.ne_parent) hz fun hx hl => ?_
  rw [spot_child hn.ne_parent] at hl
  obtain ⟨mode, hm, -⟩ := hl.opens hx
  exact .dir ho hn hm hl

/-- The entry of a name is found from where the path leads. -/
theorem lstat (h : Traced t here p) (ho : t.Opens (spot here p)) (hn : EntryName name) (hz : '\x00' ∉ name.toList)
    (hg : t.get? (name :: spot here p) = some node) :
    t.lstat here (p.child name).route = .ok (name :: spot here p, node) := by
  have hl : Leads t false maxLinks (spot here p) [name] (.entry (name :: spot here p) node) := by
    cases node with
    | dir => exact .dir ho hn hg (.done hg)
    | file => exact .file ho hn hg
    | link => exact .stay ho hn hg rfl
  have halong := h.along (List.suffix_refl _) hn.ne_empty hl
  have hstart : startOf here (p.child name).route = some (if p.isAbsolute then [] else here.getD []) := by
    rw [route_child]
    unfold startOf
    cases ha : p.isAbsolute with
    | true => rfl
    | false =>
      obtain ⟨loc, rfl⟩ := Option.isSome_iff_exists.1 (h.placed ha)
      simp
  refine lstat_ok_iff.2 (walk_ok_iff.2 ⟨?_, _, hstart, ?_⟩)
  · rw [hasZero_route, List.any_eq_false]
    intro n hm
    rcases List.mem_cons.1 hm with rfl | hm
    · simpa using hz
    · simpa using h.free n hm
  · rw [route_child]
    exact halong

end Traced

/-! ## Links whose targets are being resolved -/

/-- The links lie at different places, and the way along the target of each takes at least `cost` links. -/
structure Pending (t : FileTree) (here : Option Location) (cost : Nat) (active : List Path) : Prop where
  ways : ∀ a ∈ active, ∃ target c l, t.get? (spot here a) = some (.link target) ∧
    Passes t c (targetStart target (spot here a).tail) (Route.ofString target).steps l ∧ cost ≤ c
  apart : (active.map (spot here)).Nodup

theorem Pending.nil : Pending t here cost [] := ⟨nofun, List.nodup_nil⟩

theorem Pending.mono {active : List Path} (h : Pending t here cost active) {c : Nat} (hc : c ≤ cost) :
    Pending t here c active where
  ways a ha := by
    obtain ⟨target, c', l, hg, hp, hle⟩ := h.ways a ha
    exact ⟨target, c', l, hg, hp, Nat.le_trans hc hle⟩
  apart := h.apart

/-- The target of a link takes fewer links than the way that the link is on, so the link is none of those whose
targets are being resolved. -/
theorem Pending.spot_not_mem {active : List Path} (h : Pending t here cost active) {c : Nat}
    (hg : t.get? (name :: loc) = some (.link target))
    (hp : Passes t c (targetStart target loc) (Route.ofString target).steps l) (hc : c < cost) :
    name :: loc ∉ active.map (spot here) := by
  intro hm
  obtain ⟨a, ha, he⟩ := List.mem_map.1 hm
  obtain ⟨target', c', l', hg', hp', hle⟩ := h.ways a ha
  rw [he] at hg' hp'
  cases hg.symm.trans hg'
  obtain ⟨rfl, -⟩ := passes_unique hp hp'
  omega

theorem Pending.cons {active : List Path} (h : Pending t here cost active) {c : Nat} {a : Path}
    (ha : spot here a = name :: loc) (hg : t.get? (name :: loc) = some (.link target))
    (hp : Passes t c (targetStart target loc) (Route.ofString target).steps l) (hc : c < cost) :
    Pending t here c (a :: active) where
  ways b hb := by
    rcases List.mem_cons.1 hb with rfl | hb
    · rw [ha]
      exact ⟨target, c, l, hg, hp, Nat.le_refl c⟩
    · exact (h.mono (Nat.le_of_lt hc)).ways b hb
  apart := by
    rw [List.map_cons, List.nodup_cons, ha]
    exact ⟨h.spot_not_mem hg hp hc, h.apart⟩

theorem length_le_linkCount {locs : List Location} (hn : locs.Nodup)
    (hl : ∀ loc ∈ locs, ∃ target, t.get? loc = some (.link target)) : locs.length ≤ t.linkCount := by
  unfold linkCount
  rw [List.countP_eq_length_filter, ← List.length_map (Prod.fst : Location × Node → Location)]
  refine (hn.subperm fun loc hm => ?_).length_le
  obtain ⟨target, hg⟩ := hl loc hm
  obtain ⟨before, after, he, -⟩ := List.lookup_eq_some_iff.1 hg
  refine List.mem_map.2 ⟨(loc, .link target), List.mem_filter.2 ⟨?_, rfl⟩, rfl⟩
  rw [he]
  simp

theorem Pending.length_le {active : List Path} (h : Pending t here cost active) : active.length ≤ t.linkCount := by
  rw [← List.length_map (spot here)]
  refine length_le_linkCount h.apart fun loc hm => ?_
  obtain ⟨a, ha, rfl⟩ := List.mem_map.1 hm
  obtain ⟨target, c, l, hg, -⟩ := h.ways a ha
  exact ⟨target, hg⟩

/-! ## The search -/

/-- Where the steps of a target are resolved from, for a link on the path. -/
def targetBase (target : String) (p : Path) : Path := if (Route.ofString target).absolute then ⟨.root, []⟩ else p

theorem spot_targetBase (target : String) : spot here (targetBase target p) = targetStart target (spot here p) := by
  unfold targetBase targetStart
  split
  · rfl
  · rfl

/-- The search takes the way of the system, with as many targets inside one another as there are links at most. -/
theorem Passes.unwinds (ht : t.Proper) (h : Passes t cost loc steps l) {n : Nat} {active : List Path}
    (hp : Traced t here p) (hs : spot here p = loc) (ha : Pending t here cost active)
    (hn : t.linkCount ≤ n + active.length) (hz : ∀ s ∈ steps, '\x00' ∉ s.toList) :
    ∃ q, Unwinds t here n active p steps q ∧ Traced t here q ∧ spot here q = l := by
  induction h generalizing n active p with
  | done => exact ⟨p, .done, hp, hs⟩
  | blank hb _ ih =>
    obtain ⟨q, hu, hq⟩ := ih hp hs ha hn fun s hm => hz s (List.mem_cons_of_mem _ hm)
    exact ⟨q, .skip hb hu, hq⟩
  | up ho _ ih =>
    subst hs
    have hmem : ".." ∉ spot here p := by
      intro hm
      obtain ⟨mode, hd, -⟩ := ho
      exact (ht.mem hd _ hm).1.ne_parent rfl
    obtain ⟨hup, hspot⟩ := hp.parent ho hmem
    obtain ⟨q, hu, hq⟩ := ih hup hspot ha hn fun s hm => hz s (List.mem_cons_of_mem _ hm)
    exact ⟨q, .up hu, hq⟩
  | entry ho hname hg hd _ ih =>
    subst hs
    have hfree := hz _ List.mem_cons_self
    obtain ⟨q, hu, hq⟩ := ih (hp.child ho hname hfree) (spot_child hname.ne_parent) ha hn
      fun s hm => hz s (List.mem_cons_of_mem _ hm)
    exact ⟨q, .entry (not_or.2 ⟨hname.ne_empty, hname.ne_dot⟩) hname.ne_parent (hp.lstat ho hname hfree hg) hd hu, hq⟩
  | @link c c' _ _ _ name target _ ho hname hg hpass _ ih ih' =>
    subst hs
    have hspot : spot here (p.child name) = name :: spot here p := spot_child hname.ne_parent
    have hless : c < c + c' + 1 := by omega
    have hactive : p.child name ∉ active := fun hm =>
      ha.spot_not_mem hg hpass hless (hspot ▸ List.mem_map_of_mem hm)
    have hpending := ha.cons hspot hg hpass hless
    -- one more target is being resolved, so that there is a link left for it
    obtain ⟨k, rfl⟩ : ∃ k, n = k + 1 := by
      have hlen := hpending.length_le
      rw [List.length_cons] at hlen
      exact Nat.exists_eq_add_of_le' (by omega)
    have hstart : Traced t here (targetBase target p) := by
      unfold targetBase
      split
      · exact .start rfl nofun
      · exact hp
    have hleft : t.linkCount ≤ k + (p.child name :: active).length := by
      rw [List.length_cons]
      omega
    obtain ⟨p', hu, hp', hs'⟩ := ih hstart (spot_targetBase target) hpending hleft (ht.steps_free hg)
    obtain ⟨q, hu', hq⟩ := ih' hp' hs' (ha.mono (by omega)) hn fun s hm => hz s (List.mem_cons_of_mem _ hm)
    have hfree := hz _ List.mem_cons_self
    exact ⟨q, .link (not_or.2 ⟨hname.ne_empty, hname.ne_dot⟩) hname.ne_parent (hp.lstat ho hname hfree hg) hactive
      hu hu', hq⟩

theorem linkCount_le_maxNesting (t : FileTree) (here : Option Location) : t.linkCount ≤ t.maxNesting here := by
  unfold maxNesting
  calc t.linkCount ≤ t.linkCount + 1 := Nat.le_succ _
    _ = (t.linkCount + 1) * 1 := (Nat.mul_one _).symm
    _ ≤ _ := Nat.mul_le_mul_left _ (by omega)

/-- A path along which the system passes to a place has a canonical form, and that names the place. -/
theorem canonical_of_passes (ht : t.Proper) (hh : ∀ loc, here = some loc → t.IsDir loc)
    (h : Passes t cost (if p.isAbsolute then [] else here.getD []) p.names.reverse l)
    (hp : p.isAbsolute = false → here.isSome) (hz : p.route.hasZero = false) :
    ∃ q, t.canonical here p = .ok q ∧ q.isAbsolute = true ∧ q.names = l := by
  have hstart : Traced t here (origin p) := .start rfl fun ha => hp ((isAbsolute_origin p).symm.trans ha)
  have hspot : spot here (origin p) = if p.isAbsolute then [] else here.getD [] := by
    rw [← isAbsolute_origin]
    rfl
  have hfree : ∀ s ∈ p.names.reverse, '\x00' ∉ s.toList := by
    rw [hasZero_route, List.any_eq_false] at hz
    intro s hs
    simpa using hz s (List.mem_reverse.1 hs)
  obtain ⟨q, hu, hq, hs⟩ := h.unwinds ht hstart hspot .nil (linkCount_le_maxNesting t here) hfree
  cases ha : q.isAbsolute with
  | true =>
    have hg : grounded here q = .ok q := by
      unfold grounded
      rw [if_pos ha]
    exact ⟨q, canonical_ok_iff.2 ⟨q, hu, hg⟩, ha, (names_of_rooted ha (hq.rooted ha)).trans hs⟩
  | false =>
    obtain ⟨loc, rfl⟩ := Option.isSome_iff_exists.1 (hq.placed ha)
    have hg : grounded (some loc) q = .ok ((⟨.root, loc⟩ : Path) ++ q).normal := by
      unfold grounded
      rw [ha]
      rfl
    have hmem : ".." ∉ loc := by
      intro hm
      obtain ⟨mode, hd⟩ := hh loc rfl
      exact (ht.mem hd _ hm).1.ne_parent rfl
    refine ⟨_, canonical_ok_iff.2 ⟨q, hu, hg⟩, ?_, (names_below hmem ha).trans hs⟩
    rw [Path.isAbsolute_normal, append_of_relative ha]
    rfl

/-- A path that the system resolves has a canonical form, and that names the same entry. -/
theorem canonical_of_stat (ht : t.Proper) (hh : ∀ loc, here = some loc → t.IsDir loc)
    (h : t.stat here p.route = .ok (l, node)) :
    ∃ q, t.canonical here p = .ok q ∧ q.isAbsolute = true ∧ q.names = l := by
  obtain ⟨hz, start, hs, -⟩ := walk_ok_iff.1 (stat_ok_iff.1 h)
  obtain ⟨c, hpass⟩ := (leads_of_stat h).passes
  refine canonical_of_passes ht hh hpass (fun ha => ?_) hz
  unfold startOf at hs
  have hr : p.route.absolute = false := by
    obtain ⟨anchor, names⟩ := p
    obtain rfl : anchor = .here := by simpa [Path.isAbsolute] using ha
    cases names <;> rfl
  rw [hr, if_neg Bool.false_ne_true] at hs
  split at hs
  · cases hs
  · rw [hs]
    rfl

/-! ## Paths as texts -/

/-- A path keeps the steps of its text that are not blank. -/
theorem components_eq (s : String) :
    Path.components s = (Route.ofString s).steps.filter fun n => n ≠ "" && n ≠ "." := by
  have hcut : Path.components s = ((cut '/' s).filter (· ≠ "")).filter fun n => n ≠ "" && n ≠ "." := by
    unfold Path.components
    rw [List.filter_filter]
    refine List.filter_congr fun n _ => ?_
    by_cases hn : n = "" <;> simp [hn]
  show _ = (Route.stepsOf s).filter _
  rw [hcut]
  unfold Route.stepsOf
  dsimp only
  split
  · simp [List.filter_append]
  · rfl

theorem isAbsolute_of_route {s : String} (h : (Route.ofString s).absolute = true) :
    (Path.ofString s).isAbsolute = true := by
  have hhead : s.toList.head? = some '/' := by simpa [Route.ofString] using h
  obtain ⟨cs, hs⟩ := List.head?_eq_some_iff.1 hhead
  exact Path.isAbsolute_ofString_of_slash hs

/-- What the system resolves an absolute text to is named by its canonical form. -/
theorem canonical_of_text (ht : t.Proper) (hh : ∀ loc, here = some loc → t.IsDir loc) {s : String}
    (ha : (Route.ofString s).absolute = true) (h : t.stat here (.ofString s) = .ok (l, node)) :
    ∃ q, t.canonical here (.ofString s) = .ok q ∧ q.isAbsolute = true ∧ q.names = l := by
  have hpath := isAbsolute_of_route ha
  have hnames : (Path.ofString s).names.reverse = Path.components s := List.reverse_reverse _
  obtain ⟨hz, start, hs, hl⟩ := walk_ok_iff.1 (stat_ok_iff.1 h)
  obtain rfl : [] = start := by simpa [startOf, ha] using hs
  obtain ⟨c, hpass⟩ := hl.passes
  have hfiltered := hpass.filter
  rw [← components_eq, ← hnames] at hfiltered
  refine canonical_of_passes ht hh (by rw [if_pos hpath]; exact hfiltered) (fun he => ?_) ?_
  · rw [hpath] at he
    cases he
  · rw [hasZero_route, ← List.any_reverse, hnames, components_eq, List.any_eq_false]
    rw [Route.hasZero, List.any_eq_false] at hz
    exact fun n hm => hz n (List.mem_filter.1 hm).1

end Whereabouts.FileTree

import Whereabouts.Proofs.FileTree.Build
import Whereabouts.Proofs.FileTree.Passing
import Whereabouts.Proofs.FileTree.Refusals

/-!
# Paths without a canonical form

`Stops` lists the ways in which the search for a canonical path fails, one constructor for each. A search that ends
with a loop has met a link again on the way along that link's own target (`circles_of_canonical`). One that is refused
for the zero character was given it (`zero_of_canonical`).
-/

namespace Whereabouts.FileTree

variable {t : FileTree} {here : Option Location} {n : Nat} {active : List Path} {p p' p₀ q link : Path}
  {loc : Location} {name target : String} {steps s s' s₀ rest : List String} {e : Uncanonical}

/-- The name is that of a link, which lies at the location. -/
structure LinkAt (t : FileTree) (here : Option Location) (p : Path) (name : String) (loc : Location)
    (target : String) : Prop where
  proper : ¬(name = "" ∨ name = ".")
  ne_parent : name ≠ ".."
  found : t.lstat here (p.child name).route = .ok (loc, .link target)

theorem LinkAt.get? (h : t.LinkAt here p name loc target) : t.get? loc = some (.link target) := get?_of_lstat h.found

inductive Stops (t : FileTree) (here : Option Location) :
    Nat → List Path → Path → List String → Uncanonical → Prop where
  | skip {n : Nat} {active : List Path} {p : Path} {name : String} {rest : List String} {e : Uncanonical}
      (hn : name = "" ∨ name = ".") (h : Stops t here n active p rest e) : Stops t here n active p (name :: rest) e
  | up {n : Nat} {active : List Path} {p : Path} {rest : List String} {e : Uncanonical}
      (h : Stops t here n active { p with names := Path.push p.isAbsolute p.names ".." } rest e) :
      Stops t here n active p (".." :: rest) e
  | entry {n : Nat} {active : List Path} {p : Path} {name : String} {rest : List String} {loc : Location} {node : Node}
      {e : Uncanonical} (hn : ¬(name = "" ∨ name = ".")) (hp : name ≠ "..")
      (hl : t.lstat here (p.child name).route = .ok (loc, node)) (hd : ∀ target, node ≠ .link target)
      (h : Stops t here n active (p.child name) rest e) : Stops t here n active p (name :: rest) e
  | unseen {n : Nat} {active : List Path} {p : Path} {name : String} {rest : List String} {why : Refusal}
      (hl : t.lstat here (p.child name).route = .error why) :
      Stops t here n active p (name :: rest) (.refused (some (p.child name)) why)
  | again {n : Nat} {active : List Path} {p : Path} {name target : String} {rest : List String} {loc : Location}
      (hl : t.LinkAt here p name loc target) (ha : p.child name ∈ active) :
      Stops t here n active p (name :: rest) (t.revisited here (p.child name))
  | deep {active : List Path} {p : Path} {name target : String} {rest : List String} {loc : Location}
      (hl : t.LinkAt here p name loc target) : Stops t here 0 active p (name :: rest) (.loop (p.child name))
  | into {n : Nat} {active : List Path} {p : Path} {name target : String} {rest : List String} {loc : Location}
      {e : Uncanonical} (hl : t.LinkAt here p name loc target)
      (h : Stops t here n (p.child name :: active) (targetBase target p) (Route.ofString target).steps e) :
      Stops t here (n + 1) active p (name :: rest) e
  | past {n : Nat} {active : List Path} {p p' : Path} {name target : String} {rest : List String} {loc : Location}
      {e : Uncanonical} (hl : t.LinkAt here p name loc target)
      (hu : Unwinds t here n (p.child name :: active) (targetBase target p) (Route.ofString target).steps p')
      (h : Stops t here (n + 1) active p' rest e) : Stops t here (n + 1) active p (name :: rest) e

theorem stops_of_unwind
    (ht : ∀ q active p steps e, targets t here n (q :: active) p steps = .error e →
      n = 0 ∧ e = .loop q ∨ ∃ k, n = k + 1 ∧ Stops t here k (q :: active) p steps e) :
    ∀ (steps : List String) (p : Path) (e : Uncanonical),
      unwind t here (targets t here n) active p steps = .error e → Stops t here n active p steps e
  | [], p, e, h => by
    rw [unwind] at h
    cases h
  | name :: rest, p, e, h => by
    have ih : ∀ p e, _ → Stops t here n active p rest e := stops_of_unwind ht rest
    rw [unwind] at h
    split at h
    · next hn => exact .skip hn (ih p e h)
    · next hn =>
      split at h
      · next hp =>
        subst hp
        exact .up (ih _ e h)
      · next hp =>
        dsimp only at h
        split at h
        · next hl =>
          cases h
          exact .unseen hl
        · next hl =>
          have hlink : t.LinkAt here p name _ _ := ⟨hn, hp, hl⟩
          split at h
          · next ha =>
            cases h
            exact .again hlink ha
          · split at h
            · next he =>
              cases h
              rcases ht _ _ _ _ _ he with ⟨rfl, rfl⟩ | ⟨k, rfl, hk⟩
              · exact .deep hlink
              · exact .into hlink hk
            · next p' he =>
              cases n with
              | zero => cases he
              | succ k => exact .past hlink (unwindLinks_ok_iff.1 he) (ih p' e h)
        · next x hx hl =>
          obtain ⟨loc, node⟩ := x
          refine .entry hn hp hl (fun target hd => ?_) (ih _ e h)
          exact hx loc target (by rw [hd])

theorem stops_of_unwindLinks (h : unwindLinks t here n active p steps = .error e) :
    Stops t here n active p steps e := by
  rw [unwindLinks_eq] at h
  induction n generalizing active p steps e with
  | zero =>
    refine stops_of_unwind (fun q active p steps e h => .inl ⟨rfl, ?_⟩) steps p e h
    cases h
    rfl
  | succ n ih =>
    refine stops_of_unwind (fun q active p steps e h => .inr ⟨n, rfl, ih ?_⟩) steps p e h
    rw [← unwindLinks_eq]
    exact h

theorem stops_of_canonical (h : t.canonical here p = .error e) (he : e ≠ .refused none .noEntry) :
    Stops t here (t.maxNesting here) [] (origin p) p.names.reverse e := by
  rw [canonical_eq] at h
  cases hu : unwindLinks t here (t.maxNesting here) [] (origin p) p.names.reverse with
  | error e' =>
    rw [hu] at h
    cases h
    exact stops_of_unwindLinks hu
  | ok q =>
    rw [hu] at h
    have hg : grounded here q = .error e := h
    unfold grounded at hg
    split at hg
    · cases hg
    · split at hg
      · cases hg
        exact absurd rfl he
      · cases hg

/-! ## The way of the search -/

/-- The search comes from one path with steps to take to another, into the targets of links or past them. -/
inductive Comes (t : FileTree) (here : Option Location) : Path → List String → Path → List String → Prop where
  | here {p : Path} {steps : List String} : Comes t here p steps p steps
  | skip {p q : Path} {name : String} {rest s : List String} (hn : name = "" ∨ name = ".")
      (h : Comes t here p rest q s) : Comes t here p (name :: rest) q s
  | up {p q : Path} {rest s : List String}
      (h : Comes t here { p with names := Path.push p.isAbsolute p.names ".." } rest q s) :
      Comes t here p (".." :: rest) q s
  | entry {p q : Path} {name : String} {rest s : List String} {loc : Location} {node : Node}
      (hn : ¬(name = "" ∨ name = ".")) (hp : name ≠ "..") (hl : t.lstat here (p.child name).route = .ok (loc, node))
      (hd : ∀ target, node ≠ .link target) (h : Comes t here (p.child name) rest q s) :
      Comes t here p (name :: rest) q s
  | into {p q : Path} {name target : String} {rest s : List String} {loc : Location}
      (hl : t.LinkAt here p name loc target)
      (h : Comes t here (targetBase target p) (Route.ofString target).steps q s) : Comes t here p (name :: rest) q s
  | past {n : Nat} {active : List Path} {p p' q : Path} {name target : String} {rest s : List String} {loc : Location}
      (hl : t.LinkAt here p name loc target)
      (hu : Unwinds t here n active (targetBase target p) (Route.ofString target).steps p')
      (h : Comes t here p' rest q s) : Comes t here p (name :: rest) q s

theorem Comes.trans (h : Comes t here p steps q s) (h' : Comes t here q s p' s') : Comes t here p steps p' s' := by
  induction h with
  | here => exact h'
  | skip hn _ ih => exact .skip hn (ih h')
  | up _ ih => exact .up (ih h')
  | entry hn hp hl hd _ ih => exact .entry hn hp hl hd (ih h')
  | into hl _ ih => exact .into hl (ih h')
  | past hl hu _ ih => exact .past hl hu (ih h')

/-- Along the steps the search meets the link at the location. -/
def MeetsLink (t : FileTree) (here : Option Location) (p : Path) (steps : List String) (loc : Location) : Prop :=
  ∃ q name rest target, Comes t here p steps q (name :: rest) ∧ t.LinkAt here q name loc target

/-- Along the steps the search meets a link, and along the target of that link it meets the link again. -/
def Circles (t : FileTree) (here : Option Location) (p : Path) (steps : List String) : Prop :=
  ∃ q name rest loc target, Comes t here p steps q (name :: rest) ∧ t.LinkAt here q name loc target ∧
    t.MeetsLink here (targetBase target q) (Route.ofString target).steps loc

/-! ## Inside the targets of links -/

/-- On its way from `p₀` along `s₀` the search has come to `p` with `s` to take. It is inside the targets of the links
at these locations. -/
structure Nesting (t : FileTree) (here : Option Location) (p₀ : Path) (s₀ : List String) (active : List Path)
    (p : Path) (s : List String) (locs : List Location) : Prop where
  reached : Comes t here p₀ s₀ p s
  inside : ∀ loc ∈ locs, ∃ q name rest target, Comes t here p₀ s₀ q (name :: rest) ∧ t.LinkAt here q name loc target ∧
    Comes t here (targetBase target q) (Route.ofString target).steps p s
  listed : ∀ a ∈ active, ∃ loc ∈ locs, ∃ target, t.lstat here a.route = .ok (loc, .link target)
  apart : locs.Nodup

namespace Nesting

variable {locs : List Location}

theorem start : Nesting t here p₀ s₀ [] p₀ s₀ [] := ⟨.here, nofun, nofun, List.nodup_nil⟩

theorem go (h : Nesting t here p₀ s₀ active p s locs) (hc : Comes t here p s q s') :
    Nesting t here p₀ s₀ active q s' locs where
  reached := h.reached.trans hc
  inside loc hm := by
    obtain ⟨x, name, rest, target, hx, hl, hin⟩ := h.inside loc hm
    exact ⟨x, name, rest, target, hx, hl, hin.trans hc⟩
  listed := h.listed
  apart := h.apart

theorem circles (h : Nesting t here p₀ s₀ active p (name :: rest) locs) (hl : t.LinkAt here p name loc target)
    (hm : loc ∈ locs) : t.Circles here p₀ s₀ := by
  obtain ⟨x, name', rest', target', hx, hl', hin⟩ := h.inside loc hm
  exact ⟨x, name', rest', loc, target', hx, hl', p, name, rest, target, hin, hl⟩

theorem mem_of_mem_active (h : Nesting t here p₀ s₀ active p s locs) (hl : t.LinkAt here p name loc target)
    (ha : p.child name ∈ active) : loc ∈ locs := by
  obtain ⟨loc', hm, target', hl'⟩ := h.listed _ ha
  cases hl.found.symm.trans hl'
  exact hm

theorem into (h : Nesting t here p₀ s₀ active p (name :: rest) locs) (hl : t.LinkAt here p name loc target)
    (hm : loc ∉ locs) :
    Nesting t here p₀ s₀ (p.child name :: active) (targetBase target p) (Route.ofString target).steps
      (loc :: locs) where
  reached := h.reached.trans (.into hl .here)
  inside l hl' := by
    rcases List.mem_cons.1 hl' with rfl | hl'
    · exact ⟨p, name, rest, target, h.reached, hl, .here⟩
    · obtain ⟨x, name', rest', target', hx, hlink, hin⟩ := h.inside l hl'
      exact ⟨x, name', rest', target', hx, hlink, hin.trans (.into hl .here)⟩
  listed a ha := by
    rcases List.mem_cons.1 ha with rfl | ha
    · exact ⟨loc, List.mem_cons_self, target, hl.found⟩
    · obtain ⟨l, hl', hlink⟩ := h.listed a ha
      exact ⟨l, List.mem_cons_of_mem _ hl', hlink⟩
  apart := List.nodup_cons.2 ⟨hm, h.apart⟩

theorem length_le (h : Nesting t here p₀ s₀ active p s locs) : locs.length ≤ t.linkCount := by
  refine length_le_linkCount h.apart fun loc hm => ?_
  obtain ⟨q, name, rest, target, -, hl, -⟩ := h.inside loc hm
  exact ⟨target, hl.get?⟩

end Nesting

/-! ## Loops -/

/-- There are not more links than may be inside one another, so before the search gives up it has met one twice. -/
theorem circles_of_stops {locs : List Location} (h : Stops t here n active p s (.loop link))
    (hn : Nesting t here p₀ s₀ active p s locs) (hlen : t.linkCount ≤ n + locs.length) : t.Circles here p₀ s₀ := by
  generalize he : Uncanonical.loop link = e at h
  induction h generalizing locs with
  | skip hb _ ih => exact ih (hn.go (.skip hb .here)) hlen he
  | up _ ih => exact ih (hn.go (.up .here)) hlen he
  | entry hb hp hl hd _ ih => exact ih (hn.go (.entry hb hp hl hd .here)) hlen he
  | unseen => cases he
  | again hl ha => exact hn.circles hl (hn.mem_of_mem_active hl ha)
  | @deep _ _ _ _ _ loc hl =>
    by_cases hm : loc ∈ locs
    · exact hn.circles hl hm
    · have hle := (hn.into hl hm).length_le
      rw [List.length_cons] at hle
      omega
  | @into _ _ _ _ _ _ loc _ hl _ ih =>
    by_cases hm : loc ∈ locs
    · exact hn.circles hl hm
    · refine ih (hn.into hl hm) ?_ he
      rw [List.length_cons]
      omega
  | past hl hu _ ih => exact ih (hn.go (.past hl hu .here)) hlen he

/-- A search that ends with a loop goes in a circle. -/
theorem circles_of_canonical (h : t.canonical here p = .error (.loop link)) :
    t.Circles here (origin p) p.names.reverse :=
  circles_of_stops (stops_of_canonical h nofun) .start (linkCount_le_maxNesting t here)

/-! ## The zero character -/

theorem zero_of_revisited {path : Option Path} (h : t.revisited here link = .refused path .zeroByte) :
    link.route.hasZero = true := by
  unfold revisited at h
  split at h
  · cases h
  · cases h
  · next hs =>
    cases h
    exact zero_of_stat hs

theorem zero_of_route (h : p.route.hasZero = true) : ∃ name ∈ p.names, '\x00' ∈ name.toList := by
  rw [hasZero_route, List.any_eq_true] at h
  simpa using h

/-- No target brings the character in. -/
theorem not_zero_of_stops (ht : t.Proper) (h : Stops t here n active p steps e)
    (hp : ∀ name ∈ p.names, '\x00' ∉ name.toList) (hs : ∀ name ∈ steps, '\x00' ∉ name.toList) (path : Option Path) :
    e ≠ .refused path .zeroByte := by
  have htail : ∀ {name rest}, (∀ n ∈ name :: rest, '\x00' ∉ String.toList n) → ∀ n ∈ rest, '\x00' ∉ n.toList :=
    fun h n hm => h n (List.mem_cons_of_mem _ hm)
  have hbase : ∀ {p : Path} {target}, (∀ name ∈ p.names, '\x00' ∉ name.toList) →
      ∀ name ∈ (targetBase target p).names, '\x00' ∉ name.toList := by
    intro p target hp name hm
    unfold targetBase at hm
    split at hm
    · cases hm
    · exact hp name hm
  have hchild : ∀ {p : Path} {name rest}, (∀ n ∈ p.names, '\x00' ∉ n.toList) →
      (∀ n ∈ name :: rest, '\x00' ∉ String.toList n) → ∀ n ∈ (p.child name).names, '\x00' ∉ n.toList :=
    fun hp hs => List.forall_mem_cons.2 ⟨hs _ List.mem_cons_self, hp⟩
  induction h with
  | skip _ _ ih => exact ih hp (htail hs)
  | up _ ih =>
    refine ih (fun name hm => ?_) (htail hs)
    have hpush : name ∈ Path.push _ _ ".." := hm
    rcases Path.mem_push hpush with hm | rfl
    · exact hp name hm
    · decide
  | entry _ _ _ _ _ ih => exact ih (hchild hp hs) (htail hs)
  | unseen hl =>
    intro he
    cases he
    obtain ⟨n, hm, hz⟩ := zero_of_route (zero_of_lstat hl)
    exact hchild hp hs n hm hz
  | again =>
    intro he
    obtain ⟨n, hm, hz⟩ := zero_of_route (zero_of_revisited he)
    exact hchild hp hs n hm hz
  | deep => nofun
  | into hl _ ih => exact ih (hbase hp) (ht.steps_free hl.get?)
  | past hl hu _ ih =>
    exact ih (hu.without (by decide) ht.steps_free (hbase hp) (ht.steps_free hl.get?)) (htail hs)

theorem zero_of_canonical (ht : t.Proper) {text : String}
    {path : Option Path}
    (h : t.canonical here (.ofString text) = .error (.refused path .zeroByte)) : '\x00' ∈ text.toList := by
  by_contra hz
  refine not_zero_of_stops ht (stops_of_canonical h nofun) (fun _ hm => by cases hm) (fun name hm => ?_) path rfl
  have hname : name ∈ Path.components text := List.mem_reverse.1 (List.mem_reverse.1 hm)
  rw [components_eq] at hname
  exact fun hc => hz (mem_of_mem_step (List.mem_filter.1 hname).1 hc)

end Whereabouts.FileTree

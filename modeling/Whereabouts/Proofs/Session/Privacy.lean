import Whereabouts.Proofs.Session.Making

/-!
# How private new directories are

A directory that a program makes for itself is for its owner alone. Directories that were missing above
it take the usual mode, which others may read (`new_directories_are_private`).
-/

namespace Whereabouts

open FileTree

/-- The place is that of a directory strictly above the path. -/
def FileTree.LiesAbove (t : FileTree) (here : Option Location) (p : Path) (loc : Location) : Prop :=
  ∃ name names mode, name :: names <:+ p.names ∧ t.DirAt here ⟨p.anchor, names⟩ loc mode

/-- A new entry that is a directory is private or lies above a path that was asked for. -/
def PrivateOrAbove (turns : List (Call × State)) (host : Host) (t : FileTree) (loc : Location) (node : Node) : Prop :=
  ∀ mode, node = .dir mode →
    mode = 0o700 ∨ mode = 0o755 ∧ ∃ c s p, (c, s) ∈ turns ∧ Asks host s c p ∧ t.LiesAbove s.here p loc

def PrivateDir (_ : FileTree) (_ : Location) (node : Node) : Prop := ∀ mode, node = .dir mode → mode = 0o700

variable {host : Host} {s : State} {c : Call} {turns : List (Call × State)}

theorem lasting_privateOrAbove : Lasting (PrivateOrAbove turns host) where
  moves hg h mode he := by
    rcases h mode he with hp | ⟨hm, c, s, p, hturn, ha, name, names, mode', hs, hd⟩
    · exact .inl hp
    · exact .inr ⟨hm, c, s, p, hturn, ha, name, names, mode', hs, hg.dirAt hd⟩

theorem lasting_privateDir : Lasting PrivateDir where
  moves _ h := h

theorem aboveMode_eq : aboveMode = 0o755 := by decide

theorem Makes.privateOrAbove {t : FileTree} {loc : Location} {node : Node} (h : Makes host s c t loc node)
    (hturn : (c, s) ∈ turns) : PrivateOrAbove turns host t loc node := by
  intro mode he
  cases h with
  | dir ha hm =>
    cases hm with
    | own =>
      cases he
      exact .inl rfl
    | above hs hd =>
      cases he
      exact .inr ⟨aboveMode_eq, c, s, _, hturn, ha, _, _, _, hs, hd⟩
  | binaries =>
    cases he
    exact .inl rfl
  | file => cases he

/-- Where nothing is missing above the paths that a call asks for, it makes private directories only. -/
theorem adds_privateDir (ha : ∀ p, Asks host s c p → s.tree.HasAbove s.here p) :
    Adds PrivateDir s.tree ((c.action host).run s).2.tree where
  grows := (adds_call c).grows
  new {loc node} hn hs mode he := by
    cases (adds_call c).new hn hs with
    | dir hask hm =>
      obtain ⟨hown, -⟩ := hm.own_of_hasAbove (adds_call c).grows hn (ha _ hask)
      rw [hown] at he
      cases he
      rfl
    | binaries =>
      cases he
      rfl
    | file => cases he

/-- A directory that the program makes is private, or it was missing above a path that a call asked for
and has the usual mode. If nothing is missing above these paths, all new directories are private. -/
theorem new_directories_are_private {host : Host} {s : State} {steps : List Step}
    (hsteps : ∀ st ∈ steps, st.touchesTree = false) :
    let made := Session.allTurns host s steps
    let t := (Session.run host s steps).2.tree
    (∀ loc mode, s.tree.get? loc = none → t.get? loc = some (.dir mode) →
      mode = 0o700 ∨ mode = 0o755 ∧
        ∃ c s' p, (c, s') ∈ made ∧ Asks host s' c p ∧ t.LiesAbove s'.here p loc) ∧
    ((∀ c s' p, (c, s') ∈ made → Asks host s' c p → s'.tree.HasAbove s'.here p) →
      ∀ loc mode, s.tree.get? loc = none → t.get? loc = some (.dir mode) → mode = 0o700) := by
  intro made t
  constructor
  · have hadds : Adds (PrivateOrAbove made host) s.tree t :=
      adds_run lasting_privateOrAbove hsteps fun c s' hturn =>
        (adds_call c).imp fun _ _ hm => hm.privateOrAbove hturn
    intro loc mode hn hs
    exact hadds.new hn hs mode rfl
  · intro habove loc mode hn hs
    have hadds : Adds PrivateDir s.tree t :=
      adds_run lasting_privateDir hsteps fun c s' hturn => adds_privateDir fun p ha => habove c s' p hturn ha
    exact hadds.new hn hs mode rfl

/-- In a tree where only the root is there, a directory below it is new and private. -/
theorem new_directories_are_private_below_root :
    let s := State.start {} [] "/"
    let steps := [Step.call (.ensureDir ⟨.root, ["cache"]⟩)]
    s.tree.get? ["cache"] = none ∧
      ∃ mode, (Session.run plainHost s steps).2.tree.get? ["cache"] = some (.dir mode) ∧ mode = 0o700 := by
  intro s steps
  have hsteps : ∀ st ∈ steps, st.touchesTree = false := by simp [steps, Step.touchesTree]
  have habove : ∀ c s' p, (c, s') ∈ Session.allTurns plainHost s steps → Asks plainHost s' c p →
      s'.tree.HasAbove s'.here p := by
    intro c s' p hturn ha
    obtain ⟨rfl, rfl⟩ := Prod.mk.inj (List.mem_singleton.1 hturn)
    cases ha
    intro name names hs
    have hnames : names = [] := by
      rcases List.suffix_cons_iff.1 hs with he | hs
      · exact (List.cons.inj he).2
      · cases List.suffix_nil.1 hs
    subst hnames
    exact ⟨([], .dir 0o755), rfl⟩
  have hnew : s.tree.get? ["cache"] = none := by decide
  have hdir : (Session.run plainHost s steps).2.tree.get? ["cache"] = some (.dir 0o700) := by decide +kernel
  exact ⟨hnew, 0o700, hdir, (new_directories_are_private hsteps).2 habove ["cache"] 0o700 hnew hdir⟩

/-- A new home two levels below the root leaves a directory above it that others may read. -/
theorem directory_above_home_not_private :
    ¬∀ (env : Environment) (steps : List Step), (∀ st ∈ steps, st.touchesTree = false) →
      ∀ loc mode, (State.start env [] "/").tree.get? loc = none →
        (Session.run plainHost (.start env [] "/") steps).2.tree.get? loc = some (.dir mode) → mode = 0o700 := by
  intro h
  have hsteps : ∀ st ∈ [Step.call .homeDir], st.touchesTree = false := by simp [Step.touchesTree]
  have hmode := h ⟨[("JANK_HOME", "/a/b")]⟩ [.call .homeDir] hsteps ["a"] 0o755 (by decide) (by decide +kernel)
  exact absurd hmode (by decide)

end Whereabouts

import Whereabouts.Proofs.Session.Making
import Whereabouts.Proofs.Session.Peers

/-!
# What a step leaves alone

Nothing that is there is touched by a step of the program, whether the step succeeds or not. A step that
only looks leaves the whole tree, and what others add are directories on the way to paths that a call has to
make sure of, and one empty file at most for each call for a temporary file (`step_only_adds`).
-/

namespace Whereabouts

open FileTree

variable {host : Host} {s s' : State} {turns : List (Call × State)}

/-! ## Steps that only look -/

def Call.isForFile : Call → Bool
  | .makeTempFile .. => true
  | _ => false

/-- The step makes no call that can make something. -/
def Step.onlyLooks : Step → Bool
  | .call c | .threads c _ => !c.makes
  | .commandLine args => Cli.commandOf args ≠ some .paths && Cli.commandOf args ≠ some .mktemp
  | .change c => !c.touchesTree
  | _ => true

theorem Session.makes_of_turns {cs : List Call} (hcs : ∀ c ∈ cs, c.makes = false) :
    ∀ turn ∈ Session.turns host s cs, turn.1.makes = false := by
  intro turn hm
  exact hcs _ (Session.mem_of_mem_turns hm)

theorem Cli.makes_of_calls {args : List String} (hp : Cli.commandOf args ≠ some .paths)
    (hm : Cli.commandOf args ≠ some .mktemp) : ∀ c ∈ Cli.calls args, c.makes = false := by
  unfold Cli.commandOf at hp hm
  unfold Cli.calls
  cases hl : Cli.readLine args with
  | error stop => simp
  | ok line =>
    obtain ⟨command, verbose, rest⟩ := line
    rw [hl] at hp hm
    dsimp only
    cases Cli.readOptions command rest with
    | error stop => simp
    | ok o =>
      cases command with
      | paths => exact absurd rfl hp
      | mktemp => exact absurd rfl hm
      | flags => simp [Cli.commandCalls, Call.makes]

theorem Step.makes_of_onlyLooks {st : Step} (h : st.onlyLooks = true) :
    ∀ turn ∈ st.made host s, turn.1.makes = false := by
  intro turn hm
  have hturn := Step.mem_turns_of_made hm
  cases st with
  | call c =>
    refine Session.makes_of_turns (fun c' hc => ?_) turn hturn
    rw [List.mem_singleton.1 hc]
    simpa [Step.onlyLooks] using h
  | threads c n =>
    refine Session.makes_of_turns (fun c' hc => ?_) turn hturn
    rw [(List.mem_replicate.1 hc).2]
    simpa [Step.onlyLooks] using h
  | commandLine args =>
    have hcommand : Cli.commandOf args ≠ some .paths ∧ Cli.commandOf args ≠ some .mktemp := by
      simpa [Step.onlyLooks] using h
    exact Session.makes_of_turns (Cli.makes_of_calls hcommand.1 hcommand.2) turn hturn
  | _ => cases hturn

/-- Calls that make nothing leave the tree. -/
theorem Carries.still (h : Carries host s turns s') (hl : ∀ turn ∈ turns, turn.1.makes = false) :
    s'.tree = s.tree := by
  induction h with
  | nil hi => exact hi.tree
  | @cons s₀ s s' c turns hi _ ih =>
    have hcall : ((c.action host).run s).2.tree = s.tree := (within_still (hl _ List.mem_cons_self)).tree rfl s
    rw [ih fun turn hm => hl turn (List.mem_cons_of_mem _ hm), hcall, hi.tree]

/-! ## What is new -/

/-- The directory is one on the way to a path that a call has to make sure of, or the entry is the empty
file of a call for a temporary file. -/
def Accounted (host : Host) (turns : List (Call × State)) (t : FileTree) (loc : Location) (node : Node) : Prop :=
  (∃ mode, node = .dir mode ∧ ∃ c s p names, (c, s) ∈ turns ∧ Ensures host s c p ∧ names <:+ p.names ∧
    t.DirAt s.here ⟨p.anchor, names⟩ loc mode) ∨
  node = .file 0o600 "" ∧ ∃ start s, (Call.makeTempFile start none, s) ∈ turns

theorem lasting_accounted : Lasting (Accounted host turns) where
  moves hg h := by
    rcases h with ⟨mode, he, c, s, p, names, hturn, hens, hs, hd⟩ | hfile
    · exact .inl ⟨mode, he, c, s, p, names, hturn, hens, hs, hg.dirAt hd⟩
    · exact .inr hfile

theorem Makes.accounted {c : Call} {t : FileTree} {loc : Location} {node : Node} (h : Makes host s c t loc node)
    (hturn : (c, s) ∈ turns) : Accounted host turns t loc node := by
  cases h with
  | @dir p _ ha hm =>
    left
    cases hm with
    | own hd => exact ⟨_, rfl, c, s, p, p.names, hturn, .asked ha, List.suffix_refl _, hd⟩
    | @above name names hs hd =>
      exact ⟨_, rfl, c, s, p, names, hturn, .asked ha, (List.suffix_cons name names).trans hs, hd⟩
  | @binaries p he hd => exact .inl ⟨_, rfl, c, s, p, p.names, hturn, he, List.suffix_refl _, hd⟩
  | @file start hc =>
    subst hc
    exact .inr ⟨rfl, start, s, hturn⟩

/-! ## New files -/

/-- All files of the second tree that are not in the first are among these places. -/
def NewFilesAmong (t t' : FileTree) (files : List Location) : Prop :=
  ∀ loc mode text, t.get? loc = none → t'.get? loc = some (.file mode text) → loc ∈ files

theorem NewFilesAmong.append {t t' t'' : FileTree} {files files' : List Location} (hg : Grows t' t'')
    (h : NewFilesAmong t t' files) (h' : NewFilesAmong t' t'' files') : NewFilesAmong t t'' (files ++ files') := by
  intro loc mode text hn hf
  cases hm : t'.get? loc with
  | none => exact List.mem_append_right _ (h' loc mode text hm hf)
  | some node =>
    have hkept := hg.keeps hm
    rw [hf] at hkept
    cases hkept
    exact List.mem_append_left _ (h loc mode text hn hm)

theorem newFiles_call (c : Call) (s : State) : ∃ files : List Location,
    files.length ≤ (if c.isForFile then 1 else 0) ∧ NewFilesAmong s.tree ((c.action host).run s).2.tree files := by
  cases hc : c.isForFile with
  | false =>
    refine ⟨[], by simp, fun loc mode text hn hf => ?_⟩
    cases (adds_call c).new hn hf with
    | dir _ hm => cases hm
    | file he =>
      rw [he] at hc
      cases hc
  | true =>
    cases c with
    | makeTempFile start close =>
      have hrun : (((Call.makeTempFile start close).action host).run s).2 = ((makeTempFile host start close).run s).2 :=
        congrArg Prod.snd (Action.run_map _ _)
      have hends : FileEnds host start close s ((makeTempFile host start close).run s) := ends_makeTempFile start close s
      rw [hrun]
      generalize (makeTempFile host start close).run s = x at hends
      cases hends with
      | failed ht =>
        refine ⟨[], by simp, fun loc mode text hn hf => ?_⟩
        dsimp only at hf
        rw [ht, hn] at hf
        cases hf
      | @made _ _ _ _ _ _ s' hclose hstart hq hm hr =>
        obtain ⟨n, -, hmade⟩ := tempFileName_ok hm
        obtain ⟨-, dir, name, -, hput⟩ := create_ok (makeFile_ok hmade).2
        refine ⟨[name :: dir], by simp, fun loc mode text hn hf => ?_⟩
        by_cases hl : loc = name :: dir
        · exact List.mem_singleton.2 hl
        · dsimp only at hf
          rw [hput, get?_put_of_ne hl, hn] at hf
          cases hf
    | _ => cases hc

theorem Carries.newFiles (h : Carries host s turns s') : ∃ files : List Location,
    files.length ≤ turns.countP (·.1.isForFile) ∧ NewFilesAmong s.tree s'.tree files := by
  induction h with
  | nil hi =>
    refine ⟨[], by simp, fun loc mode text hn hf => ?_⟩
    rw [hi.tree, hn] at hf
    cases hf
  | @cons s₀ s s' c turns hi hrest ih =>
    obtain ⟨files, hlen, hnew⟩ := @newFiles_call host c s
    obtain ⟨later, hlater, hnew'⟩ := ih
    refine ⟨files ++ later, ?_, ?_⟩
    · rw [List.length_append, List.countP_cons]
      dsimp only
      omega
    · rw [← hi.tree]
      exact hnew.append hrest.grows hnew'

/-! ## Steps -/

/-- A step of the program in any state leaves every entry as it was. What it adds are directories on the way to
paths that its calls have to make sure of, and one empty file at most for each call for a temporary file. -/
theorem step_only_adds {host : Host} {s : State} {st : Step} (hst : st.touchesTree = false) :
    let made := st.made host { s with log := [] }
    let t := (Session.step host s st).2.tree
    (∀ loc node, s.tree.get? loc = some node → t.get? loc = some node) ∧
    (st.onlyLooks = true → t = s.tree) ∧
    (∀ loc node, s.tree.get? loc = none → t.get? loc = some node → Accounted host made t loc node) ∧
    ∃ files : List Location, files.length ≤ made.countP (·.1.isForFile) ∧ NewFilesAmong s.tree t files := by
  intro made t
  have hcarried : Carries host s made (Session.step host s st).2 := carries_step hst s
  have hadds : Adds (Accounted host made) s.tree t :=
    hcarried.adds lasting_accounted fun c s' hturn => (adds_call c).imp fun _ _ hm => hm.accounted hturn
  refine ⟨fun _ _ h => hadds.grows.keeps h, fun hl => ?_, fun _ _ hn hs => hadds.new hn hs, hcarried.newFiles⟩
  exact hcarried.still (Step.makes_of_onlyLooks hl)

/-- A new directory for binaries in a new cache, beside a file that stays. -/
theorem step_only_adds_binaries :
    let s := State.start ⟨[("JANK_CACHE_DIR", "/c")]⟩ [.file "/f" "text"] "/"
    let st := Step.call (.binaryCacheDir (some "1"))
    let t := (Session.step plainHost s st).2.tree
    t.get? ["f"] = some (.file 0o644 "text") ∧ s.tree.get? ["bin", "1", "c"] = none ∧
      t.get? ["bin", "1", "c"] = some (.dir 0o700) ∧
      Accounted plainHost (st.made plainHost { s with log := [] }) t ["bin", "1", "c"] (.dir 0o700) := by
  intro s st t
  have hadds := @step_only_adds plainHost s st rfl
  have hthere : s.tree.get? ["f"] = some (.file 0o644 "text") := by decide +kernel
  have hnew : s.tree.get? ["bin", "1", "c"] = none := by decide +kernel
  have hmade : t.get? ["bin", "1", "c"] = some (.dir 0o700) := by decide +kernel
  exact ⟨hadds.1 _ _ hthere, hnew, hmade, hadds.2.2.1 _ _ hnew hmade⟩

end Whereabouts

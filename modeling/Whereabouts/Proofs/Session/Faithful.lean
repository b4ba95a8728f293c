import Whereabouts.Proofs.Executable
import Whereabouts.Proofs.FileTree.Creation
import Whereabouts.Proofs.Session.Actions
import Whereabouts.Session.Flags
import Whereabouts.Session.Resources

/-!
# What kept values stand for

A kept value is faithful if it is what a fresh lookup would find. That depends on the environment,
the working directory and the tree alone, and it stays true as the tree grows. Twins are states that
differ in nothing but faithful kept values and the log; a lookup serves the same value to both.
-/

namespace Whereabouts

/-! ## What a lookup finds -/

def HomeAt (host : Host) (p : Path) (s : State) : Prop :=
  (∃ source, homePath host s.env s.here = .ok (p, source)) ∧ s.tree.Usable s.here p.route

def ConfigAt (host : Host) (p : Path) (s : State) : Prop :=
  configPath host s.env s.here = .ok p ∧ s.tree.Usable s.here p.route

def CacheRootAt (host : Host) (p : Path) (s : State) : Prop := cacheRootPath host s.env s.here = .ok p

def CacheAt (host : Host) (segment : String) (p : Path) (s : State) : Prop :=
  ∃ root, CacheRootAt host root s ∧ p = root ++ Path.ofString segment ∧ s.tree.Usable s.here p.route

def BinaryAt (host : Host) (segment : String) (p : Path) (s : State) : Prop :=
  ∃ dir, CacheAt host segment dir s ∧ p = dir.child "bin" ∧ s.tree.Usable s.here p.route

def ResourceAt (p : Path) (s : State) : Prop :=
  ∃ q, s.tree.isDirectory s.here q.route = .ok true ∧ s.tree.canonical s.here q = .ok p

def ProgramAt (host : Host) (p : Path) (s : State) : Prop := programPath host s.tree s.here = .ok p

def ProgramDirAt (host : Host) (p : Path) (s : State) : Prop := ∃ q, ProgramAt host q s ∧ p = q.parent

def BuildAt (host : Host) (version : String) (s : State) : Prop := version = buildVersionOf host s.env

def SegmentAt (host : Host) (version : Option String) (segment : String) (s : State) : Prop :=
  versionSegment? (version.getD (buildVersionOf host s.env)) = some segment

def CacheOf (host : Host) (version : Option String) (p : Path) (s : State) : Prop :=
  ∃ segment, SegmentAt host version segment s ∧ CacheAt host segment p s

def BinariesOf (host : Host) (version : Option String) (p : Path) (s : State) : Prop :=
  ∃ segment, SegmentAt host version segment s ∧ BinaryAt host segment p s

/-- The SDK's path by the override, or else by what the SDK tool prints. -/
def freshSdkPath (host : Host) (env : Environment) : Option String :=
  match env.value? "SDKROOT" with
  | some path => some path
  | none =>
    match host.sdkTool.output with
    | .ok output => sdkPathOf output
    | .error _ => none

def SdkAt (host : Host) (path : Option String) (s : State) : Prop := path = freshSdkPath host s.env

section
variable {host : Host} {s s' : State} {p : Path} {segment : String}

theorem Extends.usable (h : Extends s s') {r : Route} (hu : s.tree.Usable s.here r) :
    s'.tree.Usable s'.here r := by
  rw [h.here]
  exact h.tree.usable hu

theorem Extends.homeAt (h : Extends s s') (hp : HomeAt host p s) : HomeAt host p s' := by
  refine ⟨?_, h.usable hp.2⟩
  rw [h.env, h.here]
  exact hp.1

theorem Extends.configAt (h : Extends s s') (hp : ConfigAt host p s) : ConfigAt host p s' := by
  refine ⟨?_, h.usable hp.2⟩
  rw [h.env, h.here]
  exact hp.1

theorem Extends.cacheRootAt_iff (h : Extends s s') : CacheRootAt host p s' ↔ CacheRootAt host p s := by
  unfold CacheRootAt
  rw [h.env, h.here]

theorem Extends.cacheRootAt (h : Extends s s') (hp : CacheRootAt host p s) : CacheRootAt host p s' :=
  h.cacheRootAt_iff.2 hp

theorem Extends.cacheAt (h : Extends s s') (hp : CacheAt host segment p s) : CacheAt host segment p s' := by
  obtain ⟨root, hr, he, hu⟩ := hp
  exact ⟨root, h.cacheRootAt hr, he, h.usable hu⟩

theorem Extends.binaryAt (h : Extends s s') (hp : BinaryAt host segment p s) : BinaryAt host segment p s' := by
  obtain ⟨dir, hd, he, hu⟩ := hp
  exact ⟨dir, h.cacheAt hd, he, h.usable hu⟩

theorem Extends.resourceAt (h : Extends s s') (hp : ResourceAt p s) : ResourceAt p s' := by
  obtain ⟨q, hd, hc⟩ := hp
  refine ⟨q, ?_, ?_⟩
  · rw [h.here]
    exact h.tree.isDirectory hd
  · rw [h.here]
    exact h.tree.canonical hc

theorem Extends.programAt (h : Extends s s') (hp : ProgramAt host p s) : ProgramAt host p s' := by
  unfold ProgramAt
  rw [h.here]
  exact programPath_of_grows h.tree hp

theorem Extends.programDirAt (h : Extends s s') (hp : ProgramDirAt host p s) : ProgramDirAt host p s' := by
  obtain ⟨q, hq, he⟩ := hp
  exact ⟨q, h.programAt hq, he⟩

theorem Extends.buildAt (h : Extends s s') {version : String} (hv : BuildAt host version s) :
    BuildAt host version s' := by
  unfold BuildAt
  rw [h.env]
  exact hv

theorem Extends.segmentAt_iff (h : Extends s s') {version : Option String} :
    SegmentAt host version segment s' ↔ SegmentAt host version segment s := by
  unfold SegmentAt
  rw [h.env]

theorem Extends.segmentAt (h : Extends s s') {version : Option String} (hs : SegmentAt host version segment s) :
    SegmentAt host version segment s' :=
  h.segmentAt_iff.2 hs

theorem Extends.cacheOf (h : Extends s s') {version : Option String} (hp : CacheOf host version p s) :
    CacheOf host version p s' := by
  obtain ⟨segment, hs, hc⟩ := hp
  exact ⟨segment, h.segmentAt hs, h.cacheAt hc⟩

theorem CacheOf.usable {version : Option String} (h : CacheOf host version p s) : s.tree.Usable s.here p.route := by
  obtain ⟨segment, -, root, -, -, hu⟩ := h
  exact hu

theorem BinariesOf.usable {version : Option String} (h : BinariesOf host version p s) :
    s.tree.Usable s.here p.route := by
  obtain ⟨segment, -, dir, -, -, hu⟩ := h
  exact hu

theorem Extends.sdkAt (h : Extends s s') {path : Option String} (hp : SdkAt host path s) :
    SdkAt host path s' := by
  unfold SdkAt
  rw [h.env]
  exact hp

end

/-! ## Faithful states -/

/-- Every kept value is what its lookup finds. -/
structure Faithful (host : Host) (s : State) : Prop where
  homeDir : ∀ p, s.kept.homeDir = some p → HomeAt host p s
  configDir : ∀ p, s.kept.configDir = some p → ConfigAt host p s
  cacheRoot : ∀ p, s.kept.cacheRoot = some p → CacheRootAt host p s
  cacheDirs : ∀ segment p, s.kept.cacheDirs.lookup segment = some p → CacheAt host segment p s
  binaryDirs : ∀ segment p, s.kept.binaryDirs.lookup segment = some p → BinaryAt host segment p s
  resourceDir : ∀ p, s.kept.resourceDir = some p → ResourceAt p s
  programPath : ∀ p, s.kept.programPath = some p → ProgramAt host p s
  programDir : ∀ p, s.kept.programDir = some p → ProgramDirAt host p s
  buildVersion : ∀ v, s.kept.buildVersion = some v → BuildAt host v s
  sdkPath : ∀ p, s.kept.sdkPath = some p → SdkAt host p s

section
variable {host : Host} {s s' : State}

theorem Faithful.extend (h : Faithful host s) (he : Extends s s') (hk : s'.kept = s.kept) :
    Faithful host s' := by
  constructor
  · exact fun p hp => he.homeAt (h.homeDir p (hk ▸ hp))
  · exact fun p hp => he.configAt (h.configDir p (hk ▸ hp))
  · exact fun p hp => he.cacheRootAt (h.cacheRoot p (hk ▸ hp))
  · exact fun seg p hp => he.cacheAt (h.cacheDirs seg p (hk ▸ hp))
  · exact fun seg p hp => he.binaryAt (h.binaryDirs seg p (hk ▸ hp))
  · exact fun p hp => he.resourceAt (h.resourceDir p (hk ▸ hp))
  · exact fun p hp => he.programAt (h.programPath p (hk ▸ hp))
  · exact fun p hp => he.programDirAt (h.programDir p (hk ▸ hp))
  · exact fun v hv => he.buildAt (h.buildVersion v (hk ▸ hv))
  · exact fun p hp => he.sdkAt (h.sdkPath p (hk ▸ hp))

theorem faithful_of_kept_nothing (h : s.kept = {}) : Faithful host s := by
  constructor <;> intros <;> simp_all

theorem Faithful.clear (h : Faithful host s) (l : Lookup) :
    Faithful host { s with kept := s.kept.clear l } := by
  cases l with
  | homeDir => exact { h with homeDir := fun p hp => by cases hp }
  | configDir => exact { h with configDir := fun p hp => by cases hp }
  | cacheRoot => exact { h with cacheRoot := fun p hp => by cases hp }
  | cacheDir => exact { h with cacheDirs := fun seg p hp => by cases hp }
  | binaryDir => exact { h with binaryDirs := fun seg p hp => by cases hp }
  | resourceDir => exact { h with resourceDir := fun p hp => by cases hp }
  | programPath => exact { h with programPath := fun p hp => by cases hp }
  | programDir => exact { h with programDir := fun p hp => by cases hp }
  | buildVersion => exact { h with buildVersion := fun p hp => by cases hp }
  | sdkPath => exact { h with sdkPath := fun p hp => by cases hp }

end

/-! ## Twins -/

/-- A state without its log and what it keeps, but for the resource directory if that counts. -/
def State.bare (counts : Bool) (s : State) : State :=
  { s with kept := { resourceDir := if counts then s.kept.resourceDir else none }, sdkRuns := 0, log := [] }

/-- The states differ in nothing but faithful kept values and the log. The resource directory is the
one kept value that a fresh lookup need not find again. -/
structure Twins (host : Host) (counts : Bool) (s t : State) : Prop where
  bare : s.bare counts = t.bare counts
  left : Faithful host s
  right : Faithful host t

section
variable {host : Host} {counts : Bool} {s s' t t' : State}

theorem Twins.refl (h : Faithful host s) : Twins host counts s s := ⟨rfl, h, h⟩

theorem extends_of_bare (h : s.bare counts = s'.bare counts) : Extends s s' := by
  have henv : s'.env = s.env := (congrArg State.env h).symm
  have hhere : s'.here = s.here := (congrArg State.here h).symm
  have htree : s'.tree = s.tree := (congrArg State.tree h).symm
  exact ⟨henv, hhere, htree ▸ .refl _⟩

theorem Twins.extends (h : Twins host counts s t) : Extends s t := extends_of_bare h.bare

theorem Twins.tree (h : Twins host counts s t) : t.tree = s.tree := (congrArg State.tree h.bare).symm

theorem Twins.here (h : Twins host counts s t) : t.here = s.here := h.extends.here

theorem Twins.env (h : Twins host counts s t) : t.env = s.env := h.extends.env

theorem Twins.verbose (h : Twins host counts s t) : t.verbose = s.verbose :=
  (congrArg (·.verbose) h.bare).symm

theorem Twins.tempDir (h : Twins host counts s t) : t.tempDir = s.tempDir :=
  (congrArg State.tempDir h.bare).symm

theorem Twins.tempTried (h : Twins host counts s t) : t.tempTried = s.tempTried :=
  (congrArg State.tempTried h.bare).symm

theorem Twins.resourceDir (h : Twins host true s t) : t.kept.resourceDir = s.kept.resourceDir :=
  (congrArg (fun s => s.kept.resourceDir) h.bare).symm

theorem Twins.move (h : Twins host counts s t) (hs : Extends s s') (ht : Extends t t')
    (hks : s'.kept = s.kept) (hkt : t'.kept = t.kept) (hb : s'.bare counts = t'.bare counts) :
    Twins host counts s' t' :=
  ⟨hb, h.left.extend hs hks, h.right.extend ht hkt⟩

theorem Twins.withTree (h : Twins host counts s t) {tree : FileTree} (hg : s.tree.Grows tree) :
    Twins host counts { s with tree := tree } { t with tree := tree } := by
  refine h.move ⟨rfl, rfl, hg⟩ ⟨rfl, rfl, h.tree ▸ hg⟩ rfl rfl ?_
  exact congrArg (fun b : State => { b with tree := tree }) h.bare

end

/-! ## Segments -/

/-- The end of a lookup of a segment. -/
def segmentOrBlank (v : String) : Action String :=
  match versionSegment? v with
  | some segment => pure segment
  | none => throw .blankVersion

theorem agree_segmentOrBlank {R : State → State → Prop} {s t : State} (hst : R s t) (v : String) :
    Agree R (segmentOrBlank v) (segmentOrBlank v) s t fun segment _ => versionSegment? v = some segment := by
  unfold segmentOrBlank
  cases versionSegment? v with
  | some segment => exact .pure hst rfl
  | none => exact .throw hst

/-! ## Lookups that are served -/

/-- The action ends with the value and changes nothing that twins share. -/
structure Yields {α : Type} (counts : Bool) (f : Action α) (s : State) (a : α) : Prop where
  result : (f.run s).1 = .ok a
  bare : (f.run s).2.bare counts = s.bare counts

/-- The slot holds what the action finds, and the action finds it again. -/
structure Serves {α : Type} (host : Host) (counts : Bool) (slot : Slot α) (f : Action α)
    (P : α → State → Prop) : Prop where
  find : ∀ {s a}, Faithful host s → slot.find s.kept = some a → P a s
  store : ∀ {s a}, Faithful host s → P a s → Faithful host { s with kept := slot.store s.kept a }
  resource : ∀ k a, (slot.store k a).resourceDir = k.resourceDir
  moves : ∀ {s s' a}, Extends s s' → P a s → P a s'
  again : ∀ {s a}, Faithful host s → P a s → Yields counts f s a
  agree : ∀ {s t}, Twins host counts s t → Agree (Twins host counts) f f s t P

section
variable {α : Type} {host : Host} {counts : Bool} {slot : Slot α} {f : Action α}
  {P : α → State → Prop} {s t : State} {a : α}

/-- The value that an action finds, kept from now on. -/
def keep (slot : Slot α) (f : Action α) : Action α := do
  let value ← f
  modify fun s => { s with kept := slot.store s.kept value }
  pure value

theorem run_once (slot : Slot α) (f : Action α) (s : State) :
    (once slot f).run s =
      (match slot.find s.kept with
        | some value => pure value
        | none => keep slot f : Action α).run s :=
  rfl

theorem run_once_some (h : slot.find s.kept = some a) : (once slot f).run s = (.ok a, s) := by
  rw [run_once, h]
  rfl

theorem run_once_none (h : slot.find s.kept = none) : (once slot f).run s = (keep slot f).run s := by
  rw [run_once, h]

theorem Serves.unique (h : Serves host counts slot f P) (hf : Faithful host s) {b : α} (ha : P a s)
    (hb : P b s) : a = b := by
  have hr := (h.again hf ha).result
  rw [(h.again hf hb).result] at hr
  exact (Except.ok.inj hr).symm

theorem Serves.bare_store (h : Serves host counts slot f P) :
    ({ s with kept := slot.store s.kept a } : State).bare counts = s.bare counts := by
  unfold State.bare
  dsimp only
  rw [h.resource]

theorem Serves.run_keep (h : Serves host counts slot f P) (hf : Faithful host s) (ha : P a s) :
    ∃ s', (keep slot f).run s = (.ok a, s') ∧ s'.bare counts = s.bare counts ∧ Faithful host s' := by
  have hy := h.again hf ha
  have hg := h.agree (.refl hf)
  have hp := hg.holds a hy.result
  have hrun := Action.run_bind f (fun value => do
    modify fun s => { s with kept := slot.store s.kept value }
    pure value) (s := s)
  obtain ⟨hr, hb⟩ := hy
  have hl := hg.related.left
  generalize f.run s = x at hr hb hl hp hrun
  obtain ⟨r, s'⟩ := x
  cases hr
  exact ⟨{ s' with kept := slot.store s'.kept a }, hrun, h.bare_store.trans hb, h.store hl hp⟩

theorem Serves.yields (h : Serves host counts slot f P) (hf : Faithful host s) (ha : P a s) :
    Yields counts (once slot f) s a := by
  cases hs : slot.find s.kept with
  | some b =>
    rw [h.unique hf ha (h.find hf hs)]
    constructor <;> rw [run_once_some hs]
  | none =>
    obtain ⟨s', hk, hb, -⟩ := h.run_keep hf ha
    constructor <;> rw [run_once_none hs, hk]
    exact hb

theorem Serves.agree_keep (h : Serves host counts slot f P) (hst : Twins host counts s t) :
    Agree (Twins host counts) (keep slot f) (keep slot f) s t P := by
  refine .bind (h.agree hst) fun a s' t' hst' _ hp => ?_
  have hpt : P a t' := h.moves hst'.extends hp
  have hb : s'.bare counts = State.bare counts { s' with kept := slot.store s'.kept a } := h.bare_store.symm
  refine .bind (P := fun _ s'' => P a s'') (.modify ?_ ?_ ?_) fun _ s'' t'' hst'' _ hp' => .pure hst'' hp'
  · refine ⟨?_, h.store hst'.left hp, h.store hst'.right hpt⟩
    rw [← hb, h.bare_store]
    exact hst'.bare
  · exact extends_of_bare hb
  · exact h.moves (extends_of_bare hb) hp

/-- A value is served to twins as if neither kept it. -/
theorem Serves.once (h : Serves host counts slot f P) (hst : Twins host counts s t) :
    Agree (Twins host counts) (once slot f) (once slot f) s t P := by
  cases hs : slot.find s.kept with
  | some a =>
    have ha := h.find hst.left hs
    have hat := h.moves hst.extends ha
    cases ht : slot.find t.kept with
    | some b =>
      obtain rfl := h.unique hst.right hat (h.find hst.right ht)
      exact .of_runs (run_once_some hs) (run_once_some ht) hst (.refl s) ha
    | none =>
      obtain ⟨t', hk, hb, hf⟩ := h.run_keep hst.right hat
      refine .of_runs (run_once_some hs) ((run_once_none ht).trans hk) ?_ (.refl s) ha
      exact ⟨hst.bare.trans hb.symm, hst.left, hf⟩
  | none =>
    cases ht : slot.find t.kept with
    | some a =>
      have hat := h.find hst.right ht
      have ha := h.moves (extends_of_bare hst.bare.symm) hat
      obtain ⟨s', hk, hb, hf⟩ := h.run_keep hst.left ha
      have he : Extends s s' := extends_of_bare hb.symm
      refine .of_runs ((run_once_none hs).trans hk) (run_once_some ht) ?_ he (h.moves he ha)
      exact ⟨hb.trans hst.bare, hf, hst.right⟩
    | none => exact .after (run_once_none hs) (run_once_none ht) (.refl s) (h.agree_keep hst)

end

end Whereabouts

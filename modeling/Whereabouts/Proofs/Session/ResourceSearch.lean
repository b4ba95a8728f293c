import Whereabouts.Proofs.FileTree.Passing
import Whereabouts.Proofs.Session.ProgramLookups
import Whereabouts.Proofs.Session.ProperStates

/-!
# The search for resources

A fresh call for the resource directory returns the canonical path of the first candidate that is a directory. It says
that there are no resources only if none of the candidates is one, and lists them all (`resourceDir_is_first`). Nothing
is made on the way.
-/

namespace Whereabouts

open FileTree

variable {host : Host} {s : State} {t : FileTree} {here : Option Location} {p q : Path} {f : Failure}

/-- The places where resources are looked for, in order. -/
inductive Candidates (host : Host) (s : State) : List Path → Prop where
  | given {raw : String} (hv : s.env.value? "JANK_RESOURCE_DIR" = some raw)
      (ha : (Path.ofString (expandTilde host s.env raw)).isAbsolute = true) :
      Candidates host s [Path.ofString (expandTilde host s.env raw)]
  | givenBeside {raw : String} {dir : Path} (hv : s.env.value? "JANK_RESOURCE_DIR" = some raw)
      (ha : (Path.ofString (expandTilde host s.env raw)).isAbsolute = false)
      (hd : ((processDir host).run s).1 = .ok dir) :
      Candidates host s [dir ++ Path.ofString (expandTilde host s.env raw)]
  | standard {dir : Path} (hv : s.env.value? "JANK_RESOURCE_DIR" = none)
      (hd : ((processDir host).run s).1 = .ok dir) :
      Candidates host s [dir.child "resources", dir ++ Path.ofString "../share/jank", host.packageResources]
  | package {f : Failure} (hv : s.env.value? "JANK_RESOURCE_DIR" = none)
      (hd : ((processDir host).run s).1 = .error f) (hf : f.category = .trouble .executable) :
      Candidates host s [host.packageResources]

theorem candidates_iff {paths : List Path} :
    Candidates host s paths ↔ ∃ cs, candidatesIn host s = .ok cs ∧ cs.map (·.1) = paths := by
  have hdir := (looks_processDir host s).result
  constructor
  · intro h
    unfold candidatesIn
    cases h with
    | given hv ha =>
      rw [hv]
      exact ⟨_, if_pos ha, rfl⟩
    | givenBeside hv ha hd =>
      rw [hdir] at hd
      rw [hv, hd]
      dsimp only
      rw [if_neg (by simp [ha])]
      exact ⟨_, rfl, rfl⟩
    | standard hv hd =>
      rw [hdir] at hd
      rw [hv, hd]
      exact ⟨_, rfl, rfl⟩
    | package hv hd hf =>
      rw [hdir] at hd
      rw [hv, hd]
      exact ⟨_, if_pos hf, rfl⟩
  · rintro ⟨cs, h, rfl⟩
    unfold candidatesIn at h
    split at h
    · next raw hv =>
      dsimp only at h
      split at h
      · next ha =>
        cases h
        exact .given hv ha
      · next ha =>
        obtain ⟨dir, hd, rfl⟩ := exists_of_map_ok h
        exact .givenBeside hv (by simpa using ha) (hdir.trans hd)
    · next hv =>
      split at h
      · next dir hd =>
        cases h
        exact .standard hv (hdir.trans hd)
      · next f hd =>
        split at h
        · next hf =>
          cases h
          exact .package hv (hdir.trans hd) hf
        · cases h

/-! ## The first directory -/

/-- Candidates that are no directories are passed over. -/
theorem firstDirectory_append {before after : List (Path × ResourceSource)}
    (hb : ∀ b ∈ before, t.isDirectory here b.1.route = .ok false) :
    firstDirectory t here (before ++ after) = firstDirectory t here after := by
  induction before with
  | nil => rfl
  | cons b before ih =>
    obtain ⟨hd, hrest⟩ := List.forall_mem_cons.1 hb
    rw [List.cons_append, firstDirectory, hd]
    exact ih hrest

theorem firstDirectory_some_iff {cs : List (Path × ResourceSource)} {x : Path × ResourceSource} :
    firstDirectory t here cs = .ok (some x) ↔ ∃ before after, cs = before ++ x :: after ∧
      (∀ b ∈ before, t.isDirectory here b.1.route = .ok false) ∧ t.isDirectory here x.1.route = .ok true := by
  constructor
  · intro h
    induction cs with
    | nil => cases h
    | cons c cs ih =>
      unfold firstDirectory at h
      split at h
      · next hd =>
        cases h
        exact ⟨[], cs, rfl, List.forall_mem_nil _, hd⟩
      · next hd =>
        obtain ⟨before, after, rfl, hb, hx⟩ := ih h
        exact ⟨c :: before, after, rfl, List.forall_mem_cons.2 ⟨hd, hb⟩, hx⟩
      · cases h
  · rintro ⟨before, after, rfl, hb, hx⟩
    rw [firstDirectory_append hb, firstDirectory, hx]

theorem firstDirectory_none {cs : List (Path × ResourceSource)} (h : firstDirectory t here cs = .ok none) :
    ∀ c ∈ cs, t.isDirectory here c.1.route = .ok false := by
  induction cs with
  | nil => exact List.forall_mem_nil _
  | cons c cs ih =>
    unfold firstDirectory at h
    split at h
    · cases h
    · next hd => exact List.forall_mem_cons.2 ⟨hd, ih h⟩
    · cases h

/-! ## What is chosen -/

/-- The system finds a directory by the path, at this place. -/
def LeadsToDir (s : State) (p : Path) (loc : Location) : Prop :=
  ∃ mode, s.tree.stat s.here p.route = .ok (loc, .dir mode)

theorem not_leadsToDir (h : s.tree.isDirectory s.here p.route = .ok false) : ¬∃ loc, LeadsToDir s p loc := by
  rintro ⟨loc, mode, hst⟩
  cases h.symm.trans (isDirectory_iff.2 ⟨loc, mode, hst⟩)

/-- What is a directory has a canonical path. -/
theorem canonicalDir_of_isDirectory (hs : s.IsProper) (h : s.tree.isDirectory s.here q.route = .ok true) :
    ∃ p, canonicalDir s.tree s.here q = .ok p ∧ p.isAbsolute = true ∧ LeadsToDir s q p.names := by
  obtain ⟨loc, mode, hst⟩ := isDirectory_iff.1 h
  obtain ⟨p, hc, ha, rfl⟩ := canonical_of_stat hs.tree hs.sited hst
  refine ⟨p, ?_, ha, mode, hst⟩
  unfold canonicalDir
  rw [hc]

/-- Everything along a path that leads to a directory by its own names is a directory. -/
theorem isDir_along (hs : s.IsProper) {loc names : Location} (h : LeadsToDir s q loc) (hn : names <:+ loc) :
    s.tree.IsDir names := by
  obtain ⟨mode, hst⟩ := h
  exact hs.tree.isDir_of_suffix ⟨mode, get?_of_stat hst⟩ hn

theorem chosenFrom_ok_iff {cs : List (Path × ResourceSource)} :
    chosenFrom s cs = .ok p ↔ ∃ before c after, cs = before ++ c :: after ∧
      (∀ b ∈ before, s.tree.isDirectory s.here b.1.route = .ok false) ∧
      s.tree.isDirectory s.here c.1.route = .ok true ∧ canonicalDir s.tree s.here c.1 = .ok p := by
  unfold chosenFrom
  constructor
  · intro h
    split at h
    · cases h
    · next q source hf =>
      obtain ⟨before, after, he, hb, hd⟩ := firstDirectory_some_iff.1 hf
      exact ⟨before, _, after, he, hb, hd, h⟩
    · cases h
  · rintro ⟨before, c, after, he, hb, hd, hc⟩
    rw [firstDirectory_some_iff.2 ⟨before, after, he, hb, hd⟩]
    exact hc

theorem message_noResources (tried : List Path) : (Failure.noResources tried).message =
    "No resource directory found (tried: " ++ String.intercalate ", " (tried.map Path.toString) ++ ")" := by
  unfold Failure.message Failure.category Trouble.message Failure.reason
  with_reducible rfl

theorem category_ofRefusal (why : Refusal) (path : Option String) :
    (Failure.ofRefusal why path).category ≠ .trouble .location := by
  unfold Failure.ofRefusal
  split <;> nofun

/-- A candidate that the system refuses to look at does not mean that there are no resources. -/
theorem category_of_firstDirectory {cs : List (Path × ResourceSource)} (h : firstDirectory t here cs = .error f) :
    f.category ≠ .trouble .location := by
  induction cs with
  | nil => cases h
  | cons c cs ih =>
    unfold firstDirectory at h
    split at h
    · cases h
    · exact ih h
    · cases h
      exact category_ofRefusal _ _

theorem category_of_candidatesIn (h : candidatesIn host s = .error f) : f.category ≠ .trouble .location := by
  have hno : NoProgram f := within_resourceCandidates.failure ((looks_resourceCandidates host s).result.trans h)
  cases hno with
  | reported hc =>
    rw [hc]
    nofun
  | zeroByte | linkLoop => nofun

theorem chosenFrom_location (hs : s.IsProper) {cs : List (Path × ResourceSource)} (h : chosenFrom s cs = .error f)
    (hf : f.category = .trouble .location) :
    f = .noResources (cs.map (·.1)) ∧ ∀ c ∈ cs, s.tree.isDirectory s.here c.1.route = .ok false := by
  unfold chosenFrom at h
  split at h
  · next hn =>
    cases h
    exact ⟨rfl, firstDirectory_none hn⟩
  · next q source hn =>
    obtain ⟨-, -, -, -, hd⟩ := firstDirectory_some_iff.1 hn
    obtain ⟨p, hc, -⟩ := canonicalDir_of_isDirectory hs hd
    cases hc.symm.trans h
  · next hn =>
    cases h
    exact absurd hf (category_of_firstDirectory hn)

/-! ## The call -/

/-- What is found now is the first candidate that is a directory. -/
theorem first_of_found (hs : s.IsProper) (h : (candidatesIn host s).bind (chosenFrom s) = .ok p) :
    p.isAbsolute = true ∧ ∃ before c after, Candidates host s (before ++ c :: after) ∧ LeadsToDir s c p.names ∧
      ∀ b ∈ before, ¬∃ loc, LeadsToDir s b loc := by
  cases hcs : candidatesIn host s with
  | error f =>
    rw [hcs] at h
    cases h
  | ok cs =>
    rw [hcs] at h
    obtain ⟨before, c, after, rfl, hb, hd, hc⟩ := chosenFrom_ok_iff.1 h
    obtain ⟨q, hq, ha, hlead⟩ := canonicalDir_of_isDirectory hs hd
    obtain rfl : q = p := Except.ok.inj (hq.symm.trans hc)
    refine ⟨ha, before.map (·.1), c.1, after.map (·.1), candidates_iff.2 ⟨_, hcs, by simp⟩, hlead, fun b hm => ?_⟩
    obtain ⟨b', hb', rfl⟩ := List.mem_map.1 hm
    exact not_leadsToDir (hb b' hb')

theorem found_of_first (hs : s.IsProper) {before after : List Path} {c : Path} {loc : Location}
    (hc : Candidates host s (before ++ c :: after)) (hd : LeadsToDir s c loc)
    (hb : ∀ b ∈ before, s.tree.isDirectory s.here b.route = .ok false) :
    ∃ p, (candidatesIn host s).bind (chosenFrom s) = .ok p ∧ p.names = loc := by
  obtain ⟨cs, hcs, hmap⟩ := candidates_iff.1 hc
  obtain ⟨before', rest, rfl, rfl, hrest⟩ := List.map_eq_append_iff.1 hmap
  obtain ⟨c', after', rfl, rfl, rfl⟩ := List.map_eq_cons_iff.1 hrest
  obtain ⟨mode, hst⟩ := hd
  have hdir : s.tree.isDirectory s.here c'.1.route = .ok true := isDirectory_iff.2 ⟨loc, mode, hst⟩
  obtain ⟨p, hp, -, mode', hst'⟩ := canonicalDir_of_isDirectory hs hdir
  have hchosen : chosenFrom s (before' ++ c' :: after') = .ok p :=
    chosenFrom_ok_iff.2 ⟨before', c', after', rfl, fun b hm => hb b.1 (List.mem_map_of_mem hm), hdir, hp⟩
  refine ⟨p, ?_, ?_⟩
  · rw [hcs]
    exact hchosen
  · cases hst.symm.trans hst'
    rfl

theorem none_of_location (hs : s.IsProper) (h : (candidatesIn host s).bind (chosenFrom s) = .error f)
    (hf : f.category = .trouble .location) :
    ∃ cs, Candidates host s cs ∧ (∀ c ∈ cs, ¬∃ loc, LeadsToDir s c loc) ∧ f = .noResources cs := by
  cases hcs : candidatesIn host s with
  | error f' =>
    rw [hcs] at h
    cases h
    exact absurd hf (category_of_candidatesIn hcs)
  | ok cs =>
    rw [hcs] at h
    obtain ⟨rfl, hnone⟩ := chosenFrom_location hs h hf
    refine ⟨cs.map (·.1), candidates_iff.2 ⟨cs, hcs, rfl⟩, fun c hm => ?_, rfl⟩
    obtain ⟨c', hc', rfl⟩ := List.mem_map.1 hm
    exact not_leadsToDir (hnone c' hc')

/-- In every state that a session comes to, a fresh call for the resource directory leaves the tree as it is. The
path that it returns is absolute, the directories along it are no links, and it names the directory that the system
finds by the first candidate that leads to one. It is returned if no candidate before that one is refused. If the
call says that there are no resources, no candidate is a directory, and the message lists all of them. -/
theorem resourceDir_is_first {host : Host} {env : Environment} {plan : List Planned} {dir : String}
    {steps : List Step} {s : State} (hrun : s = (Session.run host (.start env plan dir) steps).2)
    (hfresh : s.kept.resourceDir = none) :
    let x := (resourceDir host).run s
    x.2.tree = s.tree ∧
    (∀ p, x.1 = .ok p → p.isAbsolute = true ∧ (∀ names, names <:+ p.names → s.tree.IsDir names) ∧
      ∃ before c after, Candidates host s (before ++ c :: after) ∧ LeadsToDir s c p.names ∧
        ∀ b ∈ before, ¬∃ loc, LeadsToDir s b loc) ∧
    (∀ before c after loc, Candidates host s (before ++ c :: after) → LeadsToDir s c loc →
      (∀ b ∈ before, s.tree.isDirectory s.here b.route = .ok false) → ∃ p, x.1 = .ok p ∧ p.names = loc) ∧
    ∀ f, x.1 = .error f → f.category = .trouble .location →
      ∃ cs, Candidates host s cs ∧ (∀ c ∈ cs, ¬∃ loc, LeadsToDir s c loc) ∧
        f.message =
          "No resource directory found (tried: " ++ String.intercalate ", " (cs.map Path.toString) ++ ")" := by
  intro x
  have hs : s.IsProper := hrun ▸ proper_run env plan dir steps
  have hx : x.1 = (candidatesIn host s).bind (chosenFrom s) := by
    refine (looks_resourceDir host s).result.trans ?_
    unfold resourceDirIn
    rw [hfresh]
    rfl
  rw [hx]
  refine ⟨(looks_resourceDir host s).still.1, fun p hp => ?_, fun _ _ _ _ => found_of_first hs, fun f hf hl => ?_⟩
  · obtain ⟨ha, before, c, after, hc, hlead, hb⟩ := first_of_found hs hp
    exact ⟨ha, fun names hn => isDir_along hs hlead hn, before, c, after, hc, hlead, hb⟩
  · obtain ⟨cs, hc, hnone, rfl⟩ := none_of_location hs hf hl
    exact ⟨cs, hc, hnone, message_noResources cs⟩

/-- Resources in the installation of the program, behind a link. -/
theorem resourceDir_is_first_installed :
    let s := State.start {} [.file "/opt/bin/jank" "", .dir "/data/jank" 0o755, .link "/opt/share" "../data",
      .link "/proc/self/exe" "/opt/bin/jank"] "/"
    ∃ p, ((resourceDir plainHost).run s).1 = .ok p ∧ p.names = ["jank", "data"] ∧ s.tree.IsDir ["data"] := by
  intro s
  have hfirst := @resourceDir_is_first plainHost {} _ "/" [] s rfl rfl
  have hdir : ((processDir plainHost).run s).1 = .ok ⟨.root, ["bin", "opt"]⟩ := by decide +kernel
  have hmissing : s.tree.isDirectory s.here (Path.mk .root ["resources", "bin", "opt"]).route = .ok false := by
    decide +kernel
  have hlead : LeadsToDir s (⟨.root, ["bin", "opt"]⟩ ++ Path.ofString "../share/jank") ["jank", "data"] :=
    ⟨0o755, by decide +kernel⟩
  obtain ⟨p, hp, hnames⟩ := hfirst.2.2.1 [_] _ [_] _ (.standard rfl hdir) hlead
    (List.forall_mem_singleton.2 hmissing)
  exact ⟨p, hp, hnames, (hfirst.2.1 p hp).2.1 ["data"] (hnames ▸ List.suffix_cons _ _)⟩

end Whereabouts

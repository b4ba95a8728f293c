import Whereabouts.Proofs.FileTree.Refusals
import Whereabouts.Proofs.Session.ProgramOutcomes
import Whereabouts.Proofs.Session.ResourceSearch

/-!
# The package's resources

Without an override the search comes down to the resources of the package. It is kept from them in two ways only: the
search for the program goes astray, or the system refuses to look at a candidate beside the program
(`resourceDir_falls_back_iff`).
-/

namespace Whereabouts

open FileTree

variable {host : Host} {s : State} {t : FileTree} {here : Option Location} {f : Failure}
  {cs : List (Path × ResourceSource)}

/-- What keeps the search from what comes last. -/
inductive Hindered (host : Host) (s : State) : Failure → Prop where
  | astray {f : Failure} (hi : Inquires s .processDir) (ha : Astray host s f) : Hindered host s f
  | unseen {before after : List Path} {p : Path} {why : Refusal} (hc : Candidates host s (before ++ p :: after))
      (hb : ∀ b ∈ before, s.tree.isDirectory s.here b.route = .ok false)
      (hd : s.tree.isDirectory s.here p.route = .error why) (hw : s.tree.Unseen p.route.steps why) :
      Hindered host s (.system { why, path := some p.toString })

/-! ## Candidates that cannot be looked at -/

theorem refused_of_firstDirectory (h : firstDirectory t here cs = .error f) :
    ∃ before c after why, cs = before ++ c :: after ∧
      (∀ b ∈ before, t.isDirectory here b.1.route = .ok false) ∧ t.isDirectory here c.1.route = .error why := by
  induction cs with
  | nil => cases h
  | cons c cs ih =>
    unfold firstDirectory at h
    split at h
    · cases h
    · next hd =>
      obtain ⟨before, x, after, why, rfl, hb, hx⟩ := ih h
      exact ⟨c :: before, x, after, why, rfl, List.forall_mem_cons.2 ⟨hd, hb⟩, hx⟩
    · next why hd => exact ⟨[], c, cs, why, rfl, List.forall_mem_nil _, hd⟩

theorem ofRefusal_of_unseen {steps : List String} {why : Refusal} (hw : t.Unseen steps why) (path : Option String) :
    Failure.ofRefusal why path = .system { why, path } := by
  rcases why_of_unseen hw with rfl | rfl <;> rfl

theorem chosenFrom_unseen {before after : List Path} {p : Path} {why : Refusal}
    (hmap : cs.map (·.1) = before ++ p :: after) (hb : ∀ b ∈ before, s.tree.isDirectory s.here b.route = .ok false)
    (hd : s.tree.isDirectory s.here p.route = .error why) (hw : s.tree.Unseen p.route.steps why) :
    chosenFrom s cs = .error (.system { why, path := some p.toString }) := by
  obtain ⟨before', rest, rfl, rfl, hrest⟩ := List.map_eq_append_iff.1 hmap
  obtain ⟨c, after', rfl, rfl, rfl⟩ := List.map_eq_cons_iff.1 hrest
  have hb' : ∀ b ∈ before', s.tree.isDirectory s.here b.1.route = .ok false :=
    fun b hm => hb b.1 (List.mem_map_of_mem hm)
  rw [chosenFrom, firstDirectory_append hb', firstDirectory, hd]
  exact congrArg Except.error (ofRefusal_of_unseen hw _)

/-! ## The search without an override -/

theorem Astray.category_ne (h : Astray host s f) : f.category ≠ .trouble .executable := by
  cases h <;> nofun

theorem candidatesIn_of_astray (hv : s.env.value? "JANK_RESOURCE_DIR" = none) (hi : Inquires s .processDir)
    (h : Astray host s f) : candidatesIn host s = .error f := by
  have hdir : programDirIn host s = .error f := programIn_of_astray hi h
  unfold candidatesIn
  rw [hv, hdir]
  exact if_neg h.category_ne

theorem astray_of_candidatesIn (hs : s.IsProper) (hv : s.env.value? "JANK_RESOURCE_DIR" = none)
    (h : candidatesIn host s = .error f) : Inquires s .processDir ∧ Astray host s f := by
  unfold candidatesIn at h
  rw [hv] at h
  dsimp only at h
  split at h
  · cases h
  · next f' hdir =>
    split at h
    · cases h
    · next hc =>
      cases h
      obtain ⟨hi, hprogram⟩ := programIn_error (c := .processDir) rfl hdir
      rcases programPath_error_cases hs.tree hprogram with hf | ha
      · exact absurd hf hc
      · exact ⟨hi, ha⟩

theorem package_mem (hv : s.env.value? "JANK_RESOURCE_DIR" = none) (h : candidatesIn host s = .ok cs) :
    (host.packageResources, ResourceSource.package) ∈ cs := by
  unfold candidatesIn at h
  rw [hv] at h
  dsimp only at h
  split at h
  · cases h
    exact List.mem_append_right _ List.mem_cons_self
  · split at h
    · cases h
      exact List.mem_cons_self
    · cases h

/-- A search that comes to a directory at last finds one, or cannot look at a candidate. -/
theorem chosenFrom_cases (hs : s.IsProper) {c : Path × ResourceSource} (hc : c ∈ cs)
    (hd : s.tree.isDirectory s.here c.1.route = .ok true) :
    (∃ p, chosenFrom s cs = .ok p ∧ p.isAbsolute = true ∧ s.tree.IsDir p.names) ∨
      ∃ before x after why, cs = before ++ x :: after ∧
        (∀ b ∈ before, s.tree.isDirectory s.here b.1.route = .ok false) ∧
          s.tree.isDirectory s.here x.1.route = .error why := by
  unfold chosenFrom
  split
  · next hnone => cases hd.symm.trans (firstDirectory_none hnone c hc)
  · next q source hfirst =>
    obtain ⟨-, -, -, -, hq⟩ := firstDirectory_some_iff.1 hfirst
    obtain ⟨p, hp, ha, hlead⟩ := canonicalDir_of_isDirectory hs hq
    exact .inl ⟨p, hp, ha, isDir_along hs hlead (List.suffix_refl _)⟩
  · next hfirst => exact .inr (refused_of_firstDirectory hfirst)

theorem run_hindered (hv : s.env.value? "JANK_RESOURCE_DIR" = none) (h : Hindered host s f) :
    (candidatesIn host s).bind (chosenFrom s) = .error f := by
  cases h with
  | astray hi ha =>
    rw [candidatesIn_of_astray hv hi ha]
    rfl
  | unseen hc hb hd hw =>
    obtain ⟨cs, hcs, hmap⟩ := candidates_iff.1 hc
    rw [hcs]
    exact chosenFrom_unseen hmap hb hd hw

theorem found_of_unhindered (hs : s.IsProper) (hv : s.env.value? "JANK_RESOURCE_DIR" = none)
    (hd : s.tree.isDirectory s.here host.packageResources.route = .ok true) (h : ∀ f, ¬Hindered host s f) :
    ∃ p, (candidatesIn host s).bind (chosenFrom s) = .ok p ∧ p.isAbsolute = true ∧ s.tree.IsDir p.names := by
  cases hcs : candidatesIn host s with
  | error f =>
    obtain ⟨hi, ha⟩ := astray_of_candidatesIn hs hv hcs
    exact absurd (.astray hi ha) (h f)
  | ok cs =>
    rcases chosenFrom_cases hs (package_mem hv hcs) hd with hfound | ⟨before, x, after, why, rfl, hb, hx⟩
    · exact hfound
    · have hc : Candidates host s (before.map (·.1) ++ x.1 :: after.map (·.1)) :=
        candidates_iff.2 ⟨_, hcs, by simp⟩
      have hb' : ∀ b ∈ before.map (·.1), s.tree.isDirectory s.here b.route = .ok false := by
        simpa [List.forall_mem_map] using hb
      exact absurd (.unseen hc hb' hx (isDirectory_error hx)) (h _)

/-- In every state that a session comes to, let there be no override, and let the package's resources lead to a
directory. A fresh call returns the path of a directory exactly if nothing keeps the search from them, and where
something does, the call fails with that. -/
theorem resourceDir_falls_back_iff {host : Host} {env : Environment} {plan : List Planned} {dir : String}
    {steps : List Step} {s : State} (hrun : s = (Session.run host (.start env plan dir) steps).2)
    (hfresh : s.kept.resourceDir = none) (hv : s.env.value? "JANK_RESOURCE_DIR" = none)
    (hpackage : ∃ loc, LeadsToDir s host.packageResources loc) :
    let x := (resourceDir host).run s
    ((∃ p, x.1 = .ok p ∧ p.isAbsolute = true ∧ s.tree.IsDir p.names) ↔ ∀ f, ¬Hindered host s f) ∧
      ∀ f, Hindered host s f → x.1 = .error f := by
  intro x
  have hs : s.IsProper := hrun ▸ proper_run env plan dir steps
  have hx : x.1 = (candidatesIn host s).bind (chosenFrom s) := by
    refine (looks_resourceDir host s).result.trans ?_
    unfold resourceDirIn
    rw [hfresh]
    rfl
  have hd : s.tree.isDirectory s.here host.packageResources.route = .ok true := by
    obtain ⟨loc, mode, hst⟩ := hpackage
    exact isDirectory_iff.2 ⟨loc, mode, hst⟩
  rw [hx]
  refine ⟨⟨?_, found_of_unhindered hs hv hd⟩, fun f => run_hindered hv⟩
  rintro ⟨p, hp, -⟩ f hf
  cases hp.symm.trans (run_hindered hv hf)

/-- A program in an installation with a part that cannot be searched. -/
def lockedShare : List Planned :=
  [.link "/proc/self/exe" "/opt/bin/jank", .file "/opt/bin/jank" "", .dir "/opt/share" 0, .dir "/resources" 0o755]

theorem resourceDir_falls_back_iff_locked :
    let s := (Session.run plainHost (.start {} lockedShare "/") []).2
    let x := (resourceDir plainHost).run s
    (∃ loc, LeadsToDir s plainHost.packageResources loc) ∧
      x.1 = .error (.system { why := .denied, path := some "/opt/bin/../share/jank" }) ∧
      ¬∃ p, x.1 = .ok p ∧ p.isAbsolute = true ∧ s.tree.IsDir p.names := by
  intro s x
  have hdir : ((processDir plainHost).run s).1 = .ok ⟨.root, ["bin", "opt"]⟩ := by decide +kernel
  have hmissing : s.tree.isDirectory s.here (Path.mk .root ["resources", "bin", "opt"]).route = .ok false := by
    decide +kernel
  have hlocked : s.tree.isDirectory s.here (⟨.root, ["bin", "opt"]⟩ ++ Path.ofString "../share/jank").route =
      .error .denied := by decide +kernel
  have hpackage : ∃ loc, LeadsToDir s plainHost.packageResources loc := ⟨["resources"], 0o755, by decide +kernel⟩
  have hcandidates : Candidates plainHost s ([_] ++ _ :: [_]) := .standard rfl hdir
  have hhindered : Hindered plainHost s (.system { why := .denied, path := some "/opt/bin/../share/jank" }) :=
    .unseen hcandidates (List.forall_mem_singleton.2 hmissing) hlocked (isDirectory_error hlocked)
  obtain ⟨hiff, herror⟩ := @resourceDir_falls_back_iff plainHost {} lockedShare "/" [] s rfl rfl rfl hpackage
  exact ⟨hpackage, herror _ hhindered, fun hfound => hiff.1 hfound _ hhindered⟩

/-- A candidate that cannot be looked at hides the package's resources. -/
theorem locked_share_hides_package :
    ¬∀ (host : Host) (env : Environment) (plan : List Planned) (dir : String) (steps : List Step),
      let s := (Session.run host (.start env plan dir) steps).2
      s.kept.resourceDir = none → s.env.value? "JANK_RESOURCE_DIR" = none →
        (∃ loc, LeadsToDir s host.packageResources loc) → ∃ p, ((resourceDir host).run s).1 = .ok p := by
  intro h
  obtain ⟨p, hp⟩ := h plainHost {} lockedShare "/" [] rfl rfl ⟨["resources"], 0o755, by decide +kernel⟩
  have hfailed : ((resourceDir plainHost).run (Session.run plainHost (.start {} lockedShare "/") []).2).1 =
      .error (.system { why := .denied, path := some "/opt/bin/../share/jank" }) := by decide +kernel
  cases hp.symm.trans hfailed

end Whereabouts

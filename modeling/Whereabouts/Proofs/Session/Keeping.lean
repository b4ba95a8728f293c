import Whereabouts.Session.Program

/-!
# What is kept stays kept

`Kept.Stays k k'`: what is kept in `k` is kept in `k'`. A slot that is `Lawful` has what was last stored in
it, and a value stored in it while it is empty leaves all others where they are.
-/

namespace Whereabouts

/-- Everything that is kept at first is kept afterwards. -/
structure Kept.Stays (k k' : Kept) : Prop where
  homeDir : ∀ p, k.homeDir = some p → k'.homeDir = some p
  configDir : ∀ p, k.configDir = some p → k'.configDir = some p
  cacheRoot : ∀ p, k.cacheRoot = some p → k'.cacheRoot = some p
  cacheDirs : ∀ segment p, k.cacheDirs.lookup segment = some p → k'.cacheDirs.lookup segment = some p
  binaryDirs : ∀ segment p, k.binaryDirs.lookup segment = some p → k'.binaryDirs.lookup segment = some p
  resourceDir : ∀ p, k.resourceDir = some p → k'.resourceDir = some p
  programPath : ∀ p, k.programPath = some p → k'.programPath = some p
  programDir : ∀ p, k.programDir = some p → k'.programDir = some p
  buildVersion : ∀ v, k.buildVersion = some v → k'.buildVersion = some v
  sdkPath : ∀ p, k.sdkPath = some p → k'.sdkPath = some p

/-- A kept version is that of the program built in some environment. -/
def Kept.IsBuilt (host : Host) (k : Kept) : Prop := ∀ v, k.buildVersion = some v → ∃ env, v = buildVersionOf host env

variable {k k' k'' : Kept} {α : Type}

theorem Kept.Stays.refl (k : Kept) : k.Stays k where
  homeDir _ h := h
  configDir _ h := h
  cacheRoot _ h := h
  cacheDirs _ _ h := h
  binaryDirs _ _ h := h
  resourceDir _ h := h
  programPath _ h := h
  programDir _ h := h
  buildVersion _ h := h
  sdkPath _ h := h

theorem Kept.Stays.trans (h : k.Stays k') (h' : k'.Stays k'') : k.Stays k'' where
  homeDir p hp := h'.homeDir p (h.homeDir p hp)
  configDir p hp := h'.configDir p (h.configDir p hp)
  cacheRoot p hp := h'.cacheRoot p (h.cacheRoot p hp)
  cacheDirs segment p hp := h'.cacheDirs segment p (h.cacheDirs segment p hp)
  binaryDirs segment p hp := h'.binaryDirs segment p (h.binaryDirs segment p hp)
  resourceDir p hp := h'.resourceDir p (h.resourceDir p hp)
  programPath p hp := h'.programPath p (h.programPath p hp)
  programDir p hp := h'.programDir p (h.programDir p hp)
  buildVersion v hv := h'.buildVersion v (h.buildVersion v hv)
  sdkPath p hp := h'.sdkPath p (h.sdkPath p hp)

theorem Kept.Stays.of_nothing (k : Kept) : ({} : Kept).Stays k where
  homeDir := nofun
  configDir := nofun
  cacheRoot := nofun
  cacheDirs _ _ h := by cases h
  binaryDirs _ _ h := by cases h
  resourceDir := nofun
  programPath := nofun
  programDir := nofun
  buildVersion := nofun
  sdkPath := nofun

/-- Clearing adds nothing. -/
theorem Kept.stays_clear (k : Kept) (lookup : Lookup) : (k.clear lookup).Stays k := by
  have hsame := Kept.Stays.refl k
  cases lookup with
  | homeDir => exact { hsame with homeDir := nofun }
  | configDir => exact { hsame with configDir := nofun }
  | cacheRoot => exact { hsame with cacheRoot := nofun }
  | cacheDir => exact { hsame with cacheDirs := fun _ _ h => by cases h }
  | binaryDir => exact { hsame with binaryDirs := fun _ _ h => by cases h }
  | resourceDir => exact { hsame with resourceDir := nofun }
  | programPath => exact { hsame with programPath := nofun }
  | programDir => exact { hsame with programDir := nofun }
  | buildVersion => exact { hsame with buildVersion := nofun }
  | sdkPath => exact { hsame with sdkPath := nofun }

namespace Slot

structure Lawful (slot : Slot α) : Prop where
  find_store : ∀ k a, slot.find (slot.store k a) = some a
  find : ∀ {k k' a}, k.Stays k' → slot.find k = some a → slot.find k' = some a
  store : ∀ {k k'} a, k.Stays k' → slot.find k = none → k.Stays (slot.store k' a)

theorem lawful_homeDir : homeDir.Lawful where
  find_store _ _ := rfl
  find h hf := h.homeDir _ hf
  store _ h hn := { h with homeDir := fun _ hp => (Option.eq_none_iff_forall_ne_some.1 hn _ hp).elim }

theorem lawful_configDir : configDir.Lawful where
  find_store _ _ := rfl
  find h hf := h.configDir _ hf
  store _ h hn := { h with configDir := fun _ hp => (Option.eq_none_iff_forall_ne_some.1 hn _ hp).elim }

theorem lawful_cacheRoot : cacheRoot.Lawful where
  find_store _ _ := rfl
  find h hf := h.cacheRoot _ hf
  store _ h hn := { h with cacheRoot := fun _ hp => (Option.eq_none_iff_forall_ne_some.1 hn _ hp).elim }

theorem lookup_cons_of_lookup {entries entries' : List (String × Path)} {key : String} {p : Path}
    (h : ∀ segment q, entries.lookup segment = some q → entries'.lookup segment = some q)
    (hn : entries.lookup key = none) (segment : String) (q : Path) (hq : entries.lookup segment = some q) :
    ((key, p) :: entries').lookup segment = some q := by
  have hne : (segment == key) = false := by
    rw [beq_eq_false_iff_ne]
    rintro rfl
    exact Option.eq_none_iff_forall_ne_some.1 hn q hq
  rw [List.lookup_cons, hne]
  exact h segment q hq

theorem lawful_cacheDir (segment : String) : (cacheDir segment).Lawful where
  find_store _ _ := List.lookup_cons_self
  find h hf := h.cacheDirs segment _ hf
  store _ h hn := { h with cacheDirs := lookup_cons_of_lookup h.cacheDirs hn }

theorem lawful_binaryDir (segment : String) : (binaryDir segment).Lawful where
  find_store _ _ := List.lookup_cons_self
  find h hf := h.binaryDirs segment _ hf
  store _ h hn := { h with binaryDirs := lookup_cons_of_lookup h.binaryDirs hn }

theorem lawful_resourceDir : resourceDir.Lawful where
  find_store _ _ := rfl
  find h hf := h.resourceDir _ hf
  store _ h hn := { h with resourceDir := fun _ hp => (Option.eq_none_iff_forall_ne_some.1 hn _ hp).elim }

theorem lawful_programPath : programPath.Lawful where
  find_store _ _ := rfl
  find h hf := h.programPath _ hf
  store _ h hn := { h with programPath := fun _ hp => (Option.eq_none_iff_forall_ne_some.1 hn _ hp).elim }

theorem lawful_programDir : programDir.Lawful where
  find_store _ _ := rfl
  find h hf := h.programDir _ hf
  store _ h hn := { h with programDir := fun _ hp => (Option.eq_none_iff_forall_ne_some.1 hn _ hp).elim }

theorem lawful_buildVersion : buildVersion.Lawful where
  find_store _ _ := rfl
  find h hf := h.buildVersion _ hf
  store _ h hn := { h with buildVersion := fun _ hp => (Option.eq_none_iff_forall_ne_some.1 hn _ hp).elim }

theorem lawful_sdkPath : sdkPath.Lawful where
  find_store _ _ := rfl
  find h hf := h.sdkPath _ hf
  store _ h hn := { h with sdkPath := fun _ hp => (Option.eq_none_iff_forall_ne_some.1 hn _ hp).elim }

end Slot

end Whereabouts

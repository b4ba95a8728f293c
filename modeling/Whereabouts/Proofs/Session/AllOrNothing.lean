import Whereabouts.Proofs.Session.ProperStates
import Whereabouts.Proofs.Session.Staying
import Whereabouts.Proofs.TempDir

/-!
# All or nothing

A call for a temporary file leaves one new file and returns its path, or it fails and leaves the tree as it was
(`temp_file_all_or_nothing`). The names that it tries are proper names in a directory whose path holds no zero
character, so a zero character can only come from the start or from a name that was drawn.
-/

namespace Whereabouts

open FileTree

variable {host : Host} {s s' : State} {start : String} {q : Path}

/-! ## The directory for temporary files -/

theorem Path.mem_steps {text n : String} (h : n ∈ (ofString text).names) : n ∈ (Route.ofString text).steps := by
  have hn : n ∈ components text := List.mem_reverse.1 h
  obtain ⟨hcut, hne⟩ := List.mem_filter.1 hn
  have hmem : n ∈ stepsTo text := List.mem_filter.2 ⟨hcut, (Bool.and_eq_true_iff.1 hne).1⟩
  show n ∈ Route.stepsOf text
  rcases stepsOf_cases text with he | he
  · exact he ▸ hmem
  · exact he ▸ List.mem_append_left _ hmem

theorem mem_fromHere {here : Option Location} {p : Path} (h : fromHere here p = .ok q) {n : String}
    (hn : n ∈ q.names) : n ∈ p.names ∨ n ∈ here.getD [] := by
  unfold fromHere at h
  split at h
  · cases h
    rcases Path.mem_foldl_push hn with hn | hn
    · cases hn
    · exact .inl (List.mem_reverse.1 hn)
  · next ha =>
    cases here with
    | none => cases h
    | some loc =>
      cases h
      rcases Path.mem_foldl_push hn with hn | hn
      · cases hn
      · rw [append_of_relative (Bool.not_eq_true _ ▸ ha)] at hn
        exact List.mem_append.1 (List.mem_reverse.1 hn)

/-- The directory that was found for temporary files has no zero character in its path. -/
def State.NamesDir (s : State) : Prop :=
  ∀ dir, s.tempDir = some dir → ∀ n ∈ (Path.ofString dir).names, '\x00' ∉ n.toList

theorem zero_not_mem_of_holdsFiles {t : FileTree} {here : Option Location} {dir : String}
    (h : holdsFiles t here dir = true) : ∀ n ∈ (Path.ofString dir).names, '\x00' ∉ n.toList := by
  obtain ⟨l, mode, hs, -⟩ := holdsFiles_iff.1 h
  have hz := (stat_dir_iff.1 hs).1
  intro n hn hzero
  have hany : (Route.ofString dir).hasZero = true :=
    List.any_eq_true.2 ⟨n, Path.mem_steps hn, by simpa using hzero⟩
  rw [hany] at hz
  cases hz

theorem invariant_namesDir (host : Host) : Invariant host State.NamesDir where
  same h _ _ hd _ dir he := h dir (hd ▸ he)
  found _ dir hf d he := by
    cases he
    exact zero_not_mem_of_holdsFiles hf
  stored _ _ _ _ _ _ h _ := h

theorem namesDir_run (env : Environment) (plan : List Planned) (dir : String) (steps : List Step) :
    (Session.run host (.start env plan dir) steps).2.NamesDir :=
  holds_run (invariant_namesDir host) (fun _ _ _ h => h) nofun

theorem State.IsProper.zero_not_mem_here (h : s.IsProper) : ∀ n ∈ s.here.getD [], '\x00' ∉ n.toList := by
  cases hh : s.here with
  | none => nofun
  | some loc =>
    obtain ⟨mode, hd⟩ := h.sited loc hh
    exact fun n hn => (h.tree.mem hd n hn).2

/-! ## The names that are tried -/

/-- The name parts that are drawn for temporary files hold no slash and are not made of dots only. -/
def Host.DrawsNames (host : Host) : Prop :=
  ∀ part ∈ host.tempNames, '/' ∉ part.toList ∧ ∃ c ∈ part.toList, c ≠ '.'

theorem Host.DrawsNames.withoutSlash (h : host.DrawsNames) : host.NamesWithoutSlash :=
  fun part hp => (h part hp).1

theorem Host.DrawsNames.not_dots (h : host.DrawsNames) (n : Nat) : ∃ c ∈ (tempNamePart host n).toList, c ≠ '.' := by
  unfold tempNamePart
  split
  · next hp => exact (h _ (List.mem_of_getElem? hp)).2
  · exact ⟨'t', by simp, by decide⟩

def triedPath (host : Host) (q : Path) (start : String) (n : Nat) : Path :=
  q.child (start ++ tempNamePart host n)

theorem isNormal_triedPath (hnames : host.DrawsNames) (hq : q.isNormal = true) (hs : '/' ∉ start.toList)
    (n : Nat) : (triedPath host q start n).isNormal = true := by
  obtain ⟨c, hc, hne⟩ := hnames.not_dots n
  have hmem : c ∈ (start ++ tempNamePart host n).toList := by
    rw [String.toList_append]
    exact List.mem_append_right _ hc
  refine Path.isNormal_child hq ⟨⟨fun he => ?_, ?_⟩, fun he => ?_, fun he => ?_⟩
  · simp [he] at hmem
  · rw [String.toList_append, List.mem_append, not_or]
    exact ⟨hs, slash_not_mem_tempNamePart hnames.withoutSlash n⟩
  · simp [he, hne] at hmem
  · simp [he, hne] at hmem

theorem triedFile_eq (hnames : host.DrawsNames) (hq : q.isNormal = true) (hs : '/' ∉ start.toList) (n : Nat) :
    triedFile host q.toString start n = (triedPath host q start n).toString := by
  obtain ⟨ha, hns⟩ := Path.isNormal_iff.1 hq
  refine Path.entryText_toString ha (fun n hn => (hns n hn).1) ?_
  rw [String.toList_append, List.mem_append, not_or]
  exact ⟨hs, slash_not_mem_tempNamePart hnames.withoutSlash n⟩

/-! ## Files that are made, and files that are not -/

/-- The call made an empty file at a path that named nothing, and touched nothing else. -/
structure MadeOnly (host : Host) (start : String) (s : State) (p : Path) (s' : State) : Prop where
  inDir : ∃ dir, s'.tempDir = some dir ∧ (∀ d, s.tempDir = some d → d = dir) ∧
    fromHere s.here (.ofString dir) = .ok p.parent
  named : ∃ n, s.tempTried ≤ n ∧ n < s'.tempTried ∧ p = p.parent.child (start ++ tempNamePart host n)
  bounded : s'.tempTried ≤ s.tempTried + host.tempAttempts
  before : s.tree.lstat s.here p.route = .error .noEntry
  after : ∃ loc, s'.tree.lstat s.here p.route = .ok (loc, .file 0o600 "") ∧ s.tree.get? loc = none ∧
    ∀ l, l ≠ loc → s'.tree.get? l = s.tree.get? l

/-- Everything has a name in the directory for temporary files that the call could have given to a file. -/
def AllTaken (host : Host) (start : String) (s s' : State) : Prop :=
  ∃ dir q, s'.tempDir = some dir ∧ fromHere s.here (.ofString dir) = .ok q ∧
    ∀ n, s.tempTried ≤ n → n < s.tempTried + host.tempAttempts →
      ∃ found, s.tree.lstat s.here (triedPath host q start n).route = .ok found

/-- Why a call made no file. -/
inductive NotMade (host : Host) (start : String) (s : State) : Failure → State → Prop where
  | slash {s' : State} (hs : '/' ∈ start.toList) : NotMade host start s (.separatorInStart start) s'
  | zeroByte {s' : State} (hz : '\x00' ∈ start.toList ∨
      ∃ n, s.tempTried ≤ n ∧ n < s'.tempTried ∧ '\x00' ∈ (tempNamePart host n).toList) :
      NotMade host start s .zeroByte s'
  | noTempFile {fault : TempFault} {s' : State} (hf : fault = .namesExhausted → AllTaken host start s s') :
      NotMade host start s (.noTempFile start fault) s'

section
variable {dir : String} {found : Except TempFault (FileTree × String)} (hnames : host.DrawsNames) (hs : s.IsProper)
include hs

theorem Searched.isNormal (h : Searched host start s dir q found s') : q.isNormal = true :=
  isNormal_fromHere hs.placed h.path

theorem Searched.zero_not_mem (hd : s'.NamesDir) (h : Searched host start s dir q found s') :
    ∀ n ∈ q.names, '\x00' ∉ n.toList := by
  intro n hn
  rcases mem_fromHere h.path hn with hn | hn
  · exact hd dir h.keeps n hn
  · exact hs.zero_not_mem_here n hn

include hnames

theorem Searched.makeFile (h : Searched host start s dir q found s') (n : Nat) :
    s.tree.makeFile s.here (.ofString (triedFile host q.toString start n)) =
      s.tree.makeFile s.here (triedPath host q start n).route := by
  have hq := h.isNormal hs
  rw [triedFile_eq hnames hq h.noSlash, route_text (isNormal_triedPath hnames hq h.noSlash n)]

theorem Searched.hasSlash (h : Searched host start s dir q found s') (n : Nat) :
    (triedPath host q start n).route.hasSlash = false := by
  obtain ⟨ha, hns⟩ := Path.isNormal_iff.1 (isNormal_triedPath hnames (h.isNormal hs) h.noSlash n)
  rw [route_of_isAbsolute ha]
  unfold Route.hasSlash
  rw [List.contains_eq_mem, decide_eq_false_iff_not, List.mem_reverse]
  exact fun hm => (hns "" hm).1.1 rfl

theorem Searched.madeOnly {file : String} (h : Searched host start s dir q (.ok (s'.tree, file)) s') :
    ∃ p, fromHere s.here (.ofString file) = .ok p ∧ MadeOnly host start s p s' := by
  have hq := h.isNormal hs
  obtain ⟨n, hle, hlt, htried, rfl, hm⟩ := h.drawn.of_made
  rw [h.makeFile hnames hs] at hm
  have hnew : ∃ loc, s'.tree.lstat s.here (triedPath host q start n).route = .ok (loc, .file 0o600 "") ∧
      s.tree.get? loc = none ∧ ∀ l, l ≠ loc → s'.tree.get? l = s.tree.get? l := by
    obtain ⟨top, name, -, -, -, hfree, hput, hl⟩ := makeFile_put hm
    exact ⟨name :: top, hl, hfree, fun l hne => by rw [hput, get?_put_of_ne hne]⟩
  refine ⟨triedPath host q start n, ?_, ⟨dir, h.keeps, h.kept, h.path⟩, ⟨n, hle, by omega, rfl⟩, by omega,
    lstat_before_makeFile hm, hnew⟩
  rw [triedFile_eq hnames hq h.noSlash]
  exact fromHere_text (isNormal_triedPath hnames hq h.noSlash n)

theorem Searched.allTaken (h : Searched host start s dir q (.error .namesExhausted) s') :
    AllTaken host start s s' := by
  refine ⟨dir, q, h.keeps, h.path, fun n hle hlt => ?_⟩
  have hexist := h.drawn.of_exhausted n hle hlt
  unfold InUse at hexist
  rw [h.makeFile hnames hs] at hexist
  rcases makeFile_error (h.hasSlash hnames hs n) hexist with ⟨-, hfound⟩ | ⟨he, -⟩ | ⟨hne, -⟩
  · exact hfound
  · cases he
  · exact absurd rfl hne

theorem Searched.zeroByte (hd : s'.NamesDir) (h : Searched host start s dir q (.error (.refused .zeroByte)) s') :
    NotMade host start s .zeroByte s' := by
  obtain ⟨n, hle, htried, hm⟩ := h.drawn.of_refused
  rw [h.makeFile hnames hs] at hm
  rcases makeFile_error (h.hasSlash hnames hs n) hm with ⟨he, -⟩ | ⟨-, hz⟩ | ⟨-, hne⟩
  · cases he
  · rw [hasZero_route] at hz
    obtain ⟨name, hname, hzero⟩ := List.any_eq_true.1 hz
    have hzero : '\x00' ∈ name.toList := by simpa using hzero
    rcases List.mem_cons.1 hname with rfl | hname
    · rw [String.toList_append] at hzero
      exact .zeroByte ((List.mem_append.1 hzero).imp_right fun hpart => ⟨n, hle, by omega, hpart⟩)
    · exact absurd hzero (h.zero_not_mem hs hd name hname)
  · exact absurd rfl hne

theorem FileOutcome.allOrNothing {close : Option CloseFault} {x : Except Failure Path × State} (hd : x.2.NamesDir)
    (h : FileOutcome host start close s x) :
    (∃ p, x.1 = .ok p ∧ close = none ∧ MadeOnly host start s p x.2) ∨
      ∃ f, x.1 = .error f ∧ NotMade host start s f x.2 ∧ x.2.tree = s.tree := by
  cases h with
  | slash hslash ht => exact .inr ⟨_, rfl, .slash hslash, ht⟩
  | noDirectory hf ht => exact .inr ⟨_, rfl, .noTempFile fun he => absurd he hf, ht⟩
  | zeroByte h ht => exact .inr ⟨_, rfl, h.zeroByte hnames hs hd, ht⟩
  | noName h ht =>
    refine .inr ⟨_, rfl, .noTempFile ?_, ht⟩
    rintro rfl
    exact h.allTaken hnames hs
  | notClosed ht => exact .inr ⟨_, rfl, .noTempFile nofun, ht⟩
  | made hclose h hr =>
    obtain ⟨p, hp, hmade⟩ := h.madeOnly hnames hs
    exact .inl ⟨p, hr.trans hp, hclose, hmade⟩

end

/-- In every state that a session can reach a call for a temporary file makes one empty file and returns its path, or
it fails and the tree is as it was. -/
theorem temp_file_all_or_nothing {host : Host} (hnames : host.DrawsNames) (env : Environment) (plan : List Planned)
    (dir : String) (steps : List Step) (start : String) (close : Option CloseFault) :
    let s := (Session.run host (.start env plan dir) steps).2
    let x := (makeTempFile host start close).run s
    (∃ p, x.1 = .ok p ∧ close = none ∧ MadeOnly host start s p x.2) ∨
      ∃ f, x.1 = .error f ∧ NotMade host start s f x.2 ∧ x.2.tree = s.tree := by
  intro s x
  have hproper : s.IsProper := proper_run env plan dir steps
  have hdir : x.2.NamesDir := by
    have hstart : Holding State.NamesDir s s := ⟨rfl, namesDir_run env plan dir steps⟩
    exact (unread_makeTempFile (invariant_namesDir host).unread hstart start close).related.2
  exact (outcome_makeTempFile start close s).allOrNothing hnames hproper hdir

theorem drawsNames_plainHost : plainHost.DrawsNames := by
  intro part hp
  rw [List.mem_singleton.1 hp]
  exact ⟨by decide, 'k', by decide, by decide⟩

/-- The first file of a session whose directory was found before the variable for it changed. -/
theorem temp_file_all_or_nothing_plain :
    let steps := [Step.call (.makeTempFile "a" (some ⟨5, none⟩)), .change (.setVar "TMPDIR" "/var/tmp")]
    let s := (Session.run plainHost (.start {} [.dir "/tmp" 0o700, .dir "/var/tmp" 0o700] "/") steps).2
    ∃ p s', (makeTempFile plainHost "a").run s = (.ok p, s') ∧ p.toString = "/tmp/ak3v9x_ab" ∧
      MadeOnly plainHost "a" s p s' := by
  intro steps s
  have hrun : ((makeTempFile plainHost "a").run s).1 = .ok ⟨.root, ["ak3v9x_ab", "tmp"]⟩ := by decide +kernel
  rcases temp_file_all_or_nothing drawsNames_plainHost {} [.dir "/tmp" 0o700, .dir "/var/tmp" 0o700] "/" steps "a" none
    with ⟨p, hp, -, hmade⟩ | ⟨f, hf, -⟩
  · rw [hrun] at hp
    cases hp
    exact ⟨_, _, Prod.ext hrun rfl, by decide +kernel, hmade⟩
  · rw [hrun] at hf
    cases hf

/-- A value is bad not only for the start: a name that is drawn can hold the zero character as well. -/
theorem bad_value_without_bad_start :
    ¬ ∀ (host : Host), host.DrawsNames → ∀ (env : Environment) (plan : List Planned) (dir start : String)
      (close : Option CloseFault) (f : Failure),
      ((makeTempFile host start close).run (.start env plan dir)).1 = .error f → f.category = .badValue →
        '/' ∈ start.toList ∨ '\x00' ∈ start.toList := by
  intro hall
  have hdraws : ({ plainHost with tempNames := ["a\x00b"] } : Host).DrawsNames := by
    intro part hp
    rw [List.mem_singleton.1 hp]
    exact ⟨by decide, 'a', by decide, by decide⟩
  have hbad := hall _ hdraws {} [.dir "/tmp" 0o755] "/" "x" none .zeroByte (by decide +kernel) rfl
  exact absurd hbad (by decide)

end Whereabouts

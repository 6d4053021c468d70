import CommandGrammar.Proofs.Command.Run
import CommandGrammar.Proofs.Files.Path
import CommandGrammar.Proofs.Files.Tree
import CommandGrammar.Proofs.Header.Agreement

/-!
What a run leaves behind.

A run that does not install headers leaves the files as they were. A run that installs them makes
the output directory and writes three files; these stand at different places, so each of them is
left with its own text. Everything else stays as it was.
-/

set_option autoImplicit false
set_option relaxedAutoImplicit false

namespace CommandGrammar

def Header.endings : List String := ["enums.h", "call.h", "tokens.h"]

theorem Header.names_of_files {options : Options} {t : ParserTables} {headers : List File}
    (h : files options t = .ok headers) :
    headers.map File.name = endings.map (options.namePrefix ++ ·) := by
  rw [files_of_consistent (consistent_of_files h)] at h
  cases h
  rfl

namespace Command

open Text

/-- Headers are written one after the other, from the first tree to the second. -/
inductive Written (directory : Path) : List Header.File → FileTree → FileTree → Prop where
  | done (t : FileTree) : Written directory [] t t
  | step {header : Header.File} {headers : List Header.File} {t written t' : FileTree} :
      t.write (headerPath directory header) (Utf8.encode header.text.toList) = .ok written →
      Written directory headers written t' → Written directory (header :: headers) t t'

theorem written_of_installFiles {debug : Bool} {directory : Path} {headers : List Header.File}
    {s left : RunState} (h : onTree.installFiles debug directory headers s = (.exit 0, left)) :
    Written directory headers s.tree left.tree ∧
      left.report.output = s.report.output ++
        headers.map fun header => "[EMIT] " ++ (headerPath directory header).toString := by
  induction headers generalizing s with
  | nil =>
    cases h
    exact ⟨.done _, (List.append_nil _).symm⟩
  | cons header headers ih =>
    rw [onTree_installFiles_cons] at h
    split at h
    · cases h
    · next written hwritten =>
      obtain ⟨hrest, houtput⟩ := ih h
      refine ⟨.step hwritten hrest, houtput.trans ?_⟩
      exact List.append_assoc _ _ _

namespace Written

variable {directory : Path} {headers : List Header.File} {t t' : FileTree}

theorem keepsDirectories (h : Written directory headers t t') : t.KeepsDirectories t' := by
  induction h with
  | done t => exact .refl t
  | step hwrite _ ih =>
    obtain ⟨-, location, -, vacant, rfl⟩ := FileTree.write_eq_ok.mp hwrite
    exact (FileTree.KeepsDirectories.setNode vacant _).trans ih

theorem changed (h : Written directory headers t t') {location : Location}
    (hchanged : t'.node? location ≠ t.node? location) :
    t.node? location ≠ some .directory ∧
      ∃ header ∈ headers, t'.locate (headerPath directory header) = .ok location := by
  induction h with
  | done t => exact absurd rfl hchanged
  | @step header headers t written t' hwrite hrest ih =>
    obtain ⟨-, place, hlocate, vacant, rfl⟩ := FileTree.write_eq_ok.mp hwrite
    have hkept := FileTree.KeepsDirectories.setNode vacant
      (.file (Utf8.encode header.text.toList))
    by_cases hplace : location = place
    · subst hplace
      refine ⟨vacant, header, List.mem_cons_self, ?_⟩
      exact (hkept.trans hrest.keepsDirectories).locate hlocate
    · have hnode := FileTree.node?_setNode vacant
        (.file (Utf8.encode header.text.toList)) location
      rw [if_neg hplace] at hnode
      rw [← hnode] at hchanged ⊢
      obtain ⟨hvacant, other, hother, hfound⟩ := ih hchanged
      exact ⟨hvacant, other, List.mem_cons_of_mem _ hother, hfound⟩

theorem changed_since {before : FileTree} {root : String} {names : List String}
    (h : Written directory headers t t') (new : FileTree.NewDirectories root names before t)
    {location : Location} (hchanged : t'.node? location ≠ before.node? location) :
    (before.node? location ≠ some .directory ∧
      ∃ header ∈ headers, t'.locate (headerPath directory header) = .ok location) ∨
    (before.node? location = none ∧ t'.node? location = some .directory ∧
      ∃ front, front <+: names ∧ t'.locate ⟨root, front⟩ = .ok location) := by
  by_cases hkept : t'.node? location = t.node? location
  · rw [hkept] at hchanged
    obtain ⟨hnone, hdirectory, front, hfront, hlocate⟩ := new.changed location hchanged
    refine .inr ⟨hnone, hkept.trans hdirectory, front, hfront, ?_⟩
    exact h.keepsDirectories.locate hlocate
  · obtain ⟨hvacant, hheader⟩ := h.changed hkept
    refine .inl ⟨fun hdirectory => ?_, hheader⟩
    exact hvacant (new.keepsDirectories.directories location hdirectory)

theorem read_of_apart (h : Written directory headers t t') {path : Path} {octets : List UInt8}
    (hread : t.read path = .ok octets)
    (apart : ∀ header ∈ headers, t'.Apart path (headerPath directory header)) :
    t'.read path = .ok octets := by
  obtain ⟨hnull, location, hlocate, hnode⟩ := FileTree.read_eq_ok.mp hread
  have hlocate' := h.keepsDirectories.locate hlocate
  refine FileTree.read_eq_ok.mpr ⟨hnull, location, hlocate', ?_⟩
  by_cases hkept : t'.node? location = t.node? location
  · exact hkept.trans hnode
  · obtain ⟨-, header, hheader, hfound⟩ := h.changed hkept
    exact absurd hfound (apart header hheader location hlocate')

theorem read_headers (h : Written directory headers t t')
    (apart : headers.Pairwise fun a b =>
      t'.Apart (headerPath directory a) (headerPath directory b)) :
    ∀ header ∈ headers,
      t'.read (headerPath directory header) = .ok (Utf8.encode header.text.toList) := by
  induction h with
  | done t => simp
  | @step header headers t written t' hwrite hrest ih =>
    obtain ⟨hfirst, hothers⟩ := List.pairwise_cons.mp apart
    rw [List.forall_mem_cons]
    exact ⟨hrest.read_of_apart (FileTree.read_of_write hwrite) hfirst, ih hothers⟩

end Written

theorem apart_of_endings (t : FileTree) (directory : Path) (text : String) {a b : String}
    (ha : Path.Ending a) (hb : Path.Ending b) (different : a ≠ b) :
    t.Apart (directory ++ Path.ofString (text ++ a)) (directory ++ Path.ofString (text ++ b)) := by
  obtain ⟨root, front, last, hpath⟩ := Path.exists_join_append directory text
  have hname : ∀ suffix location, Path.Ending suffix →
      t.locate (directory ++ Path.ofString (text ++ suffix)) = .ok location →
      location.getLast? = some (last ++ suffix) := by
    intro suffix location hsuffix h
    rw [hpath suffix hsuffix] at h
    exact FileTree.getLast?_of_walk (hsuffix.append_ne last) h
  intro location hlocate hlocate'
  have hsame := (hname a location ha hlocate).symm.trans (hname b location hb hlocate')
  exact different ((String.append_right_inj last).mp (Option.some.inj hsame))

theorem pairwise_apart_of_names {t : FileTree} {directory : Path} {text : String}
    {headers : List Header.File}
    (names : headers.map Header.File.name = Header.endings.map (text ++ ·)) :
    headers.Pairwise fun a b => t.Apart (headerPath directory a) (headerPath directory b) := by
  have hendings : Header.endings.Pairwise fun a b =>
      Path.Ending a ∧ Path.Ending b ∧ a ≠ b := by decide
  have hpaths : (headers.map Header.File.name).Pairwise fun a b =>
      t.Apart (directory ++ Path.ofString a) (directory ++ Path.ofString b) := by
    rw [names, List.pairwise_map]
    refine hendings.imp ?_
    rintro a b ⟨ha, hb, different⟩
    exact apart_of_endings t directory text ha hb different
  rw [List.pairwise_map] at hpaths
  exact hpaths

structure Installed (file : String) (settings : Settings) (directory : Path)
    (headers : List Header.File) (before after : FileTree) : Prop where
  compiled : ∃ c,
    (Compilation.ofFile settings.convention (before.read (Path.ofString file))).result = .ok c ∧
      Header.files settings.headerOptions c.tables = .ok headers
  names : headers.map Header.File.name = Header.endings.map (settings.namePrefix ++ ·)
  contents : ∀ header ∈ headers,
    after.read (headerPath directory header) = .ok (Utf8.encode header.text.toList)
  workingDirectory : after.workingDirectory = before.workingDirectory
  changed : ∀ location, after.node? location ≠ before.node? location →
    (before.node? location ≠ some .directory ∧
      ∃ header ∈ headers, after.locate (headerPath directory header) = .ok location) ∨
    (before.node? location = none ∧ after.node? location = some .directory ∧
      ∃ front, front <+: directory.names ∧ after.locate ⟨directory.root, front⟩ = .ok location)

theorem installed_of_install {file : String} {settings : Settings} {c : Compilation}
    {headers : List Header.File} {before : FileTree} {report : Report} {left : RunState}
    (hcompiled : (Compilation.ofFile settings.convention
      (before.read (Path.ofString file))).result = .ok c)
    (hheaders : Header.files settings.headerOptions c.tables = .ok headers)
    (h : onTree.install settings headers ⟨report, before⟩ = (.exit 0, left)) :
    ∃ directory, settings.directory = .ok directory ∧
      Installed file settings directory headers before left.tree ∧
      left.report.output = report.output ++
        headers.map fun header => "[EMIT] " ++ (headerPath directory header).toString := by
  rw [onTree_install] at h
  split at h
  · cases h
  · next directory hdirectory =>
    split at h
    · cases h
    · next made hmade =>
      obtain ⟨hwritten, houtput⟩ := written_of_installFiles h
      have hnew := before.newDirectories_makeDirectories directory
      rw [hmade] at hnew
      have hnames := Header.names_of_files hheaders
      refine ⟨directory, hdirectory, ?_, houtput⟩
      refine ⟨⟨c, hcompiled, hheaders⟩, hnames, ?_, ?_, fun location => hwritten.changed_since hnew⟩
      · exact hwritten.read_headers (pairwise_apart_of_names hnames)
      · exact hwritten.keepsDirectories.workingDirectory.trans hnew.workingDirectory

/-- The code tells what a run did to the files. `check` leaves them as they were, and so does a
`build` that ends with the code for failures; a `build` that ends with zero has installed its
headers and has printed a line for each. -/
theorem exit_code_tells_changes (file : String) (settings : Settings) (before : FileTree) :
    (run ⟨.check, file, settings⟩ before).tree = before ∧
    let built := run ⟨.build, file, settings⟩ before
    (built.ending = .exit 2 → built.tree = before) ∧
    (built.ending = .exit 0 → ∃ directory headers, settings.directory = .ok directory ∧
      Installed file settings directory headers before built.tree ∧
      built.report.output =
        headers.map fun header => "[EMIT] " ++ (headerPath directory header).toString) := by
  constructor
  · obtain ⟨report, code, hprepared⟩ :=
      exists_prepareCheck settings (before.read (Path.ofString file))
    have hchecked : run ⟨.check, file, settings⟩ before = _ := run_of_finish hprepared
    rw [hchecked]
  · intro built
    rcases prepareBuild_cases settings (before.read (Path.ofString file)) with
      ⟨report, hprepared⟩ | ⟨report, c, headers, hprepared, hprinted, hcompiled, hheaders⟩
    · have hbuilt : built = _ := run_of_finish hprepared
      rw [hbuilt]
      exact ⟨fun _ => rfl, fun h => by cases h⟩
    · obtain ⟨ending, left, hinstalled⟩ :
          ∃ ending left, onTree.install settings headers ⟨report, before⟩ = (ending, left) :=
        ⟨_, _, rfl⟩
      have hbuilt : built = _ := run_of_install hprepared hinstalled
      rw [hbuilt]
      constructor
      · -- a build that comes to install never ends with the code for failures
        intro h
        cases h
        rcases ending_install headers ⟨report, before⟩ settings with hexit | ⟨e, hfailed⟩
        · cases hexit.symm.trans (congrArg Prod.fst hinstalled)
        · cases hfailed.symm.trans (congrArg Prod.fst hinstalled)
      · intro h
        cases h
        obtain ⟨directory, hdirectory, hinstalled, houtput⟩ :=
          installed_of_install hcompiled hheaders hinstalled
        rw [hprinted, List.nil_append] at houtput
        exact ⟨directory, headers, hdirectory, hinstalled, houtput⟩

def turnstileTree : FileTree where
  nodes := ⟨[(["enums.h"], .file (Utf8.encode turnstileSource.toList))], by decide⟩
  workingDirectory := []

/-- Settings under which the header for the states replaces that file, by way of a new directory. -/
def turnstileSettings : Settings := { output := some "out/..", namePrefix := "" }

theorem ending_turnstile_build :
    (run ⟨.build, "enums.h", turnstileSettings⟩ turnstileTree).ending = .exit 0 := by
  decide +kernel

/-- The build of the turnstile replaces its own grammar. -/
theorem turnstile_build_installs :
    (run ⟨.build, "enums.h", turnstileSettings⟩ turnstileTree).ending = .exit 0 ∧
    ∃ directory headers, turnstileSettings.directory = .ok directory ∧
      Installed "enums.h" turnstileSettings directory headers turnstileTree
        (run ⟨.build, "enums.h", turnstileSettings⟩ turnstileTree).tree ∧
      (run ⟨.build, "enums.h", turnstileSettings⟩ turnstileTree).report.output =
        headers.map fun header => "[EMIT] " ++ (headerPath directory header).toString := by
  have hchanges := exit_code_tells_changes "enums.h" turnstileSettings turnstileTree
  exact ⟨ending_turnstile_build, hchanges.2.2 ending_turnstile_build⟩

end Command

end CommandGrammar

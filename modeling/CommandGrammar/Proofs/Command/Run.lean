import CommandGrammar.Command.Run
import CommandGrammar.Proofs.Agree
import CommandGrammar.Proofs.Compilation

set_option autoImplicit false
set_option relaxedAutoImplicit false

namespace CommandGrammar.Command

def Report.ofFailure (debug : Bool) (log : List Note) (e : Failure) : Report where
  errors := log.flatMap (noteLines debug) ++ failureLines e

section Prepare

variable {α : Type} (debug : Bool) {compiled : Logged Note Failure (Compilation × α)}
  (next : Compilation → α → List String × Continuation)

theorem prepareWith_of_error {e : Failure} (h : compiled.result = .error e) :
    prepareWith debug compiled next =
      (Report.ofFailure debug compiled.log e, .finish failureCode) := by
  unfold prepareWith
  rw [h]
  rfl

theorem prepareWith_of_ok {c : Compilation} {a : α} (h : compiled.result = .ok (c, a)) :
    ∃ errors, prepareWith debug compiled next = (⟨(next c a).1, errors⟩, (next c a).2) := by
  unfold prepareWith
  rw [h]
  exact ⟨_, rfl⟩

end Prepare

section Compiled

variable (settings : Settings) (octets : Except FileError (List UInt8))

def compileChecked : Logged Note Failure (Compilation × Unit) := do
  let c ← Compilation.ofFile {} octets
  return (c, ())

/-- What `build` compiles: a grammar with its headers. -/
def compileBuilt : Logged Note Failure (Compilation × List Header.File) := do
  let c ← Compilation.ofFile settings.convention octets
  let files ← .ofExcept ((Header.files settings.headerOptions c.tables).mapError .write)
  return (c, files)

theorem prepareCheck_eq : prepareCheck settings octets =
    prepareWith settings.debug (compileChecked octets) fun c _ => ([summary c], .finish 0) :=
  rfl

theorem prepareBuild_eq : prepareBuild settings octets =
    prepareWith settings.debug (compileBuilt settings octets)
      fun _ files => ([], .install files) :=
  rfl

variable {settings octets}

theorem compileBuilt_eq_ok {c : Compilation} {files : List Header.File} :
    (compileBuilt settings octets).result = .ok (c, files) ↔
      (Compilation.ofFile settings.convention octets).result = .ok c ∧
        Header.files settings.headerOptions c.tables = .ok files := by
  unfold compileBuilt
  rw [Logged.result_bind_eq_ok]
  constructor
  · rintro ⟨found, hfound, h⟩
    obtain ⟨written, hwritten, h⟩ := Logged.result_bind_eq_ok.mp h
    cases h
    exact ⟨hfound, Outcome.mapError_eq_ok.mp hwritten⟩
  · rintro ⟨hc, hfiles⟩
    refine ⟨c, hc, Logged.result_bind_eq_ok.mpr ⟨files, ?_, rfl⟩⟩
    exact Outcome.mapError_eq_ok.mpr hfiles

/-- `build` finishes with the code for failures, or it installs the headers of the compiled grammar
and has printed nothing before. -/
theorem prepareBuild_cases (settings : Settings) (octets : Except FileError (List UInt8)) :
    (∃ report, prepareBuild settings octets = (report, .finish failureCode)) ∨
    ∃ report c files, prepareBuild settings octets = (report, .install files) ∧
      report.output = [] ∧ (Compilation.ofFile settings.convention octets).result = .ok c ∧
      Header.files settings.headerOptions c.tables = .ok files := by
  rw [prepareBuild_eq]
  cases hresult : (compileBuilt settings octets).result with
  | error e => exact .inl ⟨_, prepareWith_of_error _ _ hresult⟩
  | ok found =>
    obtain ⟨c, files⟩ := found
    obtain ⟨errors, hprepared⟩ := prepareWith_of_ok settings.debug
      (fun _ files => ([], .install files)) hresult
    obtain ⟨hc, hfiles⟩ := compileBuilt_eq_ok.mp hresult
    exact .inr ⟨_, c, files, hprepared, rfl, hc, hfiles⟩

theorem exists_prepareCheck (settings : Settings) (octets : Except FileError (List UInt8)) :
    ∃ report code, prepareCheck settings octets = (report, .finish code) := by
  rw [prepareCheck_eq]
  cases hresult : (compileChecked octets).result with
  | error e => exact ⟨_, _, prepareWith_of_error _ _ hresult⟩
  | ok found =>
    obtain ⟨errors, hprepared⟩ := prepareWith_of_ok settings.debug
      (fun c _ => ([summary c], .finish 0)) hresult
    exact ⟨_, _, hprepared⟩

end Compiled

/-- What two machines do to their states agrees along a relation. -/
structure Host.Alike {σ τ : Type} (R : σ → τ → Prop) (host : Host (StateM σ))
    (host' : Host (StateM τ)) : Prop where
  makeDirectories : ∀ path, Agree R (host.makeDirectories path) (host'.makeDirectories path)
  write : ∀ path octets, Agree R (host.write path octets) (host'.write path octets)
  print : ∀ report, Agree R (host.print report) (host'.print report)

namespace Host.Alike

variable {σ τ : Type} {R : σ → τ → Prop} {host : Host (StateM σ)} {host' : Host (StateM τ)}

theorem installFiles (h : Alike R host host') (debug : Bool) (directory : Path)
    (files : List Header.File) : Agree R (host.installFiles debug directory files)
      (host'.installFiles debug directory files) := by
  induction files with
  | nil => exact .pure _
  | cons file files ih =>
    refine (h.write _ _).bind fun written => ?_
    cases written with
    | error e => exact .pure _
    | ok _ => exact (h.print _).bind fun _ => ih

theorem install (h : Alike R host host') (settings : Settings) (files : List Header.File) :
    Agree R (host.install settings files) (host'.install settings files) := by
  unfold Host.install
  split
  · exact .pure _
  · next directory _ =>
    refine (h.makeDirectories directory).bind fun made => ?_
    cases made with
    | error e => exact .pure _
    | ok _ => exact h.installFiles _ _ _

theorem proceed (h : Alike R host host') (settings : Settings)
    (prepared : Report × Continuation) :
    Agree R (host.proceed settings prepared) (host'.proceed settings prepared) := by
  obtain ⟨report, code | files⟩ := prepared
  · exact (h.print report).bind fun _ => .pure _
  · exact (h.print report).bind fun _ => h.install settings files

theorem run (h : Alike R host host')
    (hread : ∀ path, Agree R (host.read path) (host'.read path)) (request : Request) :
    Agree R (host.run request) (host'.run request) :=
  (hread _).bind fun octets => h.proceed request.settings (prepare request octets)

end Host.Alike

/-- On a machine that does what a tree of files does, a run ends as on the tree, and leaves what the
run on the tree leaves. -/
theorem exists_run_eq_of_alike {σ : Type} {R : RunState → σ → Prop} {host : Host (StateM σ)}
    (h : onTree.Alike R host) (hread : ∀ path, Agree R (onTree.read path) (host.read path))
    (request : Request) {tree : FileTree} {s : σ} (start : R { tree } s) :
    ∃ left, run request tree = ⟨left.report, (host.run request s).1, left.tree⟩ ∧
      R left (host.run request s).2 := by
  obtain ⟨hending, hleft⟩ := h.run hread request start
  refine ⟨_, ?_, hleft⟩
  rw [hending]
  rfl

section Run

variable {request : Request} {tree : FileTree} {report : Report}

theorem onTree_run (request : Request) (s : RunState) :
    onTree.run request s = onTree.proceed request.settings
      (prepare request (s.tree.read (Path.ofString request.file))) s :=
  rfl

theorem run_of_finish {code : Nat}
    (h : prepare request (tree.read (Path.ofString request.file)) = (report, .finish code)) :
    run request tree = ⟨report, .exit code, tree⟩ := by
  unfold run
  rw [onTree_run, h]
  rfl

theorem run_of_install {files : List Header.File} {ending : Ending} {left : RunState}
    (h : prepare request (tree.read (Path.ofString request.file)) = (report, .install files))
    (hinstalled : onTree.install request.settings files ⟨report, tree⟩ = (ending, left)) :
    run request tree = ⟨left.report, ending, left.tree⟩ := by
  have hproceed : onTree.proceed request.settings (report, .install files) { tree } =
      (ending, left) := hinstalled
  unfold run
  rw [onTree_run, h, hproceed]

end Run

section Install

variable (debug : Bool) (directory : Path) (file : Header.File) (files : List Header.File)
  (s : RunState)

theorem onTree_write (path : Path) (octets : List UInt8) :
    onTree.write path octets s =
      match s.tree.write path octets with
      | .error e => (.error e, s)
      | .ok written => (.ok (), { s with tree := written }) := by
  change onFiles (FileTree.changing (·.write path octets)) s = _
  unfold onFiles FileTree.changing
  dsimp only
  cases s.tree.write path octets <;> rfl

theorem onTree_installFiles_cons :
    onTree.installFiles debug directory (file :: files) s =
      match s.tree.write (headerPath directory file) (Text.Utf8.encode file.text.toList) with
      | .error e => (.failed e, s)
      | .ok written => onTree.installFiles debug directory files
          ⟨s.report ++ installedReport debug (headerPath directory file) file, written⟩ := by
  rw [Host.installFiles]
  dsimp only [bind, StateT.bind]
  rw [onTree_write]
  cases s.tree.write (headerPath directory file) (Text.Utf8.encode file.text.toList) <;> rfl

theorem onTree_install (settings : Settings) :
    onTree.install settings files s =
      match settings.directory with
      | .error e => (.failed e, s)
      | .ok directory =>
        match FileTree.makeDirectories directory s.tree with
        | (.error e, made) => (.failed e, { s with tree := made })
        | (.ok (), made) =>
          onTree.installFiles settings.debug directory files { s with tree := made } := by
  unfold Host.install
  cases settings.directory with
  | error e => rfl
  | ok directory =>
    have hmade : onTree.makeDirectories directory s =
        ((FileTree.makeDirectories directory s.tree).1,
          { s with tree := (FileTree.makeDirectories directory s.tree).2 }) := rfl
    dsimp only [bind, StateT.bind]
    rw [hmade]
    rcases FileTree.makeDirectories directory s.tree with ⟨_ | _, made⟩ <;> rfl

theorem ending_installFiles :
    (onTree.installFiles debug directory files s).1 = .exit 0 ∨
      ∃ e, (onTree.installFiles debug directory files s).1 = .failed e := by
  induction files generalizing s with
  | nil => exact .inl rfl
  | cons file files ih =>
    rw [onTree_installFiles_cons]
    split
    · exact .inr ⟨_, rfl⟩
    · exact ih _

theorem ending_install (settings : Settings) :
    (onTree.install settings files s).1 = .exit 0 ∨
      ∃ e, (onTree.install settings files s).1 = .failed e := by
  rw [onTree_install]
  split
  · exact .inr ⟨_, rfl⟩
  · split
    · exact .inr ⟨_, rfl⟩
    · exact ending_installFiles _ _ _ _

end Install

end CommandGrammar.Command

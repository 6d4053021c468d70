import CommandGrammar.Proofs.Command.Run

set_option autoImplicit false
set_option relaxedAutoImplicit false

namespace CommandGrammar.Command

section Refused

variable {octets : Except FileError (List UInt8)} {e : Failure}

theorem prepareWith_of_refused {α : Type}
    (refused : (Compilation.acceptFile octets).result = .error e) (debug : Bool)
    (conv : Convention) (rest : Compilation → Logged Note Failure (Compilation × α))
    (next : Compilation → α → List String × Continuation) :
    prepareWith debug (Compilation.ofFile conv octets >>= rest) next =
      (Report.ofFailure debug (Compilation.acceptFile octets).log e, .finish failureCode) := by
  have hcompiled : Compilation.ofFile conv octets >>= rest =
      ⟨(Compilation.acceptFile octets).log, .error e⟩ := by
    rw [Compilation.ofFile_eq, bind_assoc]
    exact Logged.bind_of_error refused _
  rw [hcompiled]
  exact prepareWith_of_error debug next rfl

theorem prepareCheck_of_refused (refused : (Compilation.acceptFile octets).result = .error e)
    (settings : Settings) :
    prepareCheck settings octets =
      (Report.ofFailure settings.debug (Compilation.acceptFile octets).log e,
        .finish failureCode) := by
  rw [prepareCheck_eq, compileChecked]
  exact prepareWith_of_refused refused settings.debug {} _ _

theorem prepareBuild_of_refused (refused : (Compilation.acceptFile octets).result = .error e)
    (settings : Settings) :
    prepareBuild settings octets =
      (Report.ofFailure settings.debug (Compilation.acceptFile octets).log e,
        .finish failureCode) := by
  rw [prepareBuild_eq, compileBuilt]
  exact prepareWith_of_refused refused settings.debug settings.convention _ _

end Refused

section Accepted

variable {octets : Except FileError (List UInt8)} {g : Grammar}

/-- An accepted file is compiled under every convention, into tables whose headers are written. -/
theorem ofFile_of_accepted (accepted : (Compilation.acceptFile octets).result = .ok g)
    (conv : Convention) (options : Header.Options) :
    ∃ c files, (Compilation.ofFile conv octets).result = .ok c ∧
      Header.files options c.tables = .ok files := by
  obtain ⟨calls, -, hconsistent, hcompiled⟩ := Compilation.exists_ofAccepted accepted conv
  refine ⟨g.compiledWith calls, _, ?_, Header.files_of_consistent hconsistent options⟩
  rw [Compilation.ofFile_eq]
  exact Logged.result_bind_eq_ok.mpr ⟨g, accepted, hcompiled⟩

theorem prepareCheck_of_accepted (accepted : (Compilation.acceptFile octets).result = .ok g)
    (settings : Settings) : ∃ report, prepareCheck settings octets = (report, .finish 0) := by
  obtain ⟨c, -, hc, -⟩ := ofFile_of_accepted accepted {} settings.headerOptions
  have hcompiled : (compileChecked octets).result = .ok (c, ()) :=
    Logged.result_bind_eq_ok.mpr ⟨c, hc, rfl⟩
  obtain ⟨errors, hprepared⟩ := prepareWith_of_ok settings.debug
    (fun c _ => ([summary c], .finish 0)) hcompiled
  exact ⟨_, hprepared⟩

theorem prepareBuild_of_accepted (accepted : (Compilation.acceptFile octets).result = .ok g)
    (settings : Settings) :
    ∃ report files, prepareBuild settings octets = (report, .install files) := by
  obtain ⟨c, files, hc, hfiles⟩ :=
    ofFile_of_accepted accepted settings.convention settings.headerOptions
  obtain ⟨errors, hprepared⟩ := prepareWith_of_ok settings.debug
    (fun _ files => ([], .install files)) (compileBuilt_eq_ok.mpr ⟨hc, hfiles⟩)
  exact ⟨_, files, hprepared⟩

end Accepted

/-- `check` and `build` agree on every file, whatever the settings of the build. Either `check`
succeeds and `build` comes to the point where it installs headers, so that nothing but the file
system can fail; or both end with the code for failures and with the same report. -/
theorem check_and_build_agree (file : String) (settings : Settings) (tree : FileTree) :
    let checked := run ⟨.check, file, { debug := settings.debug }⟩ tree
    let built := run ⟨.build, file, settings⟩ tree
    let prepared := prepareBuild settings (tree.read (Path.ofString file))
    (checked.ending = .exit 0 ↔ ∃ report headers, prepared = (report, .install headers)) ∧
    (checked.ending = .exit 0 ∧ (built.ending = .exit 0 ∨ ∃ e, built.ending = .failed e) ∨
      checked.ending = .exit 2 ∧ built.ending = .exit 2 ∧ built.report = checked.report) := by
  intro checked built prepared
  cases haccepted : (Compilation.acceptFile (tree.read (Path.ofString file))).result with
  | error e =>
    have hchecked : checked = _ := run_of_finish (prepareCheck_of_refused haccepted _)
    have hbuilt : built = _ := run_of_finish (prepareBuild_of_refused haccepted settings)
    have hprepared : prepared = _ := prepareBuild_of_refused haccepted settings
    rw [hchecked, hbuilt, hprepared]
    refine ⟨⟨fun h => ?_, ?_⟩, .inr ⟨rfl, rfl, rfl⟩⟩
    · cases h
    · rintro ⟨report, headers, h⟩
      cases h
  | ok g =>
    obtain ⟨report, hcheck⟩ :=
      prepareCheck_of_accepted haccepted { debug := settings.debug }
    obtain ⟨report', headers, hbuild⟩ := prepareBuild_of_accepted haccepted settings
    have hchecked : checked = _ := run_of_finish hcheck
    have hbuilt : built = _ := run_of_install hbuild rfl
    rw [hchecked, hbuilt]
    refine ⟨⟨fun _ => ⟨report', headers, hbuild⟩, fun _ => rfl⟩, .inl ⟨rfl, ?_⟩⟩
    exact ending_install headers ⟨report', tree⟩ settings

end CommandGrammar.Command

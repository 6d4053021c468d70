import CommandGrammar.Proofs.Command.Run
import CommandGrammar.Proofs.Files.Alike
import CommandGrammar.Proofs.Text.Newlines
import CommandGrammar.Proofs.Text.Utf8

set_option autoImplicit false
set_option relaxedAutoImplicit false

namespace CommandGrammar

open Text

def Text.Spelling.octets (s : Spelling) : List UInt8 :=
  Utf8.encode s.text

namespace Source

theorem text_of_proper {s : Spelling} (h : s.Proper) : text s.octets = .ok (joinLines s.lines) := by
  have hdecoded : Utf8.decode s.octets = .ok s.text := Utf8.decode_encode s.text
  unfold text
  rw [hdecoded]
  show Except.ok (String.ofList (unifyNewlines s.text)) = _
  rw [h.unifyNewlines_text, String.ofList_toList]

theorem lines_of_proper {s : Spelling} (h : s.Proper) : lines s.octets = .ok s.lines := by
  unfold lines
  rw [text_of_proper h]
  exact congrArg Except.ok h.lines_joinLines

/-- In the text of a file no newline is left that is not a line feed, so replacing pairs and then
carriage returns leaves it as it is. -/
theorem newlines_of_text {octets : List UInt8} {found : String} (h : text octets = .ok found) :
    '\r' ∉ found.toList ∧ replaceReturns (replacePairs found.toList) = found.toList := by
  obtain ⟨cs, -, rfl⟩ := Outcome.map_eq_ok.mp h
  rw [String.toList_ofList]
  exact ⟨carriageReturn_not_mem_unifyNewlines cs, replace_unifyNewlines cs⟩

end Source

theorem Compilation.ofFile_ok (conv : Convention) (octets : List UInt8) :
    ofFile conv (.ok octets) =
      Logged.ofExcept ((Source.lines octets).mapError .decode) >>= ofLines conv :=
  rfl

namespace Command

theorem prepare_congr {x y : Except FileError (List UInt8)}
    (h : ∀ conv, Compilation.ofFile conv y = Compilation.ofFile conv x) (request : Request) :
    prepare request y = prepare request x := by
  unfold prepare
  split
  · unfold prepareCheck
    rw [h]
  · unfold prepareBuild
    rw [h]

/-- Two runs print the same, end in the same way, and leave trees that are alike but for the file at
`place`. -/
structure RunsAlike (place : Location) (x y : List UInt8) (first second : Outcome) : Prop where
  report : second.report = first.report
  ending : second.ending = first.ending
  tree : FileTree.AlikeBut place x y first.tree second.tree

/-- The same has been printed, and the trees are alike but for the file at `place`. -/
def StatesAlike (place : Location) (x y : List UInt8) (s s' : RunState) : Prop :=
  s'.report = s.report ∧ FileTree.AlikeBut place x y s.tree s'.tree

section Install

variable {place : Location} {x y : List UInt8} {t u : FileTree}

theorem agree_onFiles {α : Type} {step : StateM FileTree α}
    (h : Agree (FileTree.AlikeBut place x y) step step) :
    Agree (StatesAlike place x y) (onFiles step) (onFiles step) := by
  rintro s s' ⟨hreport, halike⟩
  obtain ⟨hanswer, hleft⟩ := h halike
  exact ⟨hanswer, hreport, hleft⟩

theorem onTree_alike : onTree.Alike (StatesAlike place x y) onTree where
  makeDirectories path := agree_onFiles (FileTree.agree_makeDirectories place x y path)
  write path octets := agree_onFiles
    (FileTree.agree_changing place x y fun _ _ halike => halike.write path octets)
  print report := by
    rintro s s' ⟨hreport, halike⟩
    exact ⟨rfl, congrArg (· ++ report) hreport, halike⟩

theorem run_alike {request : Request} (h : FileTree.AlikeBut place x y t u)
    (ht : t.read (Path.ofString request.file) = .ok x)
    (hu : u.read (Path.ofString request.file) = .ok y)
    (hcompiled : ∀ conv, Compilation.ofFile conv (.ok y) = Compilation.ofFile conv (.ok x)) :
    RunsAlike place x y (run request t) (run request u) := by
  have start : StatesAlike place x y { tree := t } { tree := u } := ⟨rfl, h⟩
  obtain ⟨hending, hreport, htree⟩ :=
    onTree_alike.proceed request.settings (prepare request (.ok x)) start
  unfold run
  rw [onTree_run, onTree_run, ht, hu, prepare_congr hcompiled]
  exact ⟨hreport, hending, htree⟩

end Install

end Command

/-- However the newlines between given lines are chosen, the file is read as these lines, and no
other newline than line feeds is left to replace in its text; all such files are compiled alike,
with the same notes, result or failure; and all runs on them print the same, end in the same way and
write the same files. -/
theorem newlines_do_not_matter {s : Spelling} (proper : s.Proper) :
    (∃ text, Source.text s.octets = .ok text ∧ '\r' ∉ text.toList ∧
      replaceReturns (replacePairs text.toList) = text.toList) ∧
    Source.lines s.octets = .ok s.lines ∧
    ∀ other : Spelling, other.Proper → other.lines = s.lines →
      (∀ conv,
        Compilation.ofFile conv (.ok other.octets) = Compilation.ofFile conv (.ok s.octets)) ∧
      ∀ (request : Command.Request) (tree a b : FileTree),
        tree.write (Path.ofString request.file) s.octets = .ok a →
        tree.write (Path.ofString request.file) other.octets = .ok b →
        ∃ place, tree.locate (Path.ofString request.file) = .ok place ∧
          Command.RunsAlike place s.octets other.octets (Command.run request a)
            (Command.run request b) := by
  have htext := Source.text_of_proper proper
  refine ⟨⟨_, htext, Source.newlines_of_text htext⟩, Source.lines_of_proper proper, ?_⟩
  intro other hother same
  have hlines : Source.lines other.octets = Source.lines s.octets := by
    rw [Source.lines_of_proper proper, Source.lines_of_proper hother, same]
  have hcompiled : ∀ conv, Compilation.ofFile conv (.ok other.octets) =
      Compilation.ofFile conv (.ok s.octets) := by
    intro conv
    rw [Compilation.ofFile_ok, Compilation.ofFile_ok, hlines]
  refine ⟨hcompiled, ?_⟩
  intro request tree a b ha hb
  obtain ⟨place, hplace, halike⟩ := FileTree.alikeBut_of_write ha hb
  refine ⟨place, hplace, ?_⟩
  exact Command.run_alike halike (FileTree.read_of_write ha) (FileTree.read_of_write hb) hcompiled

/-- Two states, with newlines of all kinds; two carriage returns have an empty line between them. -/
def mixedSpelling : Spelling where
  first := "state A:"
  rest := [(.pair, " 'é' -> B"), (.carriageReturn, ""), (.carriageReturn, "state B:"),
    (.lineFeed, "")]

def plainSpelling : Spelling where
  first := "state A:"
  rest := [(.lineFeed, " 'é' -> B"), (.lineFeed, ""), (.lineFeed, "state B:"), (.lineFeed, "")]

theorem proper_mixedSpelling : mixedSpelling.Proper :=
  ⟨by decide, by decide, by decide⟩

theorem proper_plainSpelling : plainSpelling.Proper :=
  ⟨by decide, by decide, by decide⟩

/-- The two spellings are built into the same headers. -/
theorem mixed_newlines_do_not_matter :
    let tree : FileTree := ⟨∅, []⟩
    let a := tree.setNode ["g"] (.file mixedSpelling.octets)
    let b := tree.setNode ["g"] (.file plainSpelling.octets)
    let request : Command.Request := ⟨.build, "g", {}⟩
    mixedSpelling.octets ≠ plainSpelling.octets ∧
    Source.lines mixedSpelling.octets = .ok plainSpelling.lines ∧
    (Command.run request a).ending = .exit 0 ∧
    ∃ place, tree.locate (Path.ofString "g") = .ok place ∧
      Command.RunsAlike place mixedSpelling.octets plainSpelling.octets (Command.run request a)
        (Command.run request b) := by
  intro tree a b request
  obtain ⟨-, hlines, halike⟩ := newlines_do_not_matter proper_mixedSpelling
  obtain ⟨-, hruns⟩ := halike plainSpelling proper_plainSpelling (by decide)
  refine ⟨by decide +kernel, hlines, by decide +kernel, ?_⟩
  exact hruns request tree a b (by decide +kernel) (by decide +kernel)

end CommandGrammar

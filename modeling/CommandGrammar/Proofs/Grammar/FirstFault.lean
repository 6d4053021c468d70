import CommandGrammar.Grammar.Reader
import CommandGrammar.Proofs.Joining.Prefix

set_option autoImplicit false
set_option relaxedAutoImplicit false

namespace CommandGrammar

open Text

namespace Grammar

theorem line_of_rules_eq_error {parts : DefinitionParts} {line : JoinedLine} {fault : Fault}
    (h : parts.rules line = .error fault) : fault.line = line.line := by
  rcases Outcome.bind_eq_error.mp h with htokens | ⟨tokens, -, h⟩
  · obtain ⟨cause, -, rfl⟩ := Outcome.mapError_eq_error.mp htokens
    rfl
  · rcases Outcome.bind_eq_error.mp h with haction | ⟨action, -, h⟩
    · obtain ⟨cause, -, rfl⟩ := Outcome.mapError_eq_error.mp haction
      rfl
    · cases h

theorem line_of_step_eq_error {p : Progress} {line : JoinedLine} {fault : Fault}
    (h : p.step line = .error fault) : fault.line = line.line := by
  unfold Progress.step at h
  split at h
  · cases h
  · split at h
    · cases h
      rfl
    · rcases Outcome.bind_eq_error.mp h with hrules | ⟨rules, -, h⟩
      · exact line_of_rules_eq_error hrules
      · cases h
  · cases h
    rfl

theorem read_eq (source : String) :
    read source = JoinedLine.joinKept none (JoinedLine.kept (lines source)) >>= ofLines := by
  rw [JoinedLine.kept_eq_keptFrom, ← JoinedLine.join_eq_joinKept]
  rfl

theorem read_of_divided {source : String} {groups : List JoinedLine.Group}
    (h : JoinedLine.Divided (JoinedLine.kept (lines source)) groups) :
    read source = ofLines (groups.map JoinedLine.Group.joined) := by
  rw [read_eq, JoinedLine.joinKept_of_divided h]
  rfl

theorem read_of_stray {source : String} {stray : JoinedLine} {rest : List JoinedLine}
    (h : JoinedLine.kept (lines source) = stray :: rest) (continues : ContinuationLine stray.text) :
    read source = .error (JoinedLine.strayFault stray.text stray.line) := by
  rw [read_eq, h, JoinedLine.joinKept_of_stray continues]
  rfl

/-- A text is refused with `fault` at a group: the groups before it are read, and the group is not
well formed after them. -/
def RefusesAt (before : List JoinedLine.Group) (group : JoinedLine.Group) (fault : Fault) : Prop :=
  ∃ reached, (before.map JoinedLine.Group.joined).foldlM Progress.step .initial = .ok reached ∧
    reached.step group.joined = .error fault

theorem RefusesAt.line {before : List JoinedLine.Group} {group : JoinedLine.Group} {fault : Fault}
    (h : RefusesAt before group fault) : fault.line = group.head.line := by
  obtain ⟨reached, -, hfault⟩ := h
  have hline : fault.line = group.joined.line := line_of_step_eq_error hfault
  exact hline

theorem ofLines_eq_error_iff {groups : List JoinedLine.Group} {fault : Fault} :
    ofLines (groups.map JoinedLine.Group.joined) = .error fault ↔
      ∃ before group after, groups = before ++ group :: after ∧ RefusesAt before group fault := by
  unfold ofLines
  rw [Outcome.map_eq_error, Outcome.foldlM_eq_error]
  constructor
  · rintro ⟨_, _, _, reached, hlines, hbefore, hfault⟩
    obtain ⟨before, rest, rfl, rfl, hrest⟩ := List.map_eq_append_iff.mp hlines
    obtain ⟨group, after, rfl, rfl, rfl⟩ := List.map_eq_cons_iff.mp hrest
    exact ⟨before, group, after, rfl, reached, hbefore, hfault⟩
  · rintro ⟨before, group, after, rfl, reached, hbefore, hfault⟩
    refine ⟨before.map JoinedLine.Group.joined, group.joined, after.map JoinedLine.Group.joined,
      reached, ?_, hbefore, hfault⟩
    rw [List.map_append, List.map_cons]

/-- A text is refused at a continuation that comes first, or at one of its groups. -/
theorem read_eq_error_cases {source : String} {fault : Fault} (h : read source = .error fault) :
    (∃ stray rest, JoinedLine.kept (lines source) = stray :: rest ∧
      ContinuationLine stray.text ∧ fault = JoinedLine.strayFault stray.text stray.line) ∨
    ∃ before group after, JoinedLine.Divided (JoinedLine.kept (lines source))
      (before ++ group :: after) ∧ RefusesAt before group fault := by
  rcases JoinedLine.divided_or_stray (JoinedLine.kept (lines source)) with
    ⟨groups, hdivided⟩ | ⟨stray, rest, hkept, harrow⟩
  · rw [read_of_divided hdivided] at h
    obtain ⟨before, group, after, rfl, hrefuses⟩ := ofLines_eq_error_iff.mp h
    exact .inr ⟨before, group, after, hdivided, hrefuses⟩
  · rw [read_of_stray hkept harrow] at h
    cases h
    exact .inl ⟨stray, rest, hkept, harrow, rfl⟩

def firstLines (source : String) (count : Nat) : String :=
  joinLines ((lines source).take count)

theorem kept_firstLines (source : String) (count : Nat) :
    JoinedLine.kept (lines (firstLines source count)) =
      JoinedLine.kept ((lines source).take count) := by
  apply JoinedLine.kept_lines_joinLines
  intro text htext
  exact newline_not_mem_of_mem_lines (List.mem_of_mem_take htext)

/-- What holds of a fault and the physical line `first` that it names: the line counts, the text
before it can be read, and any text that is like this one up to the end of the joined line that
begins there, and does not continue it, is refused with the same fault. -/
structure NamesFirst (source : String) (fault : Fault) (first : Nat) : Prop where
  names : fault.line = first
  within : 1 ≤ first ∧ first ≤ (lines source).length
  counts : ∃ text, (lines source)[first - 1]? = some text ∧ ¬SkippedLine text
  before : ∃ g, read (firstLines source (first - 1)) = .ok g
  ends : ∃ last : Nat, JoinedLine.EndsAt (JoinedLine.kept (lines source)) first last
  stable : ∀ last : Nat, JoinedLine.EndsAt (JoinedLine.kept (lines source)) first last →
    ∀ other, JoinedLine.Resumes (lines source) (lines other) last → read other = .error fault

theorem place_of_mem {texts : List String} {line : JoinedLine} (h : line ∈ JoinedLine.kept texts) :
    ∃ first : Nat, line.line = first ∧ (1 ≤ first ∧ first ≤ texts.length) ∧
      ∃ text, texts[first - 1]? = some text ∧ ¬SkippedLine text := by
  obtain ⟨place, hplace, htext, hcounts⟩ := JoinedLine.mem_kept h
  obtain ⟨hlength, -⟩ := List.getElem?_eq_some_iff.mp htext
  exact ⟨place + 1, hplace, ⟨Nat.le_add_left 1 place, hlength⟩, line.text, htext, hcounts⟩

theorem namesFirst_of_stray {source : String} {stray : JoinedLine} {rest : List JoinedLine}
    (hkept : JoinedLine.kept (lines source) = [] ++ stray :: rest)
    (harrow : ContinuationLine stray.text) :
    ∃ first, NamesFirst source (JoinedLine.strayFault stray.text stray.line) first := by
  have hmember : stray ∈ JoinedLine.kept (lines source) := by
    rw [hkept]
    exact List.mem_cons_self
  obtain ⟨first, hfirst, hwithin, hcounts⟩ := place_of_mem hmember
  refine ⟨first, hfirst, hwithin, hcounts, ?_, ⟨first, .stray hkept harrow hfirst rfl⟩, ?_⟩
  · have hnone := JoinedLine.kept_take_before hkept hfirst
    rw [← kept_firstLines] at hnone
    have hdivided :
        JoinedLine.Divided (JoinedLine.kept (lines (firstLines source (first - 1)))) [] := hnone
    exact ⟨∅, read_of_divided hdivided⟩
  · intro last hends other resumes
    have hlast : (last : Int) = first := by
      cases hends with
      | group hdivided => exact absurd harrow (hdivided.head_opens stray (by rw [hkept]; rfl))
      | stray _ _ _ hlast => exact hlast
    obtain ⟨later, hother, -⟩ := resumes.kept_eq
    rw [Int.ofNat_inj.mp hlast, JoinedLine.kept_take_through hkept hfirst] at hother
    exact read_of_stray hother harrow

theorem namesFirst_of_refusesAt {source : String} {before after : List JoinedLine.Group}
    {group : JoinedLine.Group} {fault : Fault}
    (hdivided : JoinedLine.Divided (JoinedLine.kept (lines source)) (before ++ group :: after))
    (hrefuses : RefusesAt before group fault) : ∃ first, NamesFirst source fault first := by
  have hmember : ∀ line ∈ group.lines, line ∈ JoinedLine.kept (lines source) := fun _ =>
    hdivided.mem (List.mem_append_right before List.mem_cons_self)
  obtain ⟨first, hfirst, hwithin, hcounts⟩ := place_of_mem (hmember group.head List.mem_cons_self)
  obtain ⟨last, hlast, -⟩ := place_of_mem (hmember group.last (List.getLast_mem _))
  refine ⟨first, hrefuses.line.trans hfirst, hwithin, hcounts, ?_, ⟨last, ?_⟩, ?_⟩
  · have hcut := JoinedLine.divided_cut hdivided hfirst
    rw [← kept_firstLines] at hcut
    obtain ⟨reached, hreached, -⟩ := hrefuses
    refine ⟨reached.grammar, ?_⟩
    rw [read_of_divided hcut]
    exact Outcome.map_eq_ok.mpr ⟨reached, hreached, rfl⟩
  · exact .group hdivided (List.mem_append_right before List.mem_cons_self) hfirst hlast
  · intro last hends other resumes
    have hlast : group.last.line = last := by
      cases hends with
      | @group groups other hother hmem hbegins hlast =>
        rw [hdivided.unique hother] at hmem
        rw [← JoinedLine.group_unique hdivided hmem hfirst hbegins]
        exact hlast
      | stray hkept harrow =>
        exact absurd harrow (hdivided.head_opens _ (by rw [hkept]; rfl))
    obtain ⟨later, hlater⟩ := JoinedLine.divided_resumed hdivided hlast resumes
    rw [read_of_divided hlater]
    exact ofLines_eq_error_iff.mpr ⟨before, group, later, rfl, hrefuses⟩

/-- The fault of a text that cannot be read names the first defective definition in it. -/
theorem read_names_first_fault {source : String} {fault : Fault} (h : read source = .error fault) :
    ∃ first, NamesFirst source fault first := by
  rcases read_eq_error_cases h with ⟨stray, rest, hkept, harrow, rfl⟩ |
    ⟨before, group, after, hdivided, hrefuses⟩
  · exact namesFirst_of_stray hkept harrow
  · exact namesFirst_of_refusesAt hdivided hrefuses

/-- A definition with two arrows, the second one on a line of its own after a comment. -/
def twoArrowsSource : String :=
  "state INITIAL:\n  'coin' -> INITIAL\n# locked\n  -> OPEN\n  'push'"

def twoArrowsFault : Fault :=
  ⟨.malformedAction "INITIAL  -> OPEN", 2, some ⟨"  'coin' -> INITIAL  -> OPEN", 13⟩⟩

/-- The second arrow is found out, whatever comes after its line. -/
theorem two_arrows_named_first : read twoArrowsSource = .error twoArrowsFault ∧
    ∀ other, JoinedLine.Resumes (lines twoArrowsSource) (lines other) 4 →
      read other = .error twoArrowsFault := by
  have hread : read twoArrowsSource = .error twoArrowsFault := by decide +kernel
  obtain ⟨first, hfirst⟩ := read_names_first_fault hread
  obtain rfl : 2 = first := Int.ofNat_inj.mp hfirst.names
  refine ⟨hread, hfirst.stable 4 ?_⟩
  have hdivided : JoinedLine.Divided (JoinedLine.kept (lines twoArrowsSource))
      [⟨⟨"state INITIAL:", 1⟩, [], by decide, by decide⟩,
        ⟨⟨"  'coin' -> INITIAL", 2⟩, [⟨"  -> OPEN", 4⟩], by decide, by decide⟩,
        ⟨⟨"  'push'", 5⟩, [], by decide, by decide⟩] := by
    unfold JoinedLine.Divided
    decide
  exact .group hdivided (List.mem_cons_of_mem _ List.mem_cons_self) rfl rfl

end Grammar

end CommandGrammar

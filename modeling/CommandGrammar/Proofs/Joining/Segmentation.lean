import CommandGrammar.Proofs.Joining.Kept

set_option autoImplicit false
set_option relaxedAutoImplicit false

namespace CommandGrammar

instance (text : String) : Decidable (SkippedLine text) :=
  decidable_of_iff _ JoinedLine.Role.of_eq_skipped_iff

instance (text : String) : Decidable (ContinuationLine text) :=
  decidable_of_iff _ JoinedLine.Role.of_eq_continuation_iff

namespace JoinedLine

/-- The physical lines that are neither blank nor comments, with their numbers counted from one. -/
def kept (texts : List String) : List JoinedLine :=
  ((texts.zipIdx 1).filter fun place => ¬SkippedLine place.1).map fun place => ⟨place.1, place.2⟩

theorem keptFrom_eq_filter (read : Nat) (texts : List String) :
    keptFrom read texts = ((texts.zipIdx (read + 1)).filter fun place => ¬SkippedLine place.1).map
      fun place => ⟨place.1, place.2⟩ := by
  induction texts generalizing read with
  | nil => rfl
  | cons text rest ih =>
    rw [keptFrom, ih, List.zipIdx_cons, List.filter_cons]
    by_cases h : SkippedLine text
    · rw [if_pos (Role.of_eq_skipped_iff.mpr h), if_neg (by simpa using h)]
    · rw [if_neg (fun hrole => h (Role.of_eq_skipped_iff.mp hrole)), if_pos (by simpa using h),
        List.map_cons]
      rfl

theorem kept_eq_keptFrom (texts : List String) : kept texts = keptFrom 0 texts :=
  (keptFrom_eq_filter 0 texts).symm

/-- A line that opens a joined line, and the continuations after it. -/
structure Group where
  head : JoinedLine
  rest : List JoinedLine
  opens : ¬ContinuationLine head.text
  continues : ∀ line ∈ rest, ContinuationLine line.text

namespace Group

def lines (group : Group) : List JoinedLine :=
  group.head :: group.rest

/-- The joined line that a group makes: its texts one after the other, under its first number. -/
def joined (group : Group) : JoinedLine :=
  ⟨String.join (group.lines.map JoinedLine.text), group.head.line⟩

theorem ext {group other : Group} (head : group.head = other.head)
    (rest : group.rest = other.rest) : group = other := by
  cases group
  cases other
  cases head
  cases rest
  rfl

end Group

/-- The lines are those of the groups, one group after the other. -/
def Divided (lines : List JoinedLine) (groups : List Group) : Prop :=
  lines = groups.flatMap Group.lines

theorem exists_divided_after (lines : List JoinedLine) :
    ∃ (front : List JoinedLine) (groups : List Group),
      (∀ line ∈ front, ContinuationLine line.text) ∧
        lines = front ++ groups.flatMap Group.lines := by
  induction lines with
  | nil => exact ⟨[], [], by simp, rfl⟩
  | cons line lines ih =>
    obtain ⟨front, groups, hfront, rfl⟩ := ih
    by_cases h : ContinuationLine line.text
    · exact ⟨line :: front, groups, List.forall_mem_cons.mpr ⟨h, hfront⟩, rfl⟩
    · refine ⟨[], ⟨line, front, h, hfront⟩ :: groups, by simp, ?_⟩
      rw [List.flatMap_cons]
      rfl

theorem exists_divided {lines : List JoinedLine}
    (first : ∀ line ∈ lines.head?, ¬ContinuationLine line.text) :
    ∃ groups, Divided lines groups := by
  obtain ⟨front, groups, hfront, rfl⟩ := exists_divided_after lines
  cases front with
  | nil => exact ⟨groups, rfl⟩
  | cons line front => exact absurd (hfront line List.mem_cons_self) (first line rfl)

theorem Divided.head_opens {lines : List JoinedLine} {groups : List Group}
    (h : Divided lines groups) : ∀ line ∈ lines.head?, ¬ContinuationLine line.text := by
  subst h
  intro line hline
  cases groups with
  | nil => cases hline
  | cons group groups =>
    cases hline
    exact group.opens

theorem Divided.mem {lines : List JoinedLine} {groups : List Group} (h : Divided lines groups)
    {group : Group} (member : group ∈ groups) {line : JoinedLine} (hline : line ∈ group.lines) :
    line ∈ lines := by
  rw [h]
  exact List.mem_flatMap.mpr ⟨group, member, hline⟩

theorem continuations_append_inj {front front' after after' : List JoinedLine}
    (hfront : ∀ line ∈ front, ContinuationLine line.text)
    (hfront' : ∀ line ∈ front', ContinuationLine line.text)
    (hafter : ∀ line ∈ after.head?, ¬ContinuationLine line.text)
    (hafter' : ∀ line ∈ after'.head?, ¬ContinuationLine line.text)
    (h : front ++ after = front' ++ after') : front = front' ∧ after = after' := by
  induction front generalizing front' with
  | nil =>
    cases front' with
    | nil => exact ⟨rfl, h⟩
    | cons line front' =>
      rw [List.nil_append] at h
      subst h
      exact absurd (hfront' line List.mem_cons_self) (hafter line rfl)
  | cons line front ih =>
    rw [List.forall_mem_cons] at hfront
    cases front' with
    | nil =>
      rw [List.nil_append] at h
      subst h
      exact absurd hfront.1 (hafter' line rfl)
    | cons line' front' =>
      rw [List.forall_mem_cons] at hfront'
      obtain ⟨rfl, hrest⟩ := List.cons.inj h
      obtain ⟨rfl, rfl⟩ := ih hfront.2 hfront'.2 hrest
      exact ⟨rfl, rfl⟩

theorem Divided.unique {lines : List JoinedLine} {groups other : List Group}
    (h : Divided lines groups) (h' : Divided lines other) : other = groups := by
  induction groups generalizing lines other with
  | nil =>
    cases other with
    | nil => rfl
    | cons group other =>
      rw [h] at h'
      simp [Divided, Group.lines] at h'
  | cons group groups ih =>
    cases other with
    | nil =>
      rw [h'] at h
      simp [Divided, Group.lines] at h
    | cons group' other =>
      have hlines : group.head :: (group.rest ++ groups.flatMap Group.lines) =
          group'.head :: (group'.rest ++ other.flatMap Group.lines) := by
        rw [Divided, List.flatMap_cons] at h h'
        exact h.symm.trans h'
      obtain ⟨hhead, hrest⟩ := List.cons.inj hlines
      have hafter : Divided (groups.flatMap Group.lines) groups := rfl
      have hafter' : Divided (other.flatMap Group.lines) other := rfl
      -- the continuations after equal heads end where the next head stands
      obtain ⟨hrest, htail⟩ := continuations_append_inj group.continues group'.continues
        hafter.head_opens hafter'.head_opens hrest
      have hgroup : group' = group := Group.ext hhead.symm hrest.symm
      have hothers : other = groups := ih hafter (htail ▸ hafter')
      rw [hgroup, hothers]

theorem role_ne_continuation {text : String} (h : ¬ContinuationLine text) :
    Role.of text ≠ .continuation :=
  fun hrole => h (Role.of_eq_continuation_iff.mp hrole)

theorem joinKept_continuations {rest : List JoinedLine}
    (h : ∀ line ∈ rest, ContinuationLine line.text) (pending : JoinedLine)
    (after : List JoinedLine) : joinKept (some pending) (rest ++ after) =
      joinKept (some ⟨pending.text ++ String.join (rest.map text), pending.line⟩) after := by
  induction rest generalizing pending with
  | nil => simp
  | cons line rest ih =>
    rw [List.forall_mem_cons] at h
    have hrole := Role.of_eq_continuation_iff.mpr h.1
    rw [List.cons_append, joinKept, if_pos hrole, ih h.2, List.map_cons, String.join_cons,
      String.append_assoc]

theorem joinKept_group (group : Group) (after : List JoinedLine) :
    joinKept (some group.head) (group.rest ++ after) = joinKept (some group.joined) after := by
  rw [joinKept_continuations group.continues, Group.joined, Group.lines, List.map_cons,
    String.join_cons]

theorem joinKept_groups (pending : JoinedLine) (groups : List Group) :
    joinKept (some pending) (groups.flatMap Group.lines) =
      .ok (pending :: groups.map Group.joined) := by
  induction groups generalizing pending with
  | nil => rfl
  | cons group groups ih =>
    rw [List.flatMap_cons, Group.lines, List.cons_append, joinKept,
      if_neg (role_ne_continuation group.opens), joinKept_group, ih]
    rfl

theorem joinKept_of_divided {lines : List JoinedLine} {groups : List Group}
    (h : Divided lines groups) : joinKept none lines = .ok (groups.map Group.joined) := by
  subst h
  cases groups with
  | nil => rfl
  | cons group groups =>
    rw [List.flatMap_cons, Group.lines, List.cons_append, joinKept,
      if_neg (role_ne_continuation group.opens), joinKept_group, joinKept_groups]
    rfl

theorem joinKept_of_stray {stray : JoinedLine} (h : ContinuationLine stray.text)
    (rest : List JoinedLine) :
    joinKept none (stray :: rest) = .error (strayFault stray.text stray.line) := by
  rw [joinKept, if_pos (Role.of_eq_continuation_iff.mpr h)]

theorem divided_or_stray (lines : List JoinedLine) : (∃ groups, Divided lines groups) ∨
    ∃ stray rest, lines = stray :: rest ∧ ContinuationLine stray.text := by
  cases lines with
  | nil => exact .inl ⟨[], rfl⟩
  | cons line rest =>
    by_cases h : ContinuationLine line.text
    · exact .inr ⟨line, rest, rfl, h⟩
    · refine .inl (exists_divided ?_)
      rintro _ ⟨⟩
      exact h

theorem join_eq_ok_iff {texts : List String} {lines : List JoinedLine} :
    join texts = .ok lines ↔
      ∃ groups, Divided (kept texts) groups ∧ lines = groups.map Group.joined := by
  rw [join_eq_joinKept, ← kept_eq_keptFrom]
  constructor
  · intro h
    obtain ⟨groups, hdivided⟩ | ⟨stray, rest, hkept, harrow⟩ := divided_or_stray (kept texts)
    · rw [joinKept_of_divided hdivided] at h
      cases h
      exact ⟨groups, hdivided, rfl⟩
    · rw [hkept, joinKept_of_stray harrow] at h
      cases h
  · rintro ⟨groups, hdivided, rfl⟩
    exact joinKept_of_divided hdivided

def openings (lines : List JoinedLine) : List JoinedLine :=
  lines.filter fun line => ¬ContinuationLine line.text

theorem openings_cons_of_continuation {line : JoinedLine} (h : ContinuationLine line.text)
    (lines : List JoinedLine) : openings (line :: lines) = openings lines :=
  List.filter_cons_of_neg (by simpa using h)

theorem openings_cons_of_opening {line : JoinedLine} (h : ¬ContinuationLine line.text)
    (lines : List JoinedLine) : openings (line :: lines) = line :: openings lines :=
  List.filter_cons_of_pos (by simpa using h)

theorem openings_append_of_continuations {rest : List JoinedLine}
    (h : ∀ line ∈ rest, ContinuationLine line.text) (after : List JoinedLine) :
    openings (rest ++ after) = openings after := by
  induction rest with
  | nil => rfl
  | cons line rest ih =>
    rw [List.forall_mem_cons] at h
    rw [List.cons_append, openings_cons_of_continuation h.1, ih h.2]

theorem openings_of_divided {lines : List JoinedLine} {groups : List Group}
    (h : Divided lines groups) : openings lines = groups.map Group.head := by
  subst h
  induction groups with
  | nil => rfl
  | cons group groups ih =>
    rw [List.flatMap_cons, Group.lines, List.cons_append, openings_cons_of_opening group.opens,
      openings_append_of_continuations group.continues, ih, List.map_cons]

/-- A line is complete when the next opening has been read, and the last one when all lines have
been. The line held back counts as an opening that was read before. -/
theorem consumed_of_joinFrom {read : Nat} {pending : Option JoinedLine} {texts : List String}
    {given : List Completion} (h : joinFrom read pending texts = .ok given) :
    given.map (fun completion => (completion.consumed : Int)) =
      ((pending.toList ++ openings (keptFrom read texts)).map line ++
        [((read + texts.length : Nat) : Int)]).tail := by
  induction texts generalizing read pending given with
  | nil =>
    cases pending <;> cases h <;> rfl
  | cons text rest ih =>
    have hlength : read + (text :: rest).length = read + 1 + rest.length := by
      rw [List.length_cons]
      omega
    cases hrole : Role.of text with
    | skipped =>
      rw [joinFrom_skipped _ _ hrole] at h
      rw [keptFrom, if_pos hrole, hlength]
      exact ih h
    | continuation =>
      have hcounts : Role.of text ≠ .skipped := by simp [hrole]
      have harrow : ContinuationLine text := Role.of_eq_continuation_iff.mp hrole
      cases pending with
      | none =>
        rw [joinFrom_stray _ _ hrole] at h
        cases h
      | some pending =>
        rw [joinFrom_continued _ _ _ hrole] at h
        rw [keptFrom_cons_of_kept hcounts, openings_cons_of_continuation harrow, hlength]
        have hrest := ih h
        exact hrest
    | opening =>
      have hcounts : Role.of text ≠ .skipped := by simp [hrole]
      have harrow : ¬ContinuationLine text := by
        rw [← Role.of_eq_continuation_iff, hrole]
        exact Role.noConfusion
      rw [keptFrom_cons_of_kept hcounts, openings_cons_of_opening harrow, hlength]
      cases pending with
      | none =>
        rw [joinFrom_first _ _ hrole] at h
        exact ih h
      | some pending =>
        -- the line held back is complete now that this one has been read
        rw [joinFrom_next _ _ _ hrole] at h
        obtain ⟨others, hothers, rfl⟩ := Outcome.map_eq_ok.mp h
        rw [List.map_cons, ih hothers]
        rfl

theorem consumed_of_divided {texts : List String} {groups : List Group} {given : List Completion}
    (divided : Divided (kept texts) groups) (h : completions texts = .ok given) :
    given.map (fun completion => (completion.consumed : Int)) =
      (groups.map (fun group => group.head.line) ++ [(texts.length : Int)]).tail := by
  have hconsumed := consumed_of_joinFrom h
  rw [← kept_eq_keptFrom, openings_of_divided divided, Nat.zero_add, List.map_append,
    List.map_map] at hconsumed
  exact hconsumed

end JoinedLine

end CommandGrammar

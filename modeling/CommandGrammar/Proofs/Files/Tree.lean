import CommandGrammar.Files.Tree
import CommandGrammar.Proofs.Agree
import CommandGrammar.Proofs.OrderedMap

set_option autoImplicit false
set_option relaxedAutoImplicit false

namespace CommandGrammar

/-- Directories are made alike by programs that make each single one alike. The names are those of
the path in reverse, so the induction goes from a directory to the one above it. -/
theorem Agree.ensureAbove {σ τ : Type} {R : σ → τ → Prop}
    {ensure : Path → StateM σ (Except FileError Unit)}
    {ensure' : Path → StateM τ (Except FileError Unit)} {root : String} {names : List String}
    (each : ∀ front, front <+: names.reverse →
      Agree R (ensure ⟨root, front⟩) (ensure' ⟨root, front⟩)) :
    Agree R (CommandGrammar.ensureAbove ensure root names)
      (CommandGrammar.ensureAbove ensure' root names) := by
  induction names with
  | nil => exact each [] List.nil_prefix
  | cons name above ih =>
    have longer : above.reverse <+: (name :: above).reverse := by
      rw [List.reverse_cons]
      exact List.prefix_append _ _
    have whole := each (name :: above).reverse List.prefix_rfl
    unfold CommandGrammar.ensureAbove
    refine whole.bind fun result => ?_
    rcases result with ⟨⟨_ | _ | _ | _, _⟩ | _ | _⟩ | made
    · -- only a missing directory above leads further up
      refine (ih fun front shorter => each front (shorter.trans longer)).bind fun up => ?_
      rcases up with e | made
      · exact .pure _
      · exact whole
    all_goals exact .pure _

namespace FileTree

variable {t t' t'' : FileTree} {path : Path} {location : Location}

theorem node?_setNode (vacant : t.node? location ≠ some .directory) (node : Node)
    (other : Location) :
    (t.setNode location node).node? other =
      if other = location then some node else t.node? other := by
  cases other with
  | nil =>
    have hne : [] ≠ location := by
      rintro rfl
      exact vacant rfl
    rw [if_neg hne]
    rfl
  | cons name names => exact OrderedMap.get?_insert t.nodes location (name :: names) node

/-- The directories of the first tree are directories of the second, and both have the same working
directory. -/
structure KeepsDirectories (t t' : FileTree) : Prop where
  workingDirectory : t'.workingDirectory = t.workingDirectory
  directories : ∀ location, t.node? location = some .directory →
    t'.node? location = some .directory

namespace KeepsDirectories

theorem refl (t : FileTree) : KeepsDirectories t t :=
  ⟨rfl, fun _ h => h⟩

theorem trans (first : KeepsDirectories t t') (second : KeepsDirectories t' t'') :
    KeepsDirectories t t'' where
  workingDirectory := second.workingDirectory.trans first.workingDirectory
  directories := fun location h => second.directories location (first.directories location h)

theorem setNode (vacant : t.node? location ≠ some .directory) (node : Node) :
    KeepsDirectories t (t.setNode location node) where
  workingDirectory := rfl
  directories := by
    intro other h
    have hne : other ≠ location := by
      rintro rfl
      exact vacant h
    rw [node?_setNode vacant, if_neg hne]
    exact h

theorem walk (keeps : KeepsDirectories t t') {start : Location} {names : List String}
    (h : t.walk start names = .ok location) : t'.walk start names = .ok location := by
  induction names generalizing start with
  | nil => exact h
  | cons name names ih =>
    unfold FileTree.walk at h ⊢
    split at h
    · cases h
    · cases h
    · next hdirectory =>
      rw [keeps.directories start hdirectory]
      exact ih h

theorem locate (keeps : KeepsDirectories t t') (h : t.locate path = .ok location) :
    t'.locate path = .ok location := by
  unfold FileTree.locate at h ⊢
  rw [keeps.workingDirectory]
  exact keeps.walk h

end KeepsDirectories

/-- The second path does not lead to where the first one leads. -/
def Apart (t : FileTree) (p q : Path) : Prop :=
  ∀ location, t.locate p = .ok location → t.locate q ≠ .ok location

theorem getLast?_of_walk {start : Location} {front : List String} {name : String}
    (forward : name ≠ "..") (h : t.walk start (front ++ [name]) = .ok location) :
    location.getLast? = some name := by
  induction front generalizing start with
  | nil =>
    rw [List.nil_append] at h
    unfold walk at h
    split at h
    · cases h
    · cases h
    · cases h
      rw [if_neg forward]
      exact List.getLast?_concat
  | cons first front ih =>
    rw [List.cons_append] at h
    unfold walk at h
    split at h
    · cases h
    · cases h
    · exact ih h

theorem write_eq_ok {octets : List UInt8} :
    t.write path octets = .ok t' ↔ path.hasNull = false ∧ ∃ location,
      t.locate path = .ok location ∧ t.node? location ≠ some .directory ∧
        t' = t.setNode location (.file octets) := by
  unfold write
  cases hnull : path.hasNull with
  | true => simp
  | false =>
    cases hlocate : t.locate path with
    | error refusal => simp
    | ok location =>
      rcases hnode : t.node? location with _ | ⟨_ | _⟩ <;> simp [hnode, eq_comm]

theorem read_eq_ok {octets : List UInt8} :
    t.read path = .ok octets ↔ path.hasNull = false ∧ ∃ location,
      t.locate path = .ok location ∧ t.node? location = some (.file octets) := by
  unfold read
  cases hnull : path.hasNull with
  | true => simp
  | false =>
    cases hlocate : t.locate path with
    | error refusal => simp
    | ok location =>
      rcases hnode : t.node? location with _ | ⟨_ | _⟩ <;> simp [hnode]

theorem makeDirectory_eq_ok :
    t.makeDirectory path = .ok t' ↔ path.hasNull = false ∧ ∃ location,
      t.locate path = .ok location ∧ t.node? location = none ∧
        t' = t.setNode location .directory := by
  unfold makeDirectory
  cases hnull : path.hasNull with
  | true => simp
  | false =>
    cases hlocate : t.locate path with
    | error refusal => simp
    | ok location => cases hnode : t.node? location <;> simp [hnode, eq_comm]

theorem ensureDirectory_cases (h : t.ensureDirectory path = .ok t') :
    t' = t ∨ t.makeDirectory path = .ok t' := by
  unfold ensureDirectory at h
  split at h
  · next hmade => exact .inr (hmade.trans h)
  · split at h
    · cases h
      exact .inl rfl
    · cases h

theorem read_of_write {octets : List UInt8} (h : t.write path octets = .ok t') :
    t'.read path = .ok octets := by
  obtain ⟨hnull, location, hlocate, vacant, rfl⟩ := write_eq_ok.mp h
  refine read_eq_ok.mpr ⟨hnull, location, (KeepsDirectories.setNode vacant _).locate hlocate, ?_⟩
  rw [node?_setNode vacant, if_pos rfl]

/-- The second tree has new directories, each at the place of a path made of the first of the
names, and is otherwise as the first one. -/
structure NewDirectories (root : String) (names : List String) (t t' : FileTree) : Prop where
  workingDirectory : t'.workingDirectory = t.workingDirectory
  changed : ∀ location, t'.node? location ≠ t.node? location →
    t.node? location = none ∧ t'.node? location = some .directory ∧
      ∃ front, front <+: names ∧ t'.locate ⟨root, front⟩ = .ok location

namespace NewDirectories

variable {root : String} {names : List String}

theorem refl (root : String) (names : List String) (t : FileTree) :
    NewDirectories root names t t :=
  ⟨rfl, fun _ h => absurd rfl h⟩

theorem keepsDirectories (h : NewDirectories root names t t') : KeepsDirectories t t' where
  workingDirectory := h.workingDirectory
  directories := by
    intro location hdirectory
    by_cases hkept : t'.node? location = t.node? location
    · exact hkept.trans hdirectory
    · exact (h.changed location hkept).2.1

theorem mono {more : List String} (h : NewDirectories root names t t') (longer : names <+: more) :
    NewDirectories root more t t' where
  workingDirectory := h.workingDirectory
  changed := by
    intro location hchanged
    obtain ⟨hnone, hdirectory, front, hfront, hlocate⟩ := h.changed location hchanged
    exact ⟨hnone, hdirectory, front, hfront.trans longer, hlocate⟩

theorem trans (first : NewDirectories root names t t') (second : NewDirectories root names t' t'') :
    NewDirectories root names t t'' where
  workingDirectory := second.workingDirectory.trans first.workingDirectory
  changed := by
    intro location hchanged
    have hkept := second.keepsDirectories
    by_cases hlast : t''.node? location = t'.node? location
    · rw [hlast] at hchanged
      obtain ⟨hnone, hdirectory, front, hfront, hlocate⟩ := first.changed location hchanged
      exact ⟨hnone, hkept.directories location hdirectory, front, hfront, hkept.locate hlocate⟩
    · obtain ⟨hnone, hdirectory, front, hfront, hlocate⟩ := second.changed location hlast
      refine ⟨?_, hdirectory, front, hfront, hlocate⟩
      by_cases hfirst : t'.node? location = t.node? location
      · exact hfirst.symm.trans hnone
      · exact (first.changed location hfirst).1

theorem of_ensureDirectory (h : t.ensureDirectory ⟨root, names⟩ = .ok t') :
    NewDirectories root names t t' := by
  rcases ensureDirectory_cases h with rfl | hmade
  · exact refl root names t'
  · obtain ⟨-, place, hlocate, hnone, rfl⟩ := makeDirectory_eq_ok.mp hmade
    have vacant : t.node? place ≠ some .directory := by
      rw [hnone]
      exact fun he => nomatch he
    refine ⟨rfl, fun location hchanged => ?_⟩
    rw [node?_setNode vacant] at hchanged ⊢
    by_cases hplace : location = place
    · subst hplace
      refine ⟨hnone, if_pos rfl, names, List.prefix_rfl, ?_⟩
      exact (KeepsDirectories.setNode vacant _).locate hlocate
    · rw [if_neg hplace] at hchanged
      exact absurd rfl hchanged

theorem changing_ensureDirectory {front : List String} (shorter : front <+: names)
    (h : NewDirectories root names t t') :
    NewDirectories root names t (changing (·.ensureDirectory ⟨root, front⟩) t').2 := by
  unfold changing
  split
  · next hmade => exact h.trans ((of_ensureDirectory hmade).mono shorter)
  · exact h

end NewDirectories

/-- What is made before one of the directories fails is made of the first of the names as well. -/
theorem newDirectories_makeDirectories (t : FileTree) (path : Path) :
    NewDirectories path.root path.names t (makeDirectories path t).2 := by
  have keeps :
      Agree (fun left left' => left' = left ∧ NewDirectories path.root path.names t left)
        (makeDirectories path) (makeDirectories path) := by
    refine .ensureAbove ?_
    rintro front shorter left _ ⟨rfl, h⟩
    rw [List.reverse_reverse] at shorter
    exact ⟨rfl, rfl, h.changing_ensureDirectory shorter⟩
  exact (keeps ⟨rfl, .refl path.root path.names t⟩).2.2

end FileTree

end CommandGrammar

import CommandGrammar.Proofs.Joining.Role

/-!
Joining looks at the lines that count and at their numbers.

A line that counts for nothing only moves the count of lines on. So the lines that count can be
picked first, each with its number, and be joined afterwards. That joining treats the numbers as
data: it comes to the same whether lines are renumbered before or after it.
-/

set_option autoImplicit false
set_option relaxedAutoImplicit false

namespace CommandGrammar

def Fault.renumber (f : Int → Int) (fault : Fault) : Fault :=
  { fault with line := f fault.line }

namespace JoinedLine

def renumber (f : Int → Int) (line : JoinedLine) : JoinedLine :=
  { line with line := f line.line }

/-- The lines that count, with their numbers, if `read` lines come before them. -/
def keptFrom (read : Nat) : List String → List JoinedLine
  | [] => []
  | text :: rest =>
    if Role.of text = .skipped then keptFrom (read + 1) rest
    else ⟨text, read + 1⟩ :: keptFrom (read + 1) rest

def joinKept : Option JoinedLine → List JoinedLine → Except Fault (List JoinedLine)
  | none, [] => .ok []
  | some pending, [] => .ok [pending]
  | none, line :: rest =>
    if Role.of line.text = .continuation then .error (strayFault line.text line.line)
    else joinKept (some line) rest
  | some pending, line :: rest =>
    if Role.of line.text = .continuation then
      joinKept (some ⟨pending.text ++ line.text, pending.line⟩) rest
    else (joinKept (some line) rest).map (pending :: ·)

theorem keptFrom_cons_of_kept {text : String} (h : Role.of text ≠ .skipped) (read : Nat)
    (rest : List String) :
    keptFrom read (text :: rest) = ⟨text, read + 1⟩ :: keptFrom (read + 1) rest := by
  rw [keptFrom, if_neg h]

theorem joinFrom_eq_joinKept (read : Nat) (pending : Option JoinedLine) (texts : List String) :
    (joinFrom read pending texts).map (·.map Completion.line) =
      joinKept pending (keptFrom read texts) := by
  induction texts generalizing read pending with
  | nil => cases pending <;> rfl
  | cons text rest ih =>
    cases hrole : Role.of text with
    | skipped => rw [joinFrom_skipped _ _ hrole, keptFrom, if_pos hrole, ih]
    | continuation =>
      have hcounts : Role.of text ≠ .skipped := by simp [hrole]
      have hkept := keptFrom_cons_of_kept hcounts read rest
      cases pending with
      | none =>
        rw [joinFrom_stray _ _ hrole, hkept, joinKept, if_pos hrole]
        rfl
      | some pending => rw [joinFrom_continued _ _ _ hrole, hkept, joinKept, if_pos hrole, ih]
    | opening =>
      have hcounts : Role.of text ≠ .skipped := by simp [hrole]
      have hkept := keptFrom_cons_of_kept hcounts read rest
      have hopening : Role.of text ≠ .continuation := by simp [hrole]
      cases pending with
      | none => rw [joinFrom_first _ _ hrole, hkept, joinKept, if_neg hopening, ih]
      | some pending =>
        rw [joinFrom_next _ _ _ hrole, hkept, joinKept, if_neg hopening, ← ih]
        cases joinFrom (read + 1) (some ⟨text, read + 1⟩) rest <;> rfl

theorem join_eq_joinKept (texts : List String) : join texts = joinKept none (keptFrom 0 texts) :=
  joinFrom_eq_joinKept 0 none texts

theorem joinKept_renumber (f : Int → Int) (pending : Option JoinedLine) (lines : List JoinedLine) :
    joinKept (pending.map (renumber f)) (lines.map (renumber f)) =
      Outcome.translate (Fault.renumber f) (List.map (renumber f)) (joinKept pending lines) := by
  induction lines generalizing pending with
  | nil => cases pending <;> rfl
  | cons line rest ih =>
    rw [List.map_cons]
    by_cases harrow : Role.of line.text = .continuation
    · have harrow' : Role.of (line.renumber f).text = .continuation := harrow
      cases pending with
      | none =>
        rw [Option.map_none, joinKept, joinKept, if_pos harrow, if_pos harrow']
        rfl
      | some pending =>
        rw [Option.map_some, joinKept, joinKept, if_pos harrow, if_pos harrow', ← ih]
        rfl
    · have harrow' : ¬Role.of (line.renumber f).text = .continuation := harrow
      have hnext := ih (some line)
      rw [Option.map_some] at hnext
      cases pending with
      | none => rw [Option.map_none, joinKept, joinKept, if_neg harrow, if_neg harrow', hnext]
      | some pending =>
        rw [Option.map_some, joinKept, joinKept, if_neg harrow, if_neg harrow', hnext]
        apply Outcome.map_translate
        intro joined
        rfl

theorem keptFrom_append (read : Nat) (before after : List String) :
    keptFrom read (before ++ after) =
      keptFrom read before ++ keptFrom (read + before.length) after := by
  induction before generalizing read with
  | nil => rfl
  | cons text before ih =>
    have hlength : read + (text :: before).length = read + 1 + before.length := by
      rw [List.length_cons]
      omega
    rw [List.cons_append, keptFrom, keptFrom, ih, hlength]
    split <;> rfl

theorem join_append_skipped {last : String} (skipped : Role.of last = .skipped)
    (texts : List String) : join (texts ++ [last]) = join texts := by
  rw [join_eq_joinKept, join_eq_joinKept, keptFrom_append, keptFrom, if_pos skipped, keptFrom,
    List.append_nil]

theorem mem_keptFrom {read : Nat} {texts : List String} {line : JoinedLine}
    (h : line ∈ keptFrom read texts) : read < line.line ∧ line.line ≤ read + texts.length := by
  induction texts generalizing read with
  | nil => cases h
  | cons text rest ih =>
    have hrest : line ∈ keptFrom (read + 1) rest →
        read < line.line ∧ line.line ≤ read + (text :: rest).length := by
      intro hmem
      have hbounds := ih hmem
      rw [List.length_cons]
      omega
    rw [keptFrom] at h
    split at h
    · exact hrest h
    · rcases List.mem_cons.mp h with rfl | hmem
      · rw [List.length_cons]
        constructor
        · change (read : Int) < read + 1
          omega
        · change (read : Int) + 1 ≤ read + (rest.length + 1 : Nat)
          omega
      · exact hrest hmem

theorem keptFrom_succ (read : Nat) (texts : List String) :
    keptFrom (read + 1) texts = (keptFrom read texts).map (renumber (· + 1)) := by
  induction texts generalizing read with
  | nil => rfl
  | cons text rest ih =>
    rw [keptFrom, keptFrom, ih]
    split <;> rfl

/-- The number of a line after a line has been put in as line `place`. -/
def shifted (place line : Int) : Int :=
  if line < place then line else line + 1

theorem keptFrom_inserted {inserted : String} (skipped : Role.of inserted = .skipped)
    (before after : List String) :
    keptFrom 0 (before ++ inserted :: after) =
      (keptFrom 0 (before ++ after)).map (renumber (shifted (before.length + 1))) := by
  have hbefore : (keptFrom 0 before).map (renumber (shifted (before.length + 1))) =
      keptFrom 0 before := by
    have hkept : ∀ line ∈ keptFrom 0 before,
        renumber (shifted (before.length + 1)) line = id line := by
      intro line hline
      have hbounds := mem_keptFrom hline
      have hearlier : line.line < (before.length : Int) + 1 := by omega
      simp [renumber, shifted, hearlier]
    rw [List.map_congr_left hkept, List.map_id]
  have hafter : (keptFrom (0 + before.length) after).map
      (renumber (shifted (before.length + 1))) = keptFrom (0 + before.length + 1) after := by
    rw [keptFrom_succ]
    apply List.map_congr_left
    intro line hline
    have hbounds := mem_keptFrom hline
    have hlater : ¬line.line < (before.length : Int) + 1 := by omega
    simp [renumber, shifted, hlater]
  rw [keptFrom_append, keptFrom_append, List.map_append, hbefore, hafter, keptFrom,
    if_pos skipped]

theorem join_inserted {inserted : String} (skipped : Role.of inserted = .skipped)
    (before after : List String) :
    join (before ++ inserted :: after) =
      Outcome.translate (Fault.renumber (shifted (before.length + 1)))
        (List.map (renumber (shifted (before.length + 1)))) (join (before ++ after)) := by
  rw [join_eq_joinKept, join_eq_joinKept, keptFrom_inserted skipped]
  exact joinKept_renumber _ none _

end JoinedLine

end CommandGrammar

import CommandGrammar.Proofs.Files.Tree
import CommandGrammar.Proofs.Outcome

/-!
Trees that differ in the content of one file.

No operation but reading looks at what is in a file, so the operations that change a tree do the
same in both trees and fail in the same way. What they write is the same in both; the file in which
the trees differ keeps its contents until it is written, and is the same in both from then on.
-/

set_option autoImplicit false
set_option relaxedAutoImplicit false

namespace CommandGrammar

inductive Outcome.Related {ε α β : Type} (R : α → β → Prop) : Except ε α → Except ε β → Prop where
  | error (e : ε) : Related R (.error e) (.error e)
  | ok {a : α} {b : β} : R a b → Related R (.ok a) (.ok b)

namespace FileTree

open Outcome (Related)

/-- The trees are alike, but for a file at `place` that is `x` in the one and `y` in the other. -/
structure AlikeBut (place : Location) (x y : List UInt8) (t u : FileTree) : Prop where
  workingDirectory : u.workingDirectory = t.workingDirectory
  nodes : ∀ location, u.node? location = t.node? location ∨
    location = place ∧ t.node? location = some (.file x) ∧ u.node? location = some (.file y)

theorem alikeBut_of_write {t a b : FileTree} {path : Path} {x y : List UInt8}
    (ha : t.write path x = .ok a) (hb : t.write path y = .ok b) :
    ∃ place, t.locate path = .ok place ∧ AlikeBut place x y a b := by
  obtain ⟨-, place, hplace, vacant, rfl⟩ := write_eq_ok.mp ha
  obtain ⟨-, place', hplace', -, rfl⟩ := write_eq_ok.mp hb
  obtain rfl : place = place' := Except.ok.inj (hplace.symm.trans hplace')
  refine ⟨place, hplace, rfl, ?_⟩
  intro location
  rw [node?_setNode vacant, node?_setNode vacant]
  by_cases h : location = place
  · exact .inr ⟨h, if_pos h, if_pos h⟩
  · exact .inl (by rw [if_neg h, if_neg h])

namespace AlikeBut

variable {place : Location} {x y : List UInt8} {t u : FileTree}

theorem directory_iff (h : AlikeBut place x y t u) (location : Location) :
    u.node? location = some .directory ↔ t.node? location = some .directory := by
  rcases h.nodes location with heq | ⟨-, ht, hu⟩
  · rw [heq]
  · rw [ht, hu]
    simp

theorem walk (h : AlikeBut place x y t u) (start : Location) (names : List String) :
    u.walk start names = t.walk start names := by
  induction names generalizing start with
  | nil => rfl
  | cons name names ih =>
    unfold FileTree.walk
    rcases h.nodes start with heq | ⟨-, ht, hu⟩
    · rw [heq]
      split
      · rfl
      · rfl
      · exact ih _
    · -- a file on the way stops both walks, whatever is in it
      rw [ht, hu]

theorem locate (h : AlikeBut place x y t u) (path : Path) : u.locate path = t.locate path := by
  unfold FileTree.locate
  rw [h.workingDirectory]
  exact h.walk _ _

theorem isDirectory (h : AlikeBut place x y t u) (path : Path) :
    u.isDirectory path = t.isDirectory path := by
  unfold FileTree.isDirectory
  rw [h.locate]
  split
  · next location _ =>
    have hdirectory := h.directory_iff location
    rw [Bool.eq_iff_iff, beq_iff_eq, beq_iff_eq]
    exact hdirectory
  · rfl

theorem setNode (h : AlikeBut place x y t u) {location : Location}
    (vacant : t.node? location ≠ some .directory) (node : Node) :
    AlikeBut place x y (t.setNode location node) (u.setNode location node) where
  workingDirectory := h.workingDirectory
  nodes := by
    have vacant' : u.node? location ≠ some .directory :=
      fun hdirectory => vacant ((h.directory_iff location).mp hdirectory)
    intro other
    rw [node?_setNode vacant, node?_setNode vacant']
    by_cases hother : other = location
    · exact .inl (by rw [if_pos hother, if_pos hother])
    · rw [if_neg hother, if_neg hother]
      exact h.nodes other

theorem makeDirectory (h : AlikeBut place x y t u) (path : Path) :
    Related (AlikeBut place x y) (t.makeDirectory path) (u.makeDirectory path) := by
  unfold FileTree.makeDirectory
  rw [h.locate]
  split
  · exact .error _
  · split
    · exact .error _
    · next location _ =>
      rcases h.nodes location with heq | ⟨-, ht, hu⟩
      · rw [heq]
        split
        · next hnone =>
          have vacant : t.node? location ≠ some .directory := by
            rw [hnone]
            exact fun he => nomatch he
          exact .ok (h.setNode vacant .directory)
        · exact .error _
      · rw [ht, hu]
        exact .error _

theorem write (h : AlikeBut place x y t u) (path : Path) (octets : List UInt8) :
    Related (AlikeBut place x y) (t.write path octets) (u.write path octets) := by
  unfold FileTree.write
  rw [h.locate]
  split
  · exact .error _
  · split
    · exact .error _
    · next location _ =>
      rcases h.nodes location with heq | ⟨-, ht, hu⟩
      · rw [heq]
        split
        · exact .error _
        · next vacant => exact .ok (h.setNode vacant (.file octets))
      · -- the file in which the trees differ is written: they are the same there afterwards
        have vacant : t.node? location ≠ some .directory := by
          rw [ht]
          exact fun he => nomatch he
        rw [ht, hu]
        exact .ok (h.setNode vacant (.file octets))

theorem ensureDirectory (h : AlikeBut place x y t u) (path : Path) :
    Related (AlikeBut place x y) (t.ensureDirectory path) (u.ensureDirectory path) := by
  have hmade := h.makeDirectory path
  unfold FileTree.ensureDirectory
  rw [h.isDirectory]
  generalize t.makeDirectory path = made, u.makeDirectory path = made' at hmade
  cases hmade with
  | ok halike => exact .ok halike
  | error e =>
    dsimp only
    split
    · exact .ok h
    · exact .error e

end AlikeBut

section Agree

variable (place : Location) (x y : List UInt8)

theorem agree_changing {operation : FileTree → Except FileError FileTree}
    (h : ∀ ⦃t u⦄, AlikeBut place x y t u →
      Related (AlikeBut place x y) (operation t) (operation u)) :
    Agree (AlikeBut place x y) (changing operation) (changing operation) := by
  intro t u halike
  have hrelated := h halike
  unfold changing
  generalize operation t = result, operation u = result' at hrelated
  cases hrelated with
  | error e => exact ⟨rfl, halike⟩
  | ok hchanged => exact ⟨rfl, hchanged⟩

theorem agree_makeDirectories (path : Path) :
    Agree (AlikeBut place x y) (makeDirectories path) (makeDirectories path) :=
  .ensureAbove fun front _ =>
    agree_changing place x y fun _ _ halike => halike.ensureDirectory ⟨path.root, front⟩

end Agree

end FileTree

end CommandGrammar

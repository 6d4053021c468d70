import Mathlib.Data.List.Infix

/-!
Brackets in the text of a call.

A text is scanned for the depth of its round brackets, where those within quoted strings do not
count. A text is balanced if it is put together from characters without meaning, quoted strings and
balanced texts in brackets. Such texts are the ones after which the scan is where it began, without
having been below; and they are what can stand in a pair of brackets that belong together.
-/

set_option autoImplicit false
set_option relaxedAutoImplicit false

namespace CommandGrammar.Text

/-- Where a scan stands: outside of quoted strings, in one, or in one behind a backslash. -/
inductive Place where
  | outside
  | quoted
  | escaped
  deriving DecidableEq, Repr

structure Nesting where
  place : Place
  depth : Int
  deriving DecidableEq, Repr

namespace Nesting

/-- Passes a character. Within a string brackets do not count, and the character behind a backslash
does not end the string. -/
def step (s : Nesting) (c : Char) : Nesting :=
  match s.place with
  | .outside =>
    if c = '"' then ⟨.quoted, s.depth⟩
    else if c = '(' then ⟨.outside, s.depth + 1⟩
    else if c = ')' then ⟨.outside, s.depth - 1⟩
    else s
  | .quoted =>
    if c = '"' then ⟨.outside, s.depth⟩
    else if c = '\\' then ⟨.escaped, s.depth⟩
    else s
  | .escaped => ⟨.quoted, s.depth⟩

def after (s : Nesting) (text : List Char) : Nesting :=
  text.foldl step s

def depthOf (text : List Char) : Int :=
  (after ⟨.outside, 0⟩ text).depth

/-- The depth is at least `low` while a text is passed, at its start and its end too. -/
def Above (low : Int) (s : Nesting) (text : List Char) : Prop :=
  ∀ front, front <+: text → low ≤ (s.after front).depth

variable {s : Nesting} {low d : Int} {c : Char} {text front rest : List Char}

@[simp]
theorem after_nil (s : Nesting) : s.after [] = s := rfl

@[simp]
theorem after_cons (s : Nesting) (c : Char) (text : List Char) :
    s.after (c :: text) = (s.step c).after text := rfl

@[simp]
theorem after_append (s : Nesting) (front rest : List Char) :
    s.after (front ++ rest) = (s.after front).after rest :=
  List.foldl_append

theorem above_nil : Above low s [] ↔ low ≤ s.depth := by
  simp [Above]

theorem above_cons : Above low s (c :: rest) ↔ low ≤ s.depth ∧ Above low (s.step c) rest := by
  constructor
  · intro h
    refine ⟨h [] List.nil_prefix, fun front hfront => ?_⟩
    exact h (c :: front) (List.cons_prefix_cons.mpr ⟨rfl, hfront⟩)
  · rintro ⟨hstart, hrest⟩ front hfront
    rcases List.prefix_cons_iff.mp hfront with rfl | ⟨tail, rfl, htail⟩
    · exact hstart
    · exact hrest tail htail

theorem Above.start (h : Above low s text) : low ≤ s.depth :=
  h [] List.nil_prefix

theorem above_append : Above low s (front ++ rest) ↔
    Above low s front ∧ Above low (s.after front) rest := by
  induction front generalizing s with
  | nil =>
    rw [above_nil]
    exact ⟨fun h => ⟨h.start, h⟩, And.right⟩
  | cons c front ih => rw [List.cons_append, above_cons, above_cons, ih, and_assoc, after_cons]

section Steps

theorem step_plain (mark : c ≠ '"') (opening : c ≠ '(') (closing : c ≠ ')') (d : Int) :
    step ⟨.outside, d⟩ c = ⟨.outside, d⟩ := by
  simp [step, mark, opening, closing]

theorem step_quoted (mark : c ≠ '"') (backslash : c ≠ '\\') (d : Int) :
    step ⟨.quoted, d⟩ c = ⟨.quoted, d⟩ := by
  simp [step, mark, backslash]

@[simp]
theorem step_mark (d : Int) : step ⟨.outside, d⟩ '"' = ⟨.quoted, d⟩ := rfl

@[simp]
theorem step_opening (d : Int) : step ⟨.outside, d⟩ '(' = ⟨.outside, d + 1⟩ := rfl

@[simp]
theorem step_closing (d : Int) : step ⟨.outside, d⟩ ')' = ⟨.outside, d - 1⟩ := rfl

@[simp]
theorem step_endMark (d : Int) : step ⟨.quoted, d⟩ '"' = ⟨.outside, d⟩ := rfl

@[simp]
theorem step_backslash (d : Int) : step ⟨.quoted, d⟩ '\\' = ⟨.escaped, d⟩ := rfl

@[simp]
theorem step_escaped (d : Int) (c : Char) : step ⟨.escaped, d⟩ c = ⟨.quoted, d⟩ := rfl

theorem depth_step (s : Nesting) (c : Char) : s.depth - 1 ≤ (s.step c).depth := by
  obtain ⟨place, d⟩ := s
  have hless : d - 1 ≤ d := by omega
  cases place with
  | outside =>
    by_cases mark : c = '"'
    · rw [mark, step_mark]
      exact hless
    by_cases opening : c = '('
    · rw [opening, step_opening]
      show d - 1 ≤ d + 1
      omega
    by_cases closing : c = ')'
    · subst closing
      exact Int.le_refl (d - 1)
    · rw [step_plain mark opening closing]
      exact hless
  | quoted =>
    by_cases mark : c = '"'
    · rw [mark, step_endMark]
      exact hless
    by_cases backslash : c = '\\'
    · rw [backslash, step_backslash]
      exact hless
    · rw [step_quoted mark backslash]
      exact hless
  | escaped =>
    rw [step_escaped]
    exact hless

end Steps

end Nesting

open Nesting

inductive Literal : List Char → Prop where
  | nil : Literal []
  | plain {c : Char} {rest : List Char} : c ≠ '"' → c ≠ '\\' → Literal rest → Literal (c :: rest)
  | escape {c : Char} {rest : List Char} : Literal rest → Literal ('\\' :: c :: rest)

/-- A text in which each bracket outside of quoted strings has its counterpart, and no string is
left open. -/
inductive Balanced : List Char → Prop where
  | nil : Balanced []
  | plain {c : Char} {rest : List Char} : c ≠ '"' → c ≠ '(' → c ≠ ')' → Balanced rest →
      Balanced (c :: rest)
  | literal {content rest : List Char} : Literal content → Balanced rest →
      Balanced ('"' :: (content ++ '"' :: rest))
  | brackets {inner rest : List Char} : Balanced inner → Balanced rest →
      Balanced ('(' :: (inner ++ ')' :: rest))

/-- What is left of a text from a place on, with some brackets to be closed. -/
inductive Remainder : Place → Nat → List Char → Prop where
  | balanced {text : List Char} : Balanced text → Remainder .outside 0 text
  | closing {n : Nat} {inner rest : List Char} : Balanced inner → Remainder .outside n rest →
      Remainder .outside (n + 1) (inner ++ ')' :: rest)
  | literal {n : Nat} {content rest : List Char} : Literal content → Remainder .outside n rest →
      Remainder .quoted n (content ++ '"' :: rest)
  | escape {n : Nat} {c : Char} {rest : List Char} : Remainder .quoted n rest →
      Remainder .escaped n (c :: rest)

namespace Remainder

variable {n : Nat} {c : Char} {rest : List Char}

theorem prepend (front : List Char) (h : ∀ text, Balanced text → Balanced (front ++ text))
    (hrest : Remainder .outside n rest) : Remainder .outside n (front ++ rest) := by
  cases hrest with
  | balanced hrest => exact .balanced (h _ hrest)
  | closing hinner hrest =>
    rw [← List.append_assoc]
    exact .closing (h _ hinner) hrest

theorem plain (mark : c ≠ '"') (opening : c ≠ '(') (closing : c ≠ ')')
    (h : Remainder .outside n rest) : Remainder .outside n (c :: rest) :=
  prepend [c] (fun _ => .plain mark opening closing) h

theorem mark (h : Remainder .quoted n rest) : Remainder .outside n ('"' :: rest) := by
  cases h with
  | @literal _ content rest hcontent hrest =>
    have hwhole := prepend ('"' :: (content ++ ['"']))
      (fun text htext => by simpa using Balanced.literal hcontent htext) hrest
    simpa using hwhole

theorem opening (h : Remainder .outside (n + 1) rest) : Remainder .outside n ('(' :: rest) := by
  cases h with
  | @closing _ inner rest hinner hrest =>
    have hwhole := prepend ('(' :: (inner ++ [')']))
      (fun text htext => by simpa using Balanced.brackets hinner htext) hrest
    simpa using hwhole

theorem quoted (mark : c ≠ '"') (backslash : c ≠ '\\') (h : Remainder .quoted n rest) :
    Remainder .quoted n (c :: rest) := by
  cases h with
  | literal hcontent hrest => exact literal (.plain mark backslash hcontent) hrest

theorem backslash (h : Remainder .escaped n rest) : Remainder .quoted n ('\\' :: rest) := by
  cases h with
  | escape h =>
    cases h with
    | literal hcontent hrest => exact literal (.escape hcontent) hrest

/-- What is left of a text, when the scan goes on to the depth `d` and is never below it. -/
theorem of_scan {d : Int} {text : List Char} {place : Place} (above : Above d ⟨place, d + n⟩ text)
    (back : after ⟨place, d + n⟩ text = ⟨.outside, d⟩) : Remainder place n text := by
  -- each bracket changes the number of those still to be closed, so the number is general
  induction text generalizing place n with
  | nil =>
    have hdepth := congrArg Nesting.depth back
    cases congrArg Nesting.place back
    dsimp only [after_nil] at hdepth
    obtain rfl : n = 0 := by omega
    exact .balanced .nil
  | cons c rest ih =>
    obtain ⟨-, hrest⟩ := above_cons.mp above
    rw [after_cons] at back
    cases place with
    | outside =>
      by_cases hmark : c = '"'
      · subst hmark
        exact mark (ih hrest back)
      by_cases hopening : c = '('
      · subst hopening
        have hdeeper : d + n + 1 = d + (n + 1 : Nat) := by omega
        rw [step_opening, hdeeper] at hrest back
        exact opening (ih hrest back)
      by_cases hclosing : c = ')'
      · subst hclosing
        cases n with
        | zero =>
          -- the scan would be below the depth that it comes back to
          have hbelow := hrest.start
          rw [step_closing] at hbelow
          dsimp only at hbelow
          omega
        | succ n =>
          have hhigher : d + (n + 1 : Nat) - 1 = d + n := by omega
          rw [step_closing, hhigher] at hrest back
          exact closing .nil (ih hrest back)
      · rw [step_plain hmark hopening hclosing] at hrest back
        exact plain hmark hopening hclosing (ih hrest back)
    | quoted =>
      by_cases hmark : c = '"'
      · subst hmark
        exact literal .nil (ih hrest back)
      by_cases hbackslash : c = '\\'
      · subst hbackslash
        exact backslash (ih hrest back)
      · rw [step_quoted hmark hbackslash] at hrest back
        exact quoted hmark hbackslash (ih hrest back)
    | escaped => exact escape (ih hrest back)

end Remainder

/-- The scan of a text comes back to where it began and has not been below. -/
structure Level (d : Int) (text : List Char) : Prop where
  back : after ⟨.outside, d⟩ text = ⟨.outside, d⟩
  above : Above d ⟨.outside, d⟩ text

theorem Literal.scan {content : List Char} (h : Literal content) (d : Int) :
    after ⟨.quoted, d⟩ content = ⟨.quoted, d⟩ ∧ Above d ⟨.quoted, d⟩ content := by
  induction h with
  | nil => exact ⟨rfl, above_nil.mpr (Int.le_refl d)⟩
  | plain hmark hbackslash _ ih =>
    rw [after_cons, above_cons, step_quoted hmark hbackslash]
    exact ⟨ih.1, Int.le_refl d, ih.2⟩
  | escape _ ih =>
    rw [after_cons, after_cons, above_cons, above_cons, step_backslash, step_escaped]
    exact ⟨ih.1, Int.le_refl d, Int.le_refl d, ih.2⟩

theorem Nesting.Above.mono {low low' : Int} {s : Nesting} {text : List Char} (h : Above low s text)
    (le : low' ≤ low) : Above low' s text :=
  fun front hfront => Int.le_trans le (h front hfront)

theorem Balanced.level {text : List Char} (h : Balanced text) (d : Int) : Level d text := by
  induction h generalizing d with
  | nil => exact ⟨rfl, above_nil.mpr (Int.le_refl d)⟩
  | plain hmark hopening hclosing _ ih =>
    have hstep := step_plain hmark hopening hclosing d
    refine ⟨?_, above_cons.mpr ⟨Int.le_refl d, ?_⟩⟩
    · rw [after_cons, hstep, (ih d).back]
    · rw [hstep]
      exact (ih d).above
  | @literal content rest hcontent _ ih =>
    obtain ⟨hback, habove⟩ := hcontent.scan d
    refine ⟨?_, above_cons.mpr ⟨Int.le_refl d, above_append.mpr ⟨habove, ?_⟩⟩⟩
    · rw [after_cons, after_append, step_mark, hback, after_cons, step_endMark, (ih d).back]
    · rw [step_mark, hback, above_cons, step_endMark]
      exact ⟨Int.le_refl d, (ih d).above⟩
  | @brackets inner rest _ _ ihInner ihRest =>
    have hhigher : d + 1 - 1 = d := by omega
    have hinner := ihInner (d + 1)
    refine ⟨?_, above_cons.mpr ⟨Int.le_refl d, above_append.mpr ⟨?_, ?_⟩⟩⟩
    · rw [after_cons, after_append, step_opening, hinner.back, after_cons, step_closing, hhigher,
        (ihRest d).back]
    · exact hinner.above.mono (by omega)
    · rw [step_opening, hinner.back, above_cons, step_closing, hhigher]
      exact ⟨by dsimp only; omega, (ihRest d).above⟩

theorem balanced_iff_level (d : Int) {text : List Char} : Balanced text ↔ Level d text := by
  constructor
  · exact fun h => h.level d
  · rintro ⟨hback, habove⟩
    have hstart : (⟨.outside, d⟩ : Nesting) = ⟨.outside, d + (0 : Nat)⟩ := by simp
    rw [hstart] at habove
    have hremainder : Remainder .outside 0 text := Remainder.of_scan habove (hstart ▸ hback)
    cases hremainder with
    | balanced h => exact h

instance (low : Int) (s : Nesting) (text : List Char) : Decidable (Above low s text) :=
  decidable_of_iff (∀ front ∈ text.inits, low ≤ (s.after front).depth) (by simp [Above])

instance (text : List Char) : Decidable (Balanced text) :=
  decidable_of_iff (after ⟨.outside, 0⟩ text = ⟨.outside, 0⟩ ∧ Above 0 ⟨.outside, 0⟩ text)
    ⟨fun h => (balanced_iff_level 0).mpr ⟨h.1, h.2⟩, fun h => ⟨(h.level 0).back, (h.level 0).above⟩⟩

/-- The depth is back at zero at the end of the text, and at no earlier character of it. -/
structure Closes (text : List Char) : Prop where
  closed : depthOf text = 0
  earlier : ∀ front, front <+: text → front ≠ [] → front ≠ text → depthOf front ≠ 0

/-- Since one character closes one bracket at most, a depth that is never zero stays above. -/
theorem above_of_depth_ne {s : Nesting} {text : List Char} (start : 1 ≤ s.depth)
    (h : ∀ front, front <+: text → (s.after front).depth ≠ 0) : Above 1 s text := by
  induction text generalizing s with
  | nil => exact above_nil.mpr start
  | cons c rest ih =>
    have hlower := depth_step s c
    have hfirst : (s.step c).depth ≠ 0 := h [c] (List.cons_prefix_cons.mpr ⟨rfl, List.nil_prefix⟩)
    refine above_cons.mpr ⟨start, ih (by omega) fun front hfront => ?_⟩
    exact h (c :: front) (List.cons_prefix_cons.mpr ⟨rfl, hfront⟩)

theorem depthOf_opening (text : List Char) :
    depthOf ('(' :: text) = (after ⟨.outside, 1⟩ text).depth := rfl

theorem closes_iff_balanced {inner : List Char} :
    Closes ('(' :: (inner ++ [')'])) ↔ Balanced inner := by
  rw [balanced_iff_level 1]
  constructor
  · rintro ⟨hclosed, hearlier⟩
    have hopen : ∀ front, front <+: inner → (after ⟨.outside, 1⟩ front).depth ≠ 0 := by
      intro front hfront
      refine hearlier ('(' :: front) ?_ (List.cons_ne_nil _ _) ?_
      · exact List.cons_prefix_cons.mpr ⟨rfl, hfront.trans (List.prefix_append inner [')'])⟩
      · rintro he
        have hlength := hfront.length_le
        rw [(List.cons.inj he).2, List.length_append, List.length_singleton] at hlength
        omega
    have habove := above_of_depth_ne (Int.le_refl 1) hopen
    have hend : 1 ≤ (after ⟨.outside, 1⟩ inner).depth := habove inner List.prefix_rfl
    have hlast : ((after ⟨.outside, 1⟩ inner).step ')').depth = 0 := by
      rw [depthOf_opening, after_append] at hclosed
      exact hclosed
    refine ⟨?_, habove⟩
    -- within a string the last bracket would not bring the depth back to zero
    generalize after ⟨.outside, 1⟩ inner = s at hend hlast
    obtain ⟨place, depth⟩ := s
    cases place with
    | outside =>
      rw [step_closing] at hlast
      dsimp only at hlast
      rw [show depth = 1 by omega]
    | quoted =>
      rw [step_quoted (by decide) (by decide)] at hlast
      dsimp only at hend hlast
      omega
    | escaped =>
      rw [step_escaped] at hlast
      dsimp only at hend hlast
      omega
  · rintro ⟨hback, habove⟩
    refine ⟨?_, ?_⟩
    · rw [depthOf_opening, after_append, hback]
      rfl
    · intro front hfront hsome hpart
      rcases List.prefix_cons_iff.mp hfront with rfl | ⟨tail, rfl, htail⟩
      · exact absurd rfl hsome
      · rcases List.prefix_concat_iff.mp htail with rfl | htail
        · exact absurd rfl hpart
        · have hdeep := habove tail htail
          rw [depthOf_opening]
          omega

def Neutral (text : List Char) : Prop :=
  ∀ c ∈ text, c ≠ '"' ∧ c ≠ '\\' ∧ c ≠ '(' ∧ c ≠ ')'

instance (text : List Char) : Decidable (Neutral text) :=
  text.decidableBAll fun c => c ≠ '"' ∧ c ≠ '\\' ∧ c ≠ '(' ∧ c ≠ ')'

/-- Where the scan stands behind a character without notice: a backslash has had its effect. -/
def Nesting.settled (s : Nesting) : Nesting :=
  match s.place with
  | .escaped => ⟨.quoted, s.depth⟩
  | _ => s

section Neutral

variable {text : List Char}

theorem Neutral.cons {c : Char} (h : Neutral (c :: text)) (s : Nesting) :
    s.step c = s.settled ∧ Neutral text := by
  obtain ⟨⟨hmark, hbackslash, hopening, hclosing⟩, hrest⟩ := List.forall_mem_cons.mp h
  refine ⟨?_, hrest⟩
  obtain ⟨place, depth⟩ := s
  cases place with
  | outside => exact step_plain hmark hopening hclosing depth
  | quoted => exact step_quoted hmark hbackslash depth
  | escaped => rfl

theorem Nesting.settled_settled (s : Nesting) : s.settled.settled = s.settled := by
  obtain ⟨place, depth⟩ := s
  cases place <;> rfl

theorem Nesting.depth_settled (s : Nesting) : s.settled.depth = s.depth := by
  obtain ⟨place, depth⟩ := s
  cases place <;> rfl

theorem Neutral.after (h : Neutral text) (some : text ≠ []) (s : Nesting) :
    s.after text = s.settled := by
  induction text generalizing s with
  | nil => exact absurd rfl some
  | cons c rest ih =>
    obtain ⟨hstep, hrest⟩ := h.cons s
    rw [after_cons, hstep]
    cases rest with
    | nil => rfl
    | cons d rest => rw [ih hrest (List.cons_ne_nil d rest), settled_settled]

theorem Neutral.after_of_settled (h : Neutral text) {s : Nesting} (settled : s.settled = s) :
    s.after text = s := by
  cases text with
  | nil => rfl
  | cons c rest => rw [h.after (List.cons_ne_nil c rest), settled]

theorem Neutral.settled_after (h : Neutral text) (s : Nesting) :
    (s.after text).settled = s.settled := by
  cases text with
  | nil => rfl
  | cons c rest => rw [h.after (List.cons_ne_nil c rest), settled_settled]

theorem Neutral.depth_after (h : Neutral text) (s : Nesting) :
    (s.after text).depth = s.depth := by
  rw [← depth_settled, h.settled_after, depth_settled]

theorem Neutral.above_iff (h : Neutral text) {low : Int} {s : Nesting} :
    Above low s text ↔ low ≤ s.depth := by
  induction text generalizing s with
  | nil => exact above_nil
  | cons c rest ih =>
    obtain ⟨hstep, hrest⟩ := h.cons s
    rw [above_cons, hstep, ih hrest, depth_settled, and_self]

theorem Neutral.after_eq_outside (h : Neutral text) {s : Nesting} {d : Int} :
    s.after text = ⟨.outside, d⟩ ↔ s = ⟨.outside, d⟩ := by
  cases text with
  | nil => rfl
  | cons c rest =>
    rw [h.after (List.cons_ne_nil c rest)]
    obtain ⟨place, depth⟩ := s
    cases place <;> simp [settled]

theorem Neutral.balanced (h : Neutral text) : Balanced text :=
  (balanced_iff_level 0).mpr ⟨h.after_eq_outside.mpr rfl, h.above_iff.mpr (Int.le_refl 0)⟩

end Neutral

theorem balanced_append_iff {front rest : List Char} (h : Balanced front) :
    Balanced (front ++ rest) ↔ Balanced rest := by
  obtain ⟨hback, habove⟩ := h.level 0
  rw [balanced_iff_level 0, balanced_iff_level 0]
  constructor
  · rintro ⟨hend, hwhole⟩
    rw [after_append, hback] at hend
    rw [above_append, hback] at hwhole
    exact ⟨hend, hwhole.2⟩
  · rintro ⟨hend, hrest⟩
    refine ⟨?_, above_append.mpr ⟨habove, ?_⟩⟩
    · rw [after_append, hback, hend]
    · rw [hback]
      exact hrest

theorem balanced_append_neutral_iff {text margin : List Char} (h : Neutral margin) :
    Balanced (text ++ margin) ↔ Balanced text := by
  rw [balanced_iff_level 0, balanced_iff_level 0]
  constructor
  · rintro ⟨hend, hwhole⟩
    rw [after_append, h.after_eq_outside] at hend
    exact ⟨hend, (above_append.mp hwhole).1⟩
  · rintro ⟨hend, htext⟩
    refine ⟨?_, above_append.mpr ⟨htext, ?_⟩⟩
    · rw [after_append, hend, h.after_eq_outside]
    · rw [hend]
      exact h.above_iff.mpr (Int.le_refl 0)

theorem balanced_intercalate_concat_iff {texts : List (List Char)}
    (h : ∀ text ∈ texts, Balanced text) (last : List Char) :
    Balanced ([',', ' '].intercalate (texts ++ [last])) ↔ Balanced last := by
  have hcomma : Balanced [',', ' '] := by decide
  induction texts with
  | nil => rw [List.nil_append, List.intercalate_singleton]
  | cons text texts ih =>
    rw [List.forall_mem_cons] at h
    obtain ⟨next, others, hnext⟩ := List.exists_cons_of_ne_nil (List.concat_ne_nil last texts)
    refine Iff.trans ?_ (ih h.2)
    rw [List.cons_append, hnext, List.intercalate_cons_cons, List.append_assoc,
      balanced_append_iff h.1, balanced_append_iff hcomma]

theorem balanced_intercalate {texts : List (List Char)} (h : ∀ text ∈ texts, Balanced text) :
    Balanced ([',', ' '].intercalate texts) := by
  rcases List.eq_nil_or_concat texts with rfl | ⟨front, last, rfl⟩
  · exact .nil
  · rw [List.concat_eq_append] at h ⊢
    rw [List.forall_mem_append] at h
    exact (balanced_intercalate_concat_iff h.1 last).mpr (h.2 last List.mem_cons_self)

end CommandGrammar.Text

import CommandGrammar.Proofs.Grammar.Reading
import CommandGrammar.Proofs.Header.Legible
import CommandGrammar.Proofs.Joining.Role

/-!
The canonical text of a grammar, and reading it back.

A grammar is written state by state, with one line for each rule. An arrow within a literal is
taken apart by a blank, which the reader drops again; otherwise the line would be cut at it. What is
read from the canonical text of a well-formed grammar is the grammar itself, up to the numbers of
lines.
-/

set_option autoImplicit false
set_option relaxedAutoImplicit false

namespace CommandGrammar

open Text

/-- A text in which each arrow is taken apart by a blank. -/
def spaced : List Char → List Char
  | [] => []
  | '-' :: '>' :: cs => '-' :: ' ' :: '>' :: spaced cs
  | c :: cs => c :: spaced cs

/-- An action as a grammar writes it. A number of a call is not written. -/
def Action.canonical : Action → String
  | stay => ""
  | transition target => target
  | call ⟨template, none⟩ => "call " ++ template
  | call ⟨template, some state⟩ => "call " ++ template ++ "; " ++ state
  | dispatch _ _ => ""

namespace Rule

/-- The identifier of a rule with its equality sign, if the rule has one. -/
def canonicalIdentifier (rule : Rule) : String :=
  match rule.identifier with
  | none => ""
  | some name => name ++ " = "

def canonicalLine (rule : Rule) : String :=
  "  " ++ rule.canonicalIdentifier ++ String.ofList (spaced rule.token.toList) ++ " -> "
    ++ rule.action.canonical

def withoutLine (rule : Rule) : Rule :=
  { rule with line := 0 }

end Rule

namespace Grammar

def declarationLine (name : String) : String :=
  "state " ++ name ++ ":"

/-- The lines of a state: its declaration, and its rules in order. -/
def entryLines (entry : String × List Rule) : List String :=
  declarationLine entry.1 :: entry.2.map Rule.canonicalLine

def canonical (g : Grammar) : String :=
  endLines (g.states.entries.flatMap entryLines)

def entryContent (entry : String × List Rule) : String × List Rule :=
  (entry.1, entry.2.map Rule.withoutLine)

def content (g : Grammar) : List (String × List Rule) :=
  g.states.entries.map entryContent

theorem map_fst_content (g : Grammar) : g.content.map Prod.fst = g.stateNames := by
  rw [content, List.map_map]
  rfl

def withoutLines (g : Grammar) : Grammar where
  states := ⟨g.content, by
    rw [map_fst_content]
    exact g.states.nodup⟩
  stateLines := ∅

theorem withoutLines_eq_iff {g g' : Grammar} :
    g.withoutLines = g'.withoutLines ↔ g.content = g'.content := by
  constructor
  · intro h
    exact congrArg (fun g => g.states.entries) h
  · intro h
    simp only [withoutLines, h]

end Grammar

theorem head?_spaced (cs : List Char) : (spaced cs).head? = cs.head? := by
  fun_cases spaced cs <;> rfl

theorem not_hasArrow_spaced (cs : List Char) : ¬HasArrow (spaced cs) := by
  fun_induction spaced cs with
  | case1 => exact not_hasArrow_of_not_mem List.not_mem_nil
  | case2 cs ih => simp [hasArrow_cons_iff, ih]
  | case3 c cs hno ih =>
    rw [hasArrow_cons_iff, head?_spaced, not_or]
    refine ⟨?_, ih⟩
    rintro ⟨rfl, hhead⟩
    obtain ⟨rest, rfl⟩ := List.head?_eq_some_iff.mp hhead
    exact hno rest rfl rfl

theorem filter_spaced (cs : List Char) :
    ((spaced cs).filter fun c => !isBlank c) = cs.filter fun c => !isBlank c := by
  fun_induction spaced cs with
  | case1 => rfl
  | case2 cs ih =>
    have hblank : isBlank ' ' = true := by decide
    simp [List.filter_cons, ih, hblank]
  | case3 c cs _ ih => rw [List.filter_cons, List.filter_cons, ih]

theorem spaced_of_not_mem {cs : List Char} (h : '-' ∉ cs) : spaced cs = cs := by
  fun_induction spaced cs with
  | case1 => rfl
  | case2 cs ih => exact absurd List.mem_cons_self h
  | case3 c cs _ ih =>
    rw [List.mem_cons, not_or] at h
    rw [ih h.2]

theorem eq_blank_or_mem_of_mem_spaced (cs : List Char) : ∀ c ∈ spaced cs, c = ' ' ∨ c ∈ cs := by
  fun_induction spaced cs with
  | case1 => simp
  | case2 cs ih =>
    intro c hc
    simp only [List.mem_cons] at hc ⊢
    rcases hc with rfl | rfl | rfl | hc
    · exact .inr (.inl rfl)
    · exact .inl rfl
    · exact .inr (.inr (.inl rfl))
    · exact (ih c hc).imp_right fun h => .inr (.inr h)
  | case3 d cs _ ih =>
    intro c hc
    rcases List.mem_cons.mp hc with rfl | hc
    · exact .inr List.mem_cons_self
    · exact (ih c hc).imp_right (List.mem_cons_of_mem d)

namespace Rule

variable {rule : Rule}

def leftSide (rule : Rule) : List Char :=
  "  ".toList ++ (rule.canonicalIdentifier.toList ++ (spaced rule.token.toList ++ [' ']))

theorem toList_canonicalLine (rule : Rule) : rule.canonicalLine.toList =
    rule.leftSide ++ '-' :: '>' :: (' ' :: rule.action.canonical.toList) := by
  simp [canonicalLine, leftSide]

theorem canonicalIdentifier_of_some {name : String} (h : rule.identifier = some name) :
    rule.canonicalIdentifier.toList = name.toList ++ [' ', '=', ' '] := by
  simp [canonicalIdentifier, h]

theorem canonicalIdentifier_of_none (h : rule.identifier = none) :
    rule.canonicalIdentifier.toList = [] := by
  simp [canonicalIdentifier, h]

theorem dash_not_mem_canonicalIdentifier (wf : rule.WellFormed) :
    '-' ∉ rule.canonicalIdentifier.toList := by
  cases h : rule.identifier with
  | none => simp [canonicalIdentifier_of_none h]
  | some name =>
    have hname : '-' ∉ name.toList := not_mem_of_isWord (wf.identifier name h) (by decide)
    simp [canonicalIdentifier_of_some h, hname]

theorem not_hasArrow_leftSide (wf : rule.WellFormed) : ¬HasArrow rule.leftSide := by
  have hmargin : '-' ∉ "  ".toList := by decide
  rw [leftSide, hasArrow_append_of_not_mem hmargin,
    hasArrow_append_of_not_mem (dash_not_mem_canonicalIdentifier wf)]
  exact not_hasArrow_append (not_hasArrow_spaced _) (by decide)

theorem tokensForm_spaced {token : String} (h : TokenForm token.toList) :
    TokensForm (spaced token.toList ++ [' ']) [token] where
  nonempty := List.cons_ne_nil _ _
  each := by simpa using h
  text := by
    have hblank : isBlank ' ' = true := by decide
    have hkept : (token.toList.filter fun c => !isBlank c) = token.toList := by
      rw [List.filter_eq_self]
      intro c hc
      simp [h.isBlank_eq_false c hc]
    rw [List.filter_append, filter_spaced, hkept]
    simp [hblank]

theorem flushStart_spaced {token : List Char} (h : TokenForm token) :
    FlushStart (spaced token ++ [' ']) := by
  intro c hc
  obtain ⟨first, rest, rfl⟩ := List.exists_cons_of_ne_nil h.ne_nil
  rw [List.head?_append, head?_spaced, List.head?_cons, Option.some_or] at hc
  cases hc
  exact h.isBlank_eq_false c List.mem_cons_self

theorem not_captures_spaced {token : List Char} (h : TokenForm token) :
    ¬Captures (spaced token ++ [' ']) := by
  rintro ⟨name, gap, rest, hname, -, he⟩
  cases h with
  | className h =>
    -- neither the name nor the blank after it is an equality sign
    have hdash : '-' ∉ token := not_mem_of_isName h (by decide)
    have hsign : '=' ∉ token := not_mem_of_isName h (by decide)
    have hm : '=' ∈ token ++ [' '] := by
      rw [← spaced_of_not_mem hdash, he]
      simp
    simp [hsign] at hm
  | @literal body =>
    -- an identifier does not begin with an apostrophe
    obtain ⟨hne, hall⟩ := isWord_iff.mp hname
    obtain ⟨first, others, rfl⟩ := List.exists_cons_of_ne_nil hne
    have hhead := congrArg List.head? he
    rw [List.head?_append, head?_spaced] at hhead
    cases hhead
    exact absurd (hall '\'' List.mem_cons_self) (by decide)

theorem leftForm_leftSide (wf : rule.WellFormed) :
    LeftForm rule.leftSide rule.identifier (spaced rule.token.toList ++ [' ']) := by
  have hmargin : Blanks "  ".toList := by decide
  have hblank : Blanks [' '] := by decide
  unfold leftSide
  cases h : rule.identifier with
  | none =>
    rw [canonicalIdentifier_of_none h]
    exact .plain hmargin (flushStart_spaced wf.token) (not_captures_spaced wf.token)
  | some name =>
    have hform := LeftForm.captured hmargin (wf.identifier name h) hblank hblank
      (flushStart_spaced wf.token)
    rw [canonicalIdentifier_of_some h]
    simpa using hform

end Rule

theorem trim_call {text : List Char} (hne : text ≠ []) (hend : FlushEnd text) :
    trim (' ' :: ("call ".toList ++ text)) = "call ".toList ++ text := by
  have hblank : Blanks [' '] := by decide
  have hstart : FlushStart ("call ".toList ++ text) := by
    intro c hc
    have hfirst : 'c' = c := by simpa using hc
    rw [← hfirst]
    decide
  have hclosed : FlushEnd ("call ".toList ++ text) := (flushEnd_append _ hne).mpr hend
  have htrim := trim_append hblank hstart hclosed
  exact htrim

theorem actionForm_canonical {action : Action} (wf : action.WellFormed) :
    ActionForm (trim (' ' :: action.canonical.toList)) action := by
  have hblank : Blanks [' '] := by decide
  cases action with
  | stay => exact .stay
  | transition target =>
    have hflush := isBlank_of_mem_stateName wf
    have htrim : trim (' ' :: target.toList) = target.toList :=
      trim_append hblank (flushStart_of_forall hflush) (flushEnd_of_forall hflush)
    unfold Action.canonical
    rw [htrim]
    exact .transition wf
  | call clause =>
    obtain ⟨template, returnState⟩ := clause
    have htemplate : TemplateForm template.toList := wf.template
    cases returnState with
    | none =>
      have htext : (Action.canonical (.call ⟨template, none⟩)).toList =
          "call ".toList ++ template.toList := by
        simp [Action.canonical]
      rw [htext, trim_call htemplate.ne_nil htemplate.flushEnd]
      exact .call blanks_nil htemplate
    | some state =>
      have hstate : isWord isStateChar state.toList = true := wf.returnState state rfl
      have htext : (Action.canonical (.call ⟨template, some state⟩)).toList =
          "call ".toList ++ ((template.toList ++ ";".toList ++ [' ']) ++ state.toList) := by
        simp [Action.canonical]
      have hne := (isWord_iff.mp hstate).1
      rw [htext, trim_call (List.append_ne_nil_of_right_ne_nil _ hne)]
      · have hform := ActionForm.callReturning blanks_nil htemplate blanks_nil hblank hstate
        simpa using hform
      · rw [flushEnd_append _ hne]
        exact flushEnd_of_forall (isBlank_of_mem_stateName hstate)
  | dispatch => exact wf.elim

theorem Rule.defines_canonicalLine {rule : Rule} (wf : rule.WellFormed) :
    Defines rule.canonicalLine.toList rule.identifier [rule.token] rule.action := by
  rw [rule.toList_canonicalLine]
  exact .arrow (not_hasArrow_leftSide wf) (leftForm_leftSide wf) (tokensForm_spaced wf.token)
    (actionForm_canonical wf.action)

end CommandGrammar

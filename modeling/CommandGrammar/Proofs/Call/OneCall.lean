import CommandGrammar.Proofs.Call.Context
import CommandGrammar.Proofs.Grammar.Grouping
import CommandGrammar.Proofs.Text.Brackets

/-!
Templates that are one call.

A template is read as a name, a bracket, something, and a bracket. The two brackets belong together
exactly if what stands between them is balanced; otherwise the template is a call with something
behind it, or several calls. The accessor calls and the context do not change this. What does not
have the outer form is refused.
-/

set_option autoImplicit false
set_option relaxedAutoImplicit false

namespace CommandGrammar

open Text Template

/-- A text that is one call: a name, possibly blanks, and brackets whose depth is back at zero at
the end of the text and not earlier. -/
inductive OneCall : List Char → Prop where
  | call {word gap rest : List Char} : isName word = true → Blanks gap → Closes ('(' :: rest) →
      OneCall (word ++ (gap ++ '(' :: rest))

section Brackets

variable {word gap arguments : List Char}

/-- A text in the form of a call is one call exactly if its arguments are balanced. -/
theorem oneCall_iff_balanced (hword : isName word = true) (hgap : Blanks gap) :
    OneCall (word ++ (gap ++ '(' :: (arguments ++ [')']))) ↔ Balanced arguments := by
  rw [← closes_iff_balanced]
  constructor
  · intro h
    generalize htext : word ++ (gap ++ '(' :: (arguments ++ [')'])) = text at h
    cases h with
    | @call word' gap' rest hword' hgap' hcloses =>
      rw [← List.append_assoc, ← List.append_assoc word'] at htext
      obtain ⟨-, hrest⟩ := append_cons_inj_of_not_mem (opening_not_mem hword hgap)
        (opening_not_mem hword' hgap') htext
      rw [hrest]
      exact hcloses
  · exact fun h => .call hword hgap h

end Brackets

section Accessor

variable {accessor : List Char} {s : Nesting} {low : Int}

theorem neutral_of_isWord {name : List Char} (h : isWord isIdentifierChar name = true) :
    Neutral name := by
  intro c hc
  refine ⟨?_, ?_, ?_, ?_⟩
  all_goals
    rintro rfl
    exact not_mem_of_isWord h (by decide) hc

/-- The brackets of an accessor call belong together, or they stand in strings together with its
marks. -/
theorem scan_brackets {name : List Char} (hname : Neutral name) (low : Int) (s : Nesting) :
    s.after ('(' :: '"' :: (name ++ ['"', ')'])) = s.settled ∧
      (Nesting.Above low s ('(' :: '"' :: (name ++ ['"', ')'])) ↔ low ≤ s.depth) := by
  have hquoted : ∀ d, Nesting.after ⟨.quoted, d⟩ name = ⟨.quoted, d⟩ :=
    fun d => hname.after_of_settled rfl
  have houtside : ∀ d, Nesting.after ⟨.outside, d⟩ name = ⟨.outside, d⟩ :=
    fun d => hname.after_of_settled rfl
  have hopening : ∀ d, Nesting.step ⟨.quoted, d⟩ '(' = ⟨.quoted, d⟩ :=
    Nesting.step_quoted (by decide) (by decide)
  have hclosing : ∀ d, Nesting.step ⟨.quoted, d⟩ ')' = ⟨.quoted, d⟩ :=
    Nesting.step_quoted (by decide) (by decide)
  obtain ⟨place, d⟩ := s
  cases place with
  | outside =>
    simp [Nesting.above_cons, Nesting.above_append, Nesting.above_nil, hname.above_iff, hquoted,
      Nesting.settled]
    omega
  | quoted =>
    simp [Nesting.above_cons, Nesting.above_append, Nesting.above_nil, hname.above_iff, houtside,
      hopening, hclosing, Nesting.settled]
  | escaped =>
    simp [Nesting.above_cons, Nesting.above_append, Nesting.above_nil, hname.above_iff, houtside,
      hclosing, Nesting.settled]

theorem scan_accessor (haccessor : Neutral accessor) {name : List Char} (hname : Neutral name)
    (low : Int) (s : Nesting) :
    s.after (Piece.expand accessor (.capture name)) = s.settled ∧
      (Nesting.Above low s (Piece.expand accessor (.capture name)) ↔ low ≤ s.depth) := by
  have hexpand : Piece.expand accessor (.capture name) =
      accessor ++ '(' :: '"' :: (name ++ ['"', ')']) := by simp [Piece.expand]
  have hcall := scan_brackets hname low (s.after accessor)
  rw [hexpand, Nesting.after_append, Nesting.above_append, hcall.1, hcall.2,
    haccessor.settled_after, haccessor.above_iff, haccessor.depth_after, and_self]
  exact ⟨rfl, Iff.rfl⟩

theorem scan_append (front : List Char) {rest rest' : List Char}
    (h : ∀ s : Nesting, s.after rest = s.after rest' ∧
      (Nesting.Above low s rest ↔ Nesting.Above low s rest')) (s : Nesting) :
    s.after (front ++ rest) = s.after (front ++ rest') ∧
      (Nesting.Above low s (front ++ rest) ↔ Nesting.Above low s (front ++ rest')) := by
  have hrest := h (s.after front)
  rw [Nesting.after_append, Nesting.after_append, Nesting.above_append, Nesting.above_append,
    hrest.1, hrest.2]
  exact ⟨rfl, Iff.rfl⟩

theorem scan_expanded (haccessor : Neutral accessor) (low : Int) (text : List Char) (s : Nesting) :
    s.after (expanded accessor text) = s.after text ∧
      (Nesting.Above low s (expanded accessor text) ↔ Nesting.Above low s text) := by
  unfold expanded
  fun_induction pieces text generalizing s with
  | case1 => exact ⟨rfl, Iff.rfl⟩
  | case2 cs name rest hcapture ih =>
    obtain ⟨hcs, hname⟩ := capture?_eq_some_iff.mp hcapture
    have hneutral : Neutral ('$' :: name) := by
      cases hname with
      | capture hname _ => exact List.forall_mem_cons.mpr ⟨by decide, neutral_of_isWord hname⟩
    have hcall := scan_accessor haccessor (hneutral.cons s).2 low s
    rw [List.flatMap_cons, Nesting.after_append, Nesting.above_append, hcs, ← List.cons_append,
      Nesting.after_append, Nesting.above_append, hcall.1, hcall.2,
      hneutral.after (List.cons_ne_nil _ _), hneutral.above_iff]
    exact ⟨(ih s.settled).1, and_congr_right fun _ => (ih s.settled).2⟩
  | case3 cs hcapture ih => exact scan_append ['$'] ih s
  | case4 cs word rest hword _ ih =>
    have htext : '"' :: cs = ('"' :: (word ++ ['"'])) ++ rest := by simp [eq_of_word? hword]
    rw [htext]
    exact scan_append ('"' :: (word ++ ['"'])) ih s
  | case5 cs hword _ ih => exact scan_append ['"'] ih s
  | case6 c cs _ _ ih => exact scan_append [c] ih s

theorem balanced_expanded_iff (haccessor : Neutral accessor) (text : List Char) :
    Balanced (expanded accessor text) ↔ Balanced text := by
  obtain ⟨hback, habove⟩ := scan_expanded haccessor 0 text ⟨.outside, 0⟩
  rw [balanced_iff_level 0, balanced_iff_level 0]
  constructor
  · rintro ⟨hend, hstays⟩
    exact ⟨hback.symm.trans hend, habove.mp hstays⟩
  · rintro ⟨hend, hstays⟩
    exact ⟨hback.trans hend, habove.mpr hstays⟩

theorem neutral_of_margin {margin : List Char} (h : ∀ c ∈ margin, isMargin c = true) :
    Neutral margin := by
  intro c hc
  refine ⟨?_, ?_, ?_, ?_⟩
  all_goals
    rintro rfl
    exact absurd (h _ hc) (by decide)

theorem ExplicitArguments.balanced_iff (haccessor : Neutral accessor)
    {arguments explicit : List Char} (h : ExplicitArguments accessor arguments explicit) :
    Balanced explicit ↔ Balanced arguments := by
  obtain ⟨replaced, hreplaced, ⟨before, after, hbefore, hafter, htext⟩, -, -⟩ := h
  obtain rfl := (replacesAll_expanded accessor arguments).unique definite_isCapture hreplaced
  rw [← balanced_expanded_iff haccessor arguments, htext,
    balanced_append_iff (neutral_of_margin hbefore).balanced,
    balanced_append_neutral_iff (neutral_of_margin hafter)]

end Accessor

/-- The arguments of a real call: those of the context, and then the explicit ones, if any. -/
def argumentList (context : List String) (explicit : List Char) : List Char :=
  [',', ' '].intercalate (context.map String.toList ++ if explicit = [] then [] else [explicit])

theorem balanced_argumentList_iff {context : List String}
    (h : ∀ argument ∈ context, Balanced argument.toList) (explicit : List Char) :
    Balanced (argumentList context explicit) ↔ Balanced explicit := by
  have hcontext : ∀ text ∈ context.map String.toList, Balanced text := by
    intro text htext
    obtain ⟨argument, hargument, rfl⟩ := List.mem_map.mp htext
    exact h argument hargument
  unfold argumentList
  split
  · next hnone =>
    rw [hnone, List.append_nil]
    exact iff_of_true (balanced_intercalate hcontext) .nil
  · exact balanced_intercalate_concat_iff hcontext explicit

theorem Convention.callText_of_brackets (conv : Convention) {template : String}
    {word gap arguments explicit : List Char} (hword : isName word = true) (hgap : Blanks gap)
    (hbrackets : Brackets template.toList (word ++ gap) arguments)
    (hexplicit : ExplicitArguments conv.accessor.toList arguments explicit) :
    conv.callText template = .ok (String.ofList
      (word ++ (gap ++ '(' :: (argumentList conv.context explicit ++ [')'])))) := by
  obtain rfl := (explicitArguments_expanded conv.accessor.toList arguments).unique hexplicit
  have htemplate : template = String.ofList (word ++ (gap ++ '(' :: (arguments ++ [')']))) := by
    rw [← List.append_assoc, ← hbrackets.text, String.ofList_toList]
  rw [callText, htemplate, conv.invocation_eq_ok hword hgap]
  refine congrArg Except.ok ((Invocation.withContext_ofList conv.context (word ++ gap) _).trans ?_)
  apply String.toList_injective
  simp only [argumentList, String.toList_append, String.toList_intercalate, String.toList_ofList]
  split <;> simp

theorem Grammar.exists_brackets_of_read {source : String} {g : Grammar} {state : String}
    {rule : Rule} {clause : CallClause} (hread : Grammar.read source = .ok g)
    (hrule : (state, rule) ∈ g.rules) (hcall : rule.action = .call clause) :
    ∃ word gap arguments, isName word = true ∧ Blanks gap ∧
      Brackets clause.template.toList (word ++ gap) arguments := by
  obtain ⟨rules, hentry, hmem⟩ := g.mem_rules_iff.mp hrule
  have hform := ((wellFormed_of_read hread).rules _ hentry _ hmem).action
  rw [hcall] at hform
  exact exists_brackets hform.template

/-- A definition that announces a call is read only if its action has the form of a call. -/
theorem Grammar.actionForm_of_read {source : String} {g : Grammar}
    (hread : Grammar.read source = .ok g) {joined : List JoinedLine}
    (hjoin : JoinedLine.join (lines source) = .ok joined) {line : JoinedLine}
    (hline : line ∈ joined) {parts : DefinitionParts}
    (hparts : Statement.of? line.text = some (.definition parts)) :
    ∃ action, ActionForm parts.action action := by
  obtain ⟨_, hjoin', hlines⟩ := Outcome.bind_eq_ok.mp hread
  cases hjoin.symm.trans hjoin'
  rcases (groups_of_ofLines hlines).reads line hline with hdeclares | ⟨_, _, action, hsame, _, h, -⟩
  · rw [JoinedLine.declared?_of_definition hparts] at hdeclares
    cases hdeclares
  · rw [hparts] at hsame
    cases hsame
    exact ⟨action, h⟩

theorem exists_clause_of_actionForm {text : List Char} {action : Action}
    (h : ActionForm text action) (announced : "call ".toList <+: text) :
    ∃ clause, ActionForm text (.call clause) := by
  have hletter : 'c' ∈ text := announced.subset (by decide)
  cases h with
  | stay => cases hletter
  | transition htarget => exact absurd hletter (not_mem_of_isWord htarget (by decide))
  | call hgap htemplate => exact ⟨_, .call hgap htemplate⟩
  | callReturning hgap htemplate hbefore hafter hstate =>
    exact ⟨_, .callReturning hgap htemplate hbefore hafter hstate⟩

/-- For every text: a template that is read is taken apart into a name and the text in its brackets;
it is one call exactly if this text is balanced, and so is the real call, whose arguments are those
of the context and then the template's own. A text with a call that lacks the outer form, a name and
brackets at the end, is refused. -/
theorem templates_are_one_call_iff (source : String) :
    (∀ g state rule clause, Grammar.read source = .ok g → (state, rule) ∈ g.rules →
      rule.action = .call clause → ∃ word gap arguments, isName word = true ∧ Blanks gap ∧
        Brackets clause.template.toList (word ++ gap) arguments ∧
        (OneCall clause.template.toList ↔ Balanced arguments) ∧
        ∀ conv : Convention, Neutral conv.accessor.toList →
          (∀ argument ∈ conv.context, Balanced argument.toList) →
          ∃ call explicit, conv.callText clause.template = .ok call ∧
            ExplicitArguments conv.accessor.toList arguments explicit ∧
            Brackets call.toList (word ++ gap) (argumentList conv.context explicit) ∧
            (OneCall call.toList ↔ Balanced arguments)) ∧
    ∀ joined line parts, JoinedLine.join (lines source) = .ok joined → line ∈ joined →
      Statement.of? line.text = some (.definition parts) → "call ".toList <+: parts.action →
      (∀ clause, ¬ActionForm parts.action (.call clause)) →
      ∃ fault, Grammar.read source = .error fault := by
  constructor
  · intro g state rule clause hread hrule hcall
    obtain ⟨word, gap, arguments, hword, hgap, hbrackets⟩ :=
      Grammar.exists_brackets_of_read hread hrule hcall
    refine ⟨word, gap, arguments, hword, hgap, hbrackets, ?_, ?_⟩
    · rw [hbrackets.text, List.append_assoc]
      exact oneCall_iff_balanced hword hgap
    · intro conv haccessor hcontext
      have hexplicit := explicitArguments_expanded conv.accessor.toList arguments
      have hinner := balanced_argumentList_iff hcontext
        (trimMargin (expanded conv.accessor.toList arguments))
      refine ⟨_, _, conv.callText_of_brackets hword hgap hbrackets hexplicit, hexplicit, ?_, ?_⟩
      · refine ⟨?_, hbrackets.first⟩
        rw [String.toList_ofList, List.append_assoc]
      · rw [String.toList_ofList, oneCall_iff_balanced hword hgap, hinner,
          hexplicit.balanced_iff haccessor]
  · intro joined line parts hjoin hline hparts hannounced hno
    cases hread : Grammar.read source with
    | error fault => exact ⟨fault, rfl⟩
    | ok g =>
      -- a text that is read has an action in the form of a call there
      obtain ⟨action, haction⟩ := Grammar.actionForm_of_read hread hjoin hline hparts
      obtain ⟨clause, hclause⟩ := exists_clause_of_actionForm haction hannounced
      exact absurd hclause (hno clause)

/-- The arguments of `nestedCall` are balanced, so it is one call, also with the context. -/
theorem nestedCall_is_one_call : Grammar.read nestedCallSource = .ok nestedCallGrammar ∧
    OneCall nestedCall.template.toList ∧
    ∃ call, Convention.callText {} nestedCall.template = .ok call ∧ OneCall call.toList := by
  have hread : Grammar.read nestedCallSource = .ok nestedCallGrammar := by decide +kernel
  have hrule : ("INITIAL", ⟨"end", none, .call nestedCall, 2⟩) ∈ nestedCallGrammar.rules := by
    decide
  obtain ⟨word, gap, arguments, -, -, hbrackets, hone, hreal⟩ :=
    (templates_are_one_call_iff nestedCallSource).1 _ _ _ _ hread hrule rfl
  have hsplit : Brackets nestedCall.template.toList "f ".toList "g($x), (\"$y\") ".toList :=
    ⟨by decide, by decide⟩
  have hbalanced : Balanced arguments := by
    rw [(hsplit.unique hbrackets).2]
    decide
  obtain ⟨call, -, hcall, -, -, honeCall⟩ := hreal {} (by decide) (by decide)
  exact ⟨hread, hone.mpr hbalanced, call, hcall, honeCall.mpr hbalanced⟩

def gluedSource : String := "state A:\n 'x' -> call f()\n -> call g()"

def gluedCall : CallClause := ⟨"f() -> call g()", none⟩

/-- The text is read, although the template of its rule is not one call and the context goes to the
first of the two only. -/
theorem glued_calls_are_read : ∃ g, Grammar.read gluedSource = .ok g ∧
    ("A", ⟨"'x'", none, .call gluedCall, 2⟩) ∈ g.rules ∧ ¬OneCall gluedCall.template.toList ∧
    Convention.callText {} gluedCall.template =
      .ok "f(&current_match, result, ) -> call g()" := by
  have hname : isName "f".toList = true := by decide
  have hone := @oneCall_iff_balanced "f".toList [] ") -> call g(".toList hname blanks_nil
  refine ⟨⟨⟨[("A", [⟨"'x'", none, .call gluedCall, 2⟩])], by decide⟩, ⟨[("A", 1)], by decide⟩⟩,
    by decide +kernel, by decide, ?_, by decide +kernel⟩
  exact fun h => absurd (hone.mp h) (by decide)

end CommandGrammar

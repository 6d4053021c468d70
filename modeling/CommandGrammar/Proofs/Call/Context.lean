import CommandGrammar.Proofs.Call.Occurrences
import CommandGrammar.Proofs.Grammar.Closed
import CommandGrammar.Proofs.Text.Trimming

/-!
Where the context of a call goes.

A template is taken apart at its own first bracket, which is never one that an accessor brings in.
The explicit arguments of the call are told by the text in the brackets alone: its captures are
replaced, and then its margins are dropped. The call and its debug message have them both, and in
the call the context stands before them.
-/

set_option autoImplicit false
set_option relaxedAutoImplicit false

namespace CommandGrammar

open Text Template

/-- A template taken apart at its first opening and its last closing bracket. -/
structure Template.Brackets (template name arguments : List Char) : Prop where
  text : template = name ++ '(' :: (arguments ++ [')'])
  first : '(' ∉ name

/-- The explicit arguments of a call: what stands in the brackets of its template, with the accessor
called for each capture, and without margins. -/
def ExplicitArguments (accessor arguments explicit : List Char) : Prop :=
  ∃ replaced, ReplacesAll IsCapture (accessorCall accessor) arguments replaced ∧
    Trimmed isMargin replaced explicit

theorem Template.Brackets.unique {template name arguments name' arguments' : List Char}
    (h : Brackets template name arguments) (h' : Brackets template name' arguments') :
    name' = name ∧ arguments' = arguments := by
  obtain ⟨rfl, hfirst⟩ := h
  obtain ⟨htext, hfirst'⟩ := h'
  obtain ⟨hname, harguments⟩ := append_cons_inj_of_not_mem hfirst' hfirst htext.symm
  exact ⟨hname, List.append_cancel_right harguments⟩

theorem ExplicitArguments.unique {accessor arguments explicit other : List Char}
    (h : ExplicitArguments accessor arguments explicit)
    (h' : ExplicitArguments accessor arguments other) : other = explicit := by
  obtain ⟨replaced, hreplaced, htrimmed⟩ := h
  obtain ⟨replaced', hreplaced', htrimmed'⟩ := h'
  obtain rfl := hreplaced.unique definite_isCapture hreplaced'
  rw [htrimmed.eq_trimWhile, htrimmed'.eq_trimWhile]

theorem explicitArguments_expanded (accessor arguments : List Char) :
    ExplicitArguments accessor arguments (trimMargin (expanded accessor arguments)) :=
  ⟨_, replacesAll_expanded accessor arguments, trimmed_trimWhile isMargin _⟩

theorem Invocation.withContext_ofList (context : List String) (name explicit : List Char) :
    Invocation.withContext ⟨String.ofList name, String.ofList explicit⟩ context =
      String.ofList name ++ "(" ++ ", ".intercalate (context ++
        if explicit = [] then [] else [String.ofList explicit]) ++ ")" := by
  rw [withContext]
  cases explicit with
  | nil => rfl
  | cons c explicit => simp

theorem opening_not_mem {word gap : List Char} (hword : isName word = true) (hgap : Blanks gap) :
    '(' ∉ word ++ gap := by
  rw [List.mem_append, not_or]
  refine ⟨fun hm => ?_, Blanks.not_mem hgap (by decide)⟩
  exact absurd (isNameChar_of_mem_isName hword _ hm) (by decide)

theorem exists_brackets {template : List Char} (h : TemplateForm template) :
    ∃ word gap arguments, isName word = true ∧ Blanks gap ∧
      Brackets template (word ++ gap) arguments := by
  obtain @⟨word, gap, arguments, hword, hgap, -, -⟩ := h
  refine ⟨word, gap, arguments, hword, hgap, ?_, opening_not_mem hword hgap⟩
  rw [List.append_assoc]

/-- A template in a grammar that is read is taken apart in one way, into a name with blanks after it
and the text in its brackets. Whatever the convention, the explicit arguments are those of that text
in one way. The debug message gets them as they are, and in the call the arguments of the context
come before them, behind the first bracket of the template. -/
theorem context_before_arguments {source : String} {g : Grammar} {state : String} {rule : Rule}
    {clause : CallClause} (hread : Grammar.read source = .ok g) (hrule : (state, rule) ∈ g.rules)
    (hcall : rule.action = .call clause) (conv : Convention) :
    ∃ word gap arguments explicit, isName word = true ∧ Blanks gap ∧
      Brackets clause.template.toList (word ++ gap) arguments ∧
      (∀ name' arguments', Brackets clause.template.toList name' arguments' →
        name' = word ++ gap ∧ arguments' = arguments) ∧
      ExplicitArguments conv.accessor.toList arguments explicit ∧
      (∀ other, ExplicitArguments conv.accessor.toList arguments other → other = explicit) ∧
      conv.argumentText clause.template = .ok (String.ofList explicit) ∧
      conv.callText clause.template = .ok (String.ofList (word ++ gap) ++ "(" ++
        ", ".intercalate (conv.context ++
          if explicit = [] then [] else [String.ofList explicit]) ++ ")") := by
  obtain ⟨rules, hentry, hmem⟩ := g.mem_rules_iff.mp hrule
  have hform := ((Grammar.wellFormed_of_read hread).rules _ hentry _ hmem).action
  rw [hcall] at hform
  obtain ⟨word, gap, arguments, hword, hgap, hbrackets⟩ := exists_brackets hform.template
  have hexplicit := explicitArguments_expanded conv.accessor.toList arguments
  have hinvocation : conv.invocation clause.template = .ok ⟨String.ofList (word ++ gap),
      String.ofList (trimMargin (expanded conv.accessor.toList arguments))⟩ := by
    rw [← conv.invocation_eq_ok hword hgap, ← List.append_assoc, ← hbrackets.text,
      String.ofList_toList]
  refine ⟨word, gap, arguments, _, hword, hgap, hbrackets, fun _ _ => hbrackets.unique, hexplicit,
    fun _ => hexplicit.unique, ?_, ?_⟩
  · rw [Convention.argumentText, hinvocation]
    rfl
  · rw [Convention.callText, hinvocation]
    exact congrArg Except.ok (Invocation.withContext_ofList conv.context (word ++ gap) _)

/-- A call with brackets in its arguments, a blank before them and at their end, and a capture
between quotation marks. -/
def nestedCallSource : String :=
  "state INITIAL:\n end -> call f (g($x), (\"$y\") ); INITIAL"

def nestedCall : CallClause := ⟨"f (g($x), (\"$y\") )", some "INITIAL"⟩

def nestedCallGrammar : Grammar where
  states := ⟨[("INITIAL", [⟨"end", none, .call nestedCall, 2⟩])], by decide⟩
  stateLines := ⟨[("INITIAL", 1)], by decide⟩

/-- The call is taken apart at its own bracket under an accessor that holds brackets, a quotation
mark, a line feed and a dollar sign. -/
theorem context_before_arguments_nestedCall :
    Grammar.read nestedCallSource = .ok nestedCallGrammar ∧
    ("INITIAL", ⟨"end", none, .call nestedCall, 2⟩) ∈ nestedCallGrammar.rules ∧
    ∃ word gap arguments explicit, isName word = true ∧ Blanks gap ∧
      Brackets nestedCall.template.toList (word ++ gap) arguments ∧
      (∀ name' arguments', Brackets nestedCall.template.toList name' arguments' →
        name' = word ++ gap ∧ arguments' = arguments) ∧
      ExplicitArguments ")(\"\n$x".toList arguments explicit ∧
      (∀ other, ExplicitArguments ")(\"\n$x".toList arguments other → other = explicit) ∧
      Convention.argumentText ⟨["ctx"], ")(\"\n$x"⟩ nestedCall.template =
        .ok (String.ofList explicit) ∧
      Convention.callText ⟨["ctx"], ")(\"\n$x"⟩ nestedCall.template =
        .ok (String.ofList (word ++ gap) ++ "(" ++ ", ".intercalate (["ctx"] ++
          if explicit = [] then [] else [String.ofList explicit]) ++ ")") :=
  have hread : Grammar.read nestedCallSource = .ok nestedCallGrammar := by decide +kernel
  have hrule : ("INITIAL", ⟨"end", none, .call nestedCall, 2⟩) ∈ nestedCallGrammar.rules := by
    decide
  ⟨hread, hrule, context_before_arguments hread hrule rfl ⟨["ctx"], ")(\"\n$x"⟩⟩

/-- The same call with two arguments of context. -/
example : Convention.callText ⟨["&m", "r"], "get"⟩ nestedCall.template =
    .ok "f (&m, r, g(get(\"x\")), (\"get(\"y\")\"))" := by
  decide +kernel

end CommandGrammar

import CommandGrammar.Proofs.Call.Arguments
import CommandGrammar.Proofs.Call.Numbering
import CommandGrammar.Proofs.Header.RoundTrip

/-!
The debug message of a call.

In a debug build a call is printed: its format has a conversion for each capture and each quoted
word, and all arguments of the call follow as values. The conversions take the values from left to
right, so each is fed its own argument only if no other argument stands before it. Which calls are
printed as they should be is told by the order of their arguments alone.
-/

set_option autoImplicit false
set_option relaxedAutoImplicit false

namespace CommandGrammar

open Text Template

/-- What a format does at one place: it shows a character, or the next value. -/
inductive Directive where
  | character (c : Char)
  | value
  deriving DecidableEq, Repr

/-- The directives of a format. Of the conversions only `%s` and `%%` are known. -/
def directives? : List Char → Option (List Directive)
  | [] => some []
  | '%' :: '%' :: cs => (directives? cs).map (.character '%' :: ·)
  | '%' :: 's' :: cs => (directives? cs).map (.value :: ·)
  | '%' :: _ => none
  | c :: cs => (directives? cs).map (.character c :: ·)

def Template.Piece.directives : Piece → List Directive
  | plain c => [.character c]
  | capture _ => [.value]
  | word _ => [.value]

def Argument.directives (argument : Argument) : List Directive :=
  if argument.isShown then [.value] else argument.source.map .character

/-- What a format does for a call: it shows the call, with a value in place of each argument that is
shown by a conversion. -/
def callDirectives (name : List Char) (arguments : List Argument) : List Directive :=
  name.map .character ++ .character '(' ::
    ([.character ',', .character ' '].intercalate (arguments.map Argument.directives) ++
      [.character ')'])

/-- The conversions of a format stand for the shown arguments of a call, and each is fed what its
own argument stands for. -/
structure Aligned (accessor name : List Char) (arguments : List Argument)
    (format values : List Char) : Prop where
  replaced : directives? format = some (callDirectives name arguments)
  fed : ∀ (j : Nat) (argument : Argument), (arguments.filter Argument.isShown)[j]? = some argument →
    (expressions values)[j]? = some (argument.substituted accessor)

theorem directives?_cons {c : Char} (hc : c ≠ '%') (rest : List Char) :
    directives? (c :: rest) = (directives? rest).map (.character c :: ·) := by
  simp [directives?, hc]

theorem directives?_format_append (piece : Piece) (rest : List Char) :
    directives? (piece.format ++ rest) = (directives? rest).map (piece.directives ++ ·) := by
  cases piece with
  | plain c =>
    by_cases hc : c = '%'
    · subst hc
      rfl
    · rw [Piece.format, if_neg hc, List.singleton_append, directives?_cons hc]
      rfl
  | capture name => rfl
  | word text => rfl

theorem directives?_printFormat (template : String) :
    directives? (printFormat template).toList =
      some ((Template.pieces template.toList).flatMap Piece.directives) := by
  rw [printFormat, String.toList_ofList]
  induction Template.pieces template.toList with
  | nil => rfl
  | cons piece pieces ih =>
    rw [List.flatMap_cons, directives?_format_append, ih]
    rfl

theorem flatMap_directives_plain (text : List Char) :
    (text.map Piece.plain).flatMap Piece.directives = text.map .character := by
  induction text with
  | nil => rfl
  | cons c text ih =>
    rw [List.map_cons, List.flatMap_cons, ih]
    rfl

theorem Argument.flatMap_directives_pieces (argument : Argument) :
    argument.pieces.flatMap Piece.directives = argument.directives := by
  cases argument with
  | capture name => rfl
  | quoted content =>
    by_cases hword : isWord isQuotedWordChar content = true
    · rw [pieces, if_pos hword, directives, isShown, if_pos hword]
      rfl
    · rw [pieces, if_neg hword, directives, isShown, if_neg hword]
      exact flatMap_directives_plain _
  | integer negative digits => exact flatMap_directives_plain _

theorem directives?_callText {name : List Char} (hname : isName name = true)
    {arguments : List Argument} (wf : ∀ a ∈ arguments, a.WellFormed) :
    directives? (printFormat (String.ofList (callText name arguments))).toList =
      some (callDirectives name arguments) := by
  have harguments : ([.plain ',', .plain ' '].intercalate
      (arguments.map Argument.pieces)).flatMap Piece.directives =
      [.character ',', .character ' '].intercalate (arguments.map Argument.directives) := by
    rw [flatMap_intercalate, List.map_map]
    simp only [Function.comp_def, Argument.flatMap_directives_pieces]
    rfl
  rw [directives?_printFormat, String.toList_ofList, pieces_callText hname wf, List.flatMap_append,
    flatMap_directives_plain, List.flatMap_cons, List.flatMap_append, harguments]
  rfl

theorem Argument.head_integer {negative : Bool} {digits : List Char}
    (wf : (integer negative digits).WellFormed) (accessor : List Char) (c : Char)
    (hc : ((integer negative digits).substituted accessor).head? = some c) :
    isNameStart c = false ∧ c ≠ '"' := by
  cases negative with
  | true =>
    cases hc
    decide
  | false =>
    have hdigit : c.isDigit = true := (isWord_iff.mp wf).2 c (List.mem_of_mem_head? hc)
    refine ⟨isNameStart_of_isDigit hdigit, ?_⟩
    rintro rfl
    cases hdigit

theorem Argument.substituted_ne {accessor : List Char} (haccessor : isName accessor = true)
    {a b : Argument} (wf : a.WellFormed) (ha : a.isShown = false) (hb : b.isShown = true) :
    a.substituted accessor ≠ b.substituted accessor := by
  obtain ⟨first, rest, rfl⟩ := List.exists_cons_of_ne_nil (ne_nil_of_isName haccessor)
  have hfirst : isNameStart first = true := (Bool.and_eq_true_iff.mp haccessor).1
  intro he
  have hhead := congrArg List.head? he
  cases a with
  | capture name => cases ha
  | quoted content =>
    cases b with
    | capture name =>
      cases hhead
      revert hfirst
      decide
    | quoted word =>
      have hcontent : content = word := by
        simpa [substituted, source] using he
      rw [hcontent] at ha
      exact absurd hb (by simpa [isShown] using ha)
    | integer negative digits => cases hb
  | integer negative digits =>
    cases b with
    | capture name =>
      have hinteger := (head_integer wf (first :: rest) first hhead).1
      rw [hfirst] at hinteger
      cases hinteger
    | quoted word => exact (head_integer wf (first :: rest) '"' hhead).2 rfl
    | integer negative digits => cases hb

/-- Every conversion is fed its own argument if no argument that is not shown stands before one that
is. -/
theorem fed_iff {accessor : List Char} (haccessor : isName accessor = true)
    {arguments : List Argument} (wf : ∀ a ∈ arguments, a.WellFormed) :
    (∀ (j : Nat) (argument : Argument), (arguments.filter Argument.isShown)[j]? = some argument →
      (arguments.map (Argument.substituted accessor))[j]? = some (argument.substituted accessor)) ↔
    arguments.Pairwise fun a b => b.isShown = true → a.isShown = true := by
  induction arguments with
  | nil => simp
  | cons first rest ih =>
    rw [List.forall_mem_cons] at wf
    rw [List.pairwise_cons, ← ih wf.2]
    cases hshown : first.isShown with
    | true =>
      rw [List.filter_cons_of_pos hshown]
      constructor
      · intro h
        exact ⟨fun _ _ _ => rfl, fun j argument hj => h (j + 1) argument hj⟩
      · rintro ⟨-, h⟩ j argument hj
        cases j with
        | zero =>
          cases hj
          rfl
        | succ j => exact h j argument hj
    | false =>
      rw [List.filter_cons_of_neg (by simp [hshown])]
      constructor
      · intro h
        have hnone : rest.filter Argument.isShown = [] := by
          cases hfound : rest.filter Argument.isShown with
          | nil => rfl
          | cons shown others =>
            -- the first conversion is fed the first argument, which is not its own
            have hfed := h 0 shown (by rw [hfound]; rfl)
            have hmem : shown ∈ rest.filter Argument.isShown := by
              rw [hfound]
              exact List.mem_cons_self
            have hne := Argument.substituted_ne haccessor wf.1 hshown (List.mem_filter.mp hmem).2
            exact absurd (Option.some.inj hfed) hne
        rw [List.filter_eq_nil_iff] at hnone
        refine ⟨fun b hb hshown => absurd hshown (hnone b hb), ?_⟩
        rw [List.filter_eq_nil_iff.mpr hnone]
        simp
      · rintro ⟨hall, -⟩ j argument hj
        have hnone : rest.filter Argument.isShown = [] := by
          rw [List.filter_eq_nil_iff]
          intro b hb hb'
          cases hall b hb hb'
        rw [hnone] at hj
        cases hj

/-- The debug message of a call with plain arguments is aligned exactly if no argument that is not
shown stands before one that is. -/
theorem debug_message_aligned_iff (conv : Convention)
    (haccessor : isName conv.accessor.toList = true) {name : List Char}
    (hname : isName name = true) {arguments : List Argument}
    (wf : ∀ a ∈ arguments, a.WellFormed) (site : CallSite)
    (template : site.clause.template = String.ofList (callText name arguments)) (id : Nat) :
    ∃ call format values, NumberedCall.ofSite conv site id = .ok call ∧
      Header.print? (Header.printStatement call).toList = some (format, values) ∧
      (Aligned conv.accessor.toList name arguments format.toList values.toList ↔
        arguments.Pairwise fun a b => b.isShown = true → a.isShown = true) := by
  obtain ⟨invocation, hinvocation, hvalues⟩ := expressions_of_invocation conv haccessor hname wf
  rw [← template] at hinvocation
  refine ⟨_, _, _, NumberedCall.ofSite_eq_ok.mpr ⟨invocation, hinvocation, rfl⟩,
    Header.print?_printStatement _, ?_⟩
  dsimp only
  rw [← fed_iff haccessor wf, ← hvalues]
  constructor
  · rintro ⟨-, h⟩
    exact h
  · intro h
    refine ⟨?_, h⟩
    rw [template]
    exact directives?_callText hname wf

def integerFirst : NumberedCall where
  id := 0
  invocation := "f(&current_match, result, 1, get_string(\"x\"))"
  format := "f(1, %s)"
  arguments := "1, get_string(\"x\")"
  returnState := "INITIAL"
  state := "A"
  token := "t"
  line := 2

/-- The integer before the capture is fed to the conversion of the capture. -/
theorem capture_fed_integer :
    NumberedCall.ofSite {} ⟨"A", ⟨"t", none, .call ⟨"f(1, $x)", none⟩, 2⟩, ⟨"f(1, $x)", none⟩⟩ 0 =
      .ok integerFirst ∧
    Header.print? (Header.printStatement integerFirst).toList =
      some ("f(1, %s)", "1, get_string(\"x\")") ∧
    ¬Aligned "get_string".toList ['f'] [.integer false ['1'], .capture ['x']] "f(1, %s)".toList
      "1, get_string(\"x\")".toList := by
  refine ⟨by decide +kernel, Header.print?_printStatement integerFirst, ?_⟩
  intro h
  have hfed := h.fed 0 (.capture ['x']) rfl
  revert hfed
  decide

/-- A capture and a quoted word before an integer are shown as they should be. -/
theorem words_before_integer_aligned : isName "get_string".toList = true ∧
    isName "go".toList = true ∧
    (∀ a ∈ [.capture "place".toList, .quoted "number".toList, .integer true ['7']],
      Argument.WellFormed a) ∧
    ∃ call format values,
      NumberedCall.ofSite {} ⟨"A", ⟨"t", none, .call ⟨"go($place, \"number\", -7)", none⟩, 2⟩,
        ⟨"go($place, \"number\", -7)", none⟩⟩ 0 = .ok call ∧
      Header.print? (Header.printStatement call).toList = some (format, values) ∧
      Aligned "get_string".toList "go".toList
        [.capture "place".toList, .quoted "number".toList, .integer true ['7']]
        format.toList values.toList := by
  have haccessor : isName "get_string".toList = true := by decide
  have hname : isName "go".toList = true := by decide
  have wf : ∀ a ∈ [.capture "place".toList, .quoted "number".toList, .integer true ['7']],
      Argument.WellFormed a := by decide
  obtain ⟨call, format, values, hcall, hprint, haligned⟩ := debug_message_aligned_iff {} haccessor
    hname wf ⟨"A", ⟨"t", none, .call ⟨"go($place, \"number\", -7)", none⟩, 2⟩,
      ⟨"go($place, \"number\", -7)", none⟩⟩ (by decide) 0
  exact ⟨haccessor, hname, wf, call, format, values, hcall, hprint, haligned.mpr (by decide)⟩

end CommandGrammar

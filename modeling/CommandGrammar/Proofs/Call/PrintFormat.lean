import CommandGrammar.Proofs.Call.DebugMessage
import CommandGrammar.Proofs.Call.Occurrences

/-!
The format of a template.

The format shows the template again if each conversion is given the capture or the quoted word that
it stands for: each character that a scan passes is shown as itself, and each occurrence is a
conversion. It can be made by three replacements, one after another: of the per cent signs, of the
captures, and of the quoted words. What one of them writes is never an occurrence for the next.
-/

set_option autoImplicit false
set_option relaxedAutoImplicit false

namespace CommandGrammar

open Text Template

/-- What a format does at a segment: it shows a passed character, and a value for an occurrence. -/
def Text.Segment.directive : Segment → Directive
  | passed c => .character c
  | found _ => .value

/-- What directives show with the given values; each directive that shows a value takes the next. -/
def printed? : List Directive → List (List Char) → Option (List Char)
  | [], _ => some []
  | .character c :: directives, values => (printed? directives values).map (c :: ·)
  | .value :: directives, value :: values => (printed? directives values).map (value ++ ·)
  | .value :: _, [] => none

def occurrences (segments : List Segment) : List (List Char) :=
  segments.filterMap Segment.occurrence?

/-- A per cent sign written twice; any other character as it is. -/
def doubledSign (c : Char) : List Char :=
  if c = '%' then ['%', '%'] else [c]

def doubled (text : List Char) : List Char :=
  text.flatMap doubledSign

def doubledSegment : Segment → List Segment
  | .passed c => (doubledSign c).map .passed
  | .found occurrence => [.found occurrence]

def conversion (_ : List Char) : List Char := ['%', 's']

theorem printed?_directives (segments : List Segment) :
    printed? (segments.map Segment.directive) (occurrences segments) =
      some (segments.flatMap Segment.source) := by
  induction segments with
  | nil => rfl
  | cons segment segments ih =>
    cases segment with
    | passed c =>
      change (printed? (segments.map Segment.directive) (occurrences segments)).map _ = _
      rw [ih]
      rfl
    | found occurrence =>
      change (printed? (segments.map Segment.directive) (occurrences segments)).map _ = _
      rw [ih]
      rfl

theorem count_value_directives (segments : List Segment) :
    (segments.map Segment.directive).count .value = (occurrences segments).length := by
  induction segments with
  | nil => rfl
  | cons segment segments ih =>
    cases segment with
    | passed c => exact (List.count_cons_of_ne (by simp [Segment.directive])).trans ih
    | found occurrence => exact List.count_cons_self.trans (congrArg (· + 1) ih)

theorem doubled_of_not_mem {text : List Char} (h : '%' ∉ text) : doubled text = text := by
  induction text with
  | nil => rfl
  | cons c text ih =>
    rw [List.mem_cons, not_or] at h
    rw [doubled, List.flatMap_cons, doubledSign, if_neg (Ne.symm h.1)]
    exact congrArg (c :: ·) (ih h.2)

theorem doubled_append (front rest : List Char) :
    doubled (front ++ rest) = doubled front ++ doubled rest :=
  List.flatMap_append

theorem head?_doubled (text : List Char) : (doubled text).head? = text.head? := by
  cases text with
  | nil => rfl
  | cons c text =>
    by_cases hc : c = '%' <;> simp [doubled, doubledSign, hc]

theorem scan_doubled {text : List Char} {segments : List Segment}
    (h : Scan IsCapture text segments) :
    Scan IsCapture (doubled text) (segments.flatMap doubledSegment) := by
  induction h with
  | done => exact .done
  | @found _ rest segments hcapture _ ih =>
    obtain @⟨name, _, hname, hstop⟩ := hcapture
    have hsign : '%' ∉ '$' :: name := by
      simp [not_mem_of_isWord hname (c := '%') (by decide)]
    rw [doubled_append, doubled_of_not_mem hsign]
    exact .found (.capture hname (by rwa [head?_doubled])) ih
  | @passed c rest segments hnone _ ih =>
    change Scan IsCapture (doubledSign c ++ doubled rest)
      ((doubledSign c).map .passed ++ segments.flatMap doubledSegment)
    by_cases hdollar : c = '$'
    · subst hdollar
      rw [occursAt_capture_iff, exists_capture?_iff, ← head?_doubled] at hnone
      refine .passed ?_ ih
      rwa [occursAt_capture_iff, exists_capture?_iff]
    · refine Scan.passed_append startsWith_isCapture ?_ ih
      unfold doubledSign
      split <;> simp [Ne.symm hdollar]

/-- A piece after the per cent signs have been doubled and the captures replaced. -/
def Template.Piece.afterCaptures : Piece → List Char
  | capture _ => ['%', 's']
  | piece => doubled piece.source

def Template.Piece.wordSegments : Piece → List Segment
  | word text => [.found (Piece.word text).source]
  | piece => piece.afterCaptures.map .passed

theorem first_of_word {c : Char} {cs word rest : List Char}
    (hword : ∀ d ∈ word, isQuotedWordChar d = true) (h : c :: cs = word ++ '"' :: rest) :
    (word = [] ∧ c = '"') ∨
      (isQuotedWordChar c = true ∧ ∃ others, word = c :: others ∧ cs = others ++ '"' :: rest) := by
  cases word with
  | nil => exact .inl ⟨rfl, (List.cons.inj h).1⟩
  | cons d word =>
    obtain ⟨rfl, hcs⟩ := List.cons.inj h
    exact .inr ⟨hword c List.mem_cons_self, word, rfl, hcs⟩

theorem ne_word_of_first {c : Char} (hmark : c ≠ '"') (hchar : isQuotedWordChar c = false)
    {cs word rest : List Char} (hword : ∀ d ∈ word, isQuotedWordChar d = true) :
    c :: cs ≠ word ++ '"' :: rest := by
  intro h
  obtain ⟨-, hc⟩ | ⟨hc, -⟩ := first_of_word hword h
  · exact hmark hc
  · rw [hchar] at hc
    cases hc

theorem afterCaptures_plain (c : Char) : (Piece.plain c).afterCaptures = doubledSign c :=
  List.append_nil _

/-- A word that ends at a mark after the captures have been replaced ended there before. -/
theorem word_before_captures {text word rest : List Char}
    (hword : ∀ c ∈ word, isQuotedWordChar c = true)
    (h : (pieces text).flatMap Piece.afterCaptures = word ++ '"' :: rest) :
    ∃ after, text = word ++ '"' :: after := by
  have mark : ∀ {cs others word : List Char}, (∀ c ∈ word, isQuotedWordChar c = true) →
      '"' :: others = word ++ '"' :: rest → ∃ after, '"' :: cs = word ++ '"' :: after := by
    intro cs others word hword h
    obtain ⟨rfl, -⟩ | ⟨hchar, -⟩ := first_of_word hword h
    · exact ⟨cs, rfl⟩
    · exact absurd hchar (by decide)
  -- a piece that is no plain character begins with a sign or a mark after the replacement, and a
  -- word goes on behind neither; so the induction goes on through plain characters only
  fun_induction pieces text generalizing word with
  | case1 => simp at h
  | case2 cs name after _ _ => exact absurd h (ne_word_of_first (c := '%') (by decide) rfl hword)
  | case3 cs _ _ => exact absurd h (ne_word_of_first (c := '$') (by decide) rfl hword)
  | case4 cs text after _ _ _ => exact mark hword h
  | case5 cs _ _ _ => exact mark hword h
  | case6 c cs hdollar hmark ih =>
    rw [List.flatMap_cons, afterCaptures_plain, doubledSign] at h
    split at h
    · exact absurd h (ne_word_of_first (by decide) rfl hword)
    · obtain ⟨-, hc⟩ | ⟨-, others, rfl, hcs⟩ := first_of_word hword h
      · exact absurd hc hmark
      · obtain ⟨after, rfl⟩ := ih (fun d hd => hword d (List.mem_cons_of_mem c hd)) hcs
        exact ⟨after, rfl⟩

theorem scan_words (text : List Char) :
    Scan IsQuotedWord ((pieces text).flatMap Piece.afterCaptures)
      ((pieces text).flatMap Piece.wordSegments) := by
  have passed : ∀ {c : Char} {rest : List Char} {segments : List Segment}, c ≠ '"' →
      Scan IsQuotedWord rest segments → Scan IsQuotedWord ((Piece.plain c).afterCaptures ++ rest)
        ((Piece.plain c).wordSegments ++ segments) := by
    intro c rest segments hmark h
    refine Scan.passed_append startsWith_isQuotedWord ?_ h
    rw [afterCaptures_plain, doubledSign]
    split <;> simp [Ne.symm hmark]
  fun_induction pieces text with
  | case1 => exact .done
  | case2 cs name rest _ ih =>
    have hmark : '"' ∉ (Piece.capture name).afterCaptures := by simp [Piece.afterCaptures]
    exact Scan.passed_append startsWith_isQuotedWord hmark ih
  | case3 cs _ ih => exact passed (by decide) ih
  | case4 cs word rest h _ ih =>
    obtain ⟨-, hword⟩ := word?_eq_some_iff.mp h
    have hsign : '%' ∉ (Piece.word word).source := by
      simp [Piece.source, not_mem_of_isWord hword (c := '%') (by decide)]
    have hplain : (Piece.word word).afterCaptures = (Piece.word word).source :=
      doubled_of_not_mem hsign
    rw [List.flatMap_cons, hplain]
    exact .found (.word hword) ih
  | case5 cs h _ ih =>
    refine .passed ?_ ih
    -- a word that stood here after the captures were replaced would have stood here before
    rw [occursAt_quotedWord_iff]
    rintro ⟨⟨word, rest⟩, hfound⟩
    obtain ⟨htext, hword⟩ := word?_eq_some_iff.mp hfound
    obtain ⟨after, rfl⟩ := word_before_captures (isWord_iff.mp hword).2 htext
    rw [word?_eq_some_iff.mpr ⟨rfl, hword⟩] at h
    cases h
  | case6 c cs _ hmark ih => exact passed hmark ih

theorem flatMap_replaced_passed (change : List Char → List Char) (text : List Char) :
    (text.map Segment.passed).flatMap (Segment.replaced change) = text := by
  induction text with
  | nil => rfl
  | cons c text ih => exact congrArg (c :: ·) ih

theorem flatMap_replaced_doubled (text : List Char) :
    ((text.map Segment.passed).flatMap fun segment =>
      (doubledSegment segment).flatMap (Segment.replaced conversion)) = doubled text := by
  rw [List.flatMap_map]
  exact congrArg text.flatMap (funext fun c => flatMap_replaced_passed conversion (doubledSign c))

theorem replacesAll_captures (text : List Char) :
    ReplacesAll IsCapture conversion (doubled text)
      ((pieces text).flatMap Piece.afterCaptures) := by
  refine ⟨_, scan_doubled (scan_captures text), ?_⟩
  rw [List.flatMap_assoc, List.flatMap_assoc]
  congr 1
  funext piece
  cases piece with
  | plain c => exact (flatMap_replaced_doubled [c]).symm
  | capture name => rfl
  | word word => exact (flatMap_replaced_doubled (Piece.word word).source).symm

theorem replacesAll_words (template : String) :
    ReplacesAll IsQuotedWord conversion ((pieces template.toList).flatMap Piece.afterCaptures)
      (printFormat template).toList := by
  refine ⟨_, scan_words template.toList, ?_⟩
  rw [printFormat, String.toList_ofList, List.flatMap_assoc]
  congr 1
  funext piece
  cases piece with
  | plain c => exact ((flatMap_replaced_passed _ _).trans (afterCaptures_plain c)).symm
  | capture name => rfl
  | word text => rfl

/-- A format does at each segment of the template what it does for the piece there. -/
theorem flatMap_directives_pieces (text : List Char) :
    (pieces text).flatMap Piece.directives =
      ((pieces text).map Piece.segment).map Segment.directive := by
  induction pieces text with
  | nil => rfl
  | cons piece pieces ih =>
    rw [List.flatMap_cons, ih]
    cases piece <;> rfl

/-- The format of a template is made by doubling its per cent signs, replacing its captures and then
its quoted words. It has one conversion for each occurrence of a capture or a quoted word in the
template, and given the occurrences it shows the template. -/
theorem format_shows_template (template : String) :
    (∃ captured, ReplacesAll IsCapture conversion (doubled template.toList) captured ∧
      ReplacesAll IsQuotedWord conversion captured (printFormat template).toList) ∧
    ∃ segments, Scan IsShown template.toList segments ∧
      (∀ other, Scan IsShown template.toList other → other = segments) ∧
      ∃ directives, directives? (printFormat template).toList = some directives ∧
        directives = segments.map Segment.directive ∧
        directives.count .value = (occurrences segments).length ∧
        printed? directives (occurrences segments) = some template.toList := by
  have hscan := scan_pieces template.toList
  have hdirectives := flatMap_directives_pieces template.toList
  refine ⟨⟨_, replacesAll_captures template.toList, replacesAll_words template⟩, _, hscan,
    fun other h => hscan.unique definite_isShown h, _, directives?_printFormat template,
    hdirectives, ?_, ?_⟩
  · rw [hdirectives, count_value_directives]
  · rw [hdirectives, printed?_directives, hscan.flatMap_source]

end CommandGrammar

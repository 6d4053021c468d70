import CommandGrammar.Proofs.Text.OneLine
import Mathlib.Data.List.Chain

set_option autoImplicit false
set_option relaxedAutoImplicit false

namespace CommandGrammar.Text

/-- The kinds of newlines: a line feed, a carriage return, or the one after the other. -/
inductive Newline where
  | lineFeed
  | carriageReturn
  | pair
  deriving DecidableEq, Repr

def Newline.text : Newline → List Char
  | lineFeed => ['\n']
  | carriageReturn => ['\r']
  | pair => ['\r', '\n']

structure Spelling where
  first : String
  rest : List (Newline × String)
  deriving DecidableEq, Repr

namespace Spelling

def lines (s : Spelling) : List String :=
  s.first :: s.rest.map Prod.snd

def restText (rest : List (Newline × String)) : List Char :=
  rest.flatMap fun entry => entry.1.text ++ entry.2.toList

def text (s : Spelling) : List Char :=
  s.first.toList ++ restText s.rest

/-- Two newlines do not run into one: between a carriage return and a line feed stands something. -/
def Apart (entry next : Newline × String) : Prop :=
  ¬(entry.1 = .carriageReturn ∧ entry.2 = "" ∧ next.1 = .lineFeed)

instance : DecidableRel Apart := fun entry next =>
  inferInstanceAs (Decidable (¬(entry.1 = .carriageReturn ∧ entry.2 = "" ∧ next.1 = .lineFeed)))

/-- The lines hold no part of a newline, and no two newlines run together into one. -/
structure Proper (s : Spelling) : Prop where
  oneLine : ∀ line ∈ s.lines, OneLine line
  noReturn : ∀ line ∈ s.lines, '\r' ∉ line.toList
  apart : s.rest.IsChain Apart

end Spelling

theorem unifyNewlines_append {line : List Char} (h : '\r' ∉ line) (cs : List Char) :
    unifyNewlines (line ++ cs) = line ++ unifyNewlines cs := by
  induction line with
  | nil => rfl
  | cons c line ih =>
    rw [List.mem_cons, not_or] at h
    have hc : c ≠ '\r' := Ne.symm h.1
    rw [List.cons_append, List.cons_append, ← ih h.2]
    simp [unifyNewlines, hc]

theorem unifyNewlines_of_not_mem {cs : List Char} (h : '\r' ∉ cs) : unifyNewlines cs = cs := by
  have happend := unifyNewlines_append h []
  rwa [List.append_nil, unifyNewlines, List.append_nil] at happend

/-- A newline of any kind becomes a line feed; a carriage return by itself must not be followed by
one. -/
theorem unifyNewlines_newline (newline : Newline) {cs : List Char}
    (apart : newline = .carriageReturn → cs.head? ≠ some '\n') :
    unifyNewlines (newline.text ++ cs) = '\n' :: unifyNewlines cs := by
  cases newline with
  | lineFeed => simp [Newline.text, unifyNewlines]
  | pair => simp [Newline.text, unifyNewlines]
  | carriageReturn =>
    have hnext := apart rfl
    cases cs with
    | nil => rfl
    | cons c cs =>
      have hc : c ≠ '\n' := by
        rintro rfl
        exact hnext rfl
      simp [Newline.text, unifyNewlines, hc]

theorem carriageReturn_not_mem_unifyNewlines (cs : List Char) : '\r' ∉ unifyNewlines cs := by
  fun_induction unifyNewlines cs with
  | case1 => exact List.not_mem_nil
  | case2 cs ih => simpa using ih
  | case3 cs _ ih => simpa using ih
  | case4 c cs _ hc ih =>
    rw [List.mem_cons, not_or]
    exact ⟨fun h => hc h.symm, ih⟩

section Replacing

def replacePairs : List Char → List Char
  | [] => []
  | '\r' :: '\n' :: cs => '\n' :: replacePairs cs
  | c :: cs => c :: replacePairs cs

def replaceReturns (cs : List Char) : List Char :=
  cs.map fun c => if c = '\r' then '\n' else c

theorem replaceReturns_replacePairs (cs : List Char) :
    replaceReturns (replacePairs cs) = unifyNewlines cs := by
  fun_induction unifyNewlines cs with
  | case1 => rfl
  | case2 cs ih =>
    rw [replacePairs, ← ih]
    rfl
  | case3 cs hnext ih =>
    rw [replacePairs, ← ih]
    · rfl
    · exact fun rest _ => hnext rest
  | case4 c cs hpair hreturn ih =>
    have hc : c ≠ '\r' := hreturn
    rw [replacePairs, ← ih]
    · simp [replaceReturns, hc]
    · exact hpair

theorem replace_unifyNewlines (cs : List Char) :
    replaceReturns (replacePairs (unifyNewlines cs)) = unifyNewlines cs := by
  rw [replaceReturns_replacePairs]
  exact unifyNewlines_of_not_mem (carriageReturn_not_mem_unifyNewlines cs)

end Replacing

namespace Spelling

theorem head?_ne_lineFeed {entry : Newline × String} {rest : List (Newline × String)}
    (oneLine : OneLine entry.2) (apart : (entry :: rest).IsChain Apart)
    (hreturn : entry.1 = .carriageReturn) :
    (entry.2.toList ++ restText rest).head? ≠ some '\n' := by
  intro hhead
  by_cases hempty : entry.2 = ""
  · have hrest : (restText rest).head? = some '\n' := by
      rw [hempty] at hhead
      exact hhead
    cases rest with
    | nil => cases hrest
    | cons next rest =>
      have hapart : Apart entry next := (List.isChain_cons_cons.mp apart).1
      cases hnewline : next.1 with
      | lineFeed => exact hapart ⟨hreturn, hempty, hnewline⟩
      | carriageReturn =>
        rw [restText, List.flatMap_cons, hnewline] at hrest
        cases hrest
      | pair =>
        rw [restText, List.flatMap_cons, hnewline] at hrest
        cases hrest
  · -- the line itself begins with another character
    have hne : entry.2.toList ≠ [] := by simpa using hempty
    obtain ⟨c, line, hline⟩ := List.exists_cons_of_ne_nil hne
    rw [hline, List.cons_append, List.head?_cons] at hhead
    apply oneLine
    rw [hline, ← Option.some.inj hhead]
    exact List.mem_cons_self

theorem unifyNewlines_restText {rest : List (Newline × String)}
    (oneLine : ∀ entry ∈ rest, OneLine entry.2)
    (noReturn : ∀ entry ∈ rest, '\r' ∉ entry.2.toList) (apart : rest.IsChain Apart) :
    unifyNewlines (restText rest) = rest.flatMap fun entry => '\n' :: entry.2.toList := by
  induction rest with
  | nil => rfl
  | cons entry rest ih =>
    rw [List.forall_mem_cons] at oneLine noReturn
    have hrest := ih oneLine.2 noReturn.2 apart.tail
    have htext : restText (entry :: rest) = entry.1.text ++ (entry.2.toList ++ restText rest) := by
      rw [restText, List.flatMap_cons, List.append_assoc]
      rfl
    rw [htext, unifyNewlines_newline entry.1 (head?_ne_lineFeed oneLine.1 apart),
      unifyNewlines_append noReturn.1, hrest, List.flatMap_cons, List.cons_append]

theorem toList_joinLines (first : String) (rest : List String) :
    (joinLines (first :: rest)).toList =
      first.toList ++ rest.flatMap fun line => '\n' :: line.toList := by
  induction rest generalizing first with
  | nil => simp [joinLines]
  | cons next rest ih =>
    have hjoin : joinLines (first :: next :: rest) = first ++ "\n" ++ joinLines (next :: rest) :=
      String.intercalate_cons_cons
    rw [hjoin, String.toList_append, String.toList_append, ih, List.flatMap_cons]
    simp

theorem Proper.unifyNewlines_text {s : Spelling} (h : s.Proper) :
    unifyNewlines s.text = (joinLines s.lines).toList := by
  have hfirst := h.noReturn s.first List.mem_cons_self
  have hmember : ∀ entry ∈ s.rest, entry.2 ∈ s.lines := fun entry hentry =>
    List.mem_cons_of_mem s.first (List.mem_map_of_mem hentry)
  have hrest := unifyNewlines_restText (fun entry he => h.oneLine _ (hmember entry he))
    (fun entry he => h.noReturn _ (hmember entry he)) h.apart
  rw [text, unifyNewlines_append hfirst, hrest, lines, toList_joinLines, List.flatMap_map]

theorem Proper.lines_joinLines {s : Spelling} (h : s.Proper) :
    Text.lines (joinLines s.lines) = s.lines :=
  Text.lines_joinLines h.oneLine (List.cons_ne_nil _ _)

end Spelling

end CommandGrammar.Text

import CommandGrammar.Grammar.Reader
import CommandGrammar.Proofs.Joining.Segmentation
import CommandGrammar.Proofs.Logged

/-!
Joining line by line.

The joining reads one physical line after another and gives out a joined line as soon as it is
complete, so that whoever takes the lines may act on each before the next physical line is looked
at. What is given out is the division of the lines that count into groups, each at its time; a stray
continuation ends the joining before anything has been given out. Therefore a reader may as well
have all lines joined before it takes the first.
-/

set_option autoImplicit false
set_option relaxedAutoImplicit false

namespace CommandGrammar

/-- The joining between two physical lines: how many have been read, and the line held back. -/
structure Joining where
  read : Nat
  pending : Option JoinedLine

namespace Joining

open JoinedLine

def initial : Joining := ⟨0, none⟩

/-- Reads one physical line more, which may complete the line held back. -/
def step (j : Joining) (text : String) : Except Fault (Option JoinedLine × Joining) :=
  match Role.of text, j.pending with
  | .skipped, pending => .ok (none, ⟨j.read + 1, pending⟩)
  | .continuation, none => .error (strayFault text (j.read + 1))
  | .continuation, some pending =>
    .ok (none, ⟨j.read + 1, some ⟨pending.text ++ text, pending.line⟩⟩)
  | .opening, pending => .ok (pending, ⟨j.read + 1, some ⟨text, j.read + 1⟩⟩)

/-- What is done with the physical lines when they are taken, and with the joined lines. -/
structure Client (m : Type → Type) where
  take : String → m Unit
  give : JoinedLine → m Unit
  fail : Fault → m Unit

section Run

variable {m : Type → Type} [Monad m] (client : Client m)

def giveOut : Option JoinedLine → m Unit
  | none => pure ()
  | some line => client.give line

/-- Takes the physical lines one after another. A line that is complete is given out before the next
one is taken. -/
def run (j : Joining) : List String → m Unit
  | [] => giveOut client j.pending
  | text :: rest => do
    client.take text
    match j.step text with
    | .error fault => client.fail fault
    | .ok (complete, next) => do
      giveOut client complete
      run next rest

end Run

inductive Event where
  | taken (text : String)
  | given (line : JoinedLine)
  deriving DecidableEq, Repr

def Event.taken? : Event → Option String
  | taken text => some text
  | given _ => none

/-- The joined lines that are given out, each with the number of physical lines taken by then. -/
def timed (taken : Nat) : List Event → List Completion
  | [] => []
  | .taken _ :: events => timed (taken + 1) events
  | .given line :: events => ⟨line, taken⟩ :: timed taken events

def recorder : Client (Logged Event Fault) where
  take text := .tell [.taken text]
  give line := .tell [.given line]
  fail fault := .ofExcept (.error fault)

/-- What happens while the physical lines are joined, in order, and how it ends. -/
def trace (texts : List String) : Logged Event Fault Unit :=
  initial.run recorder texts

section Perform

variable {m : Type → Type} [Monad m] (client : Client m)

def Client.on : Event → m Unit
  | .taken text => client.take text
  | .given line => client.give line

def Client.perform (record : Logged Event Fault Unit) : m Unit := do
  record.log.forM client.on
  match record.result with
  | .ok () => pure ()
  | .error fault => client.fail fault

variable [LawfulMonad m]

theorem perform_ok : client.perform (.ok ()) = pure () :=
  pure_bind () _

theorem perform_error (fault : Fault) :
    client.perform (.ofExcept (.error fault)) = client.fail fault :=
  pure_bind () _

theorem perform_tell_bind (event : Event) (next : Unit → Logged Event Fault Unit) :
    client.perform (.tell [event] >>= next) =
      client.on event >>= fun _ => client.perform (next ()) := by
  change (client.on event >>= fun _ => (next ()).log.forM client.on) >>= _ = _
  exact bind_assoc _ _ _

theorem run_eq_perform (j : Joining) (texts : List String) :
    j.run client texts = client.perform (j.run recorder texts) := by
  induction texts generalizing j with
  | nil =>
    rw [run, run]
    cases j.pending with
    | none => exact (perform_ok client).symm
    | some line =>
      have h := perform_tell_bind client (.given line) Logged.ok
      rw [perform_ok] at h
      exact (bind_pure _).symm.trans h.symm
  | cons text rest ih =>
    rw [run, run]
    refine Eq.trans ?_ (perform_tell_bind client (.taken text) _).symm
    refine congrArg _ (funext fun _ => ?_)
    cases j.step text with
    | error fault => exact (perform_error client fault).symm
    | ok found =>
      obtain ⟨complete, next⟩ := found
      cases complete with
      | none =>
        change (pure () >>= fun _ => next.run client rest) = client.perform (next.run recorder rest)
        rw [pure_bind, ih]
      | some line =>
        have hgiven := perform_tell_bind client (.given line) fun _ => next.run recorder rest
        rw [← ih] at hgiven
        exact hgiven.symm

end Perform

section Record

variable {read : Nat} {pending : Option JoinedLine} {text : String} {rest : List String}

theorem step_skipped (h : Role.of text = .skipped) :
    step ⟨read, pending⟩ text = .ok (none, ⟨read + 1, pending⟩) := by
  rw [step, h]

theorem step_stray (h : Role.of text = .continuation) :
    step ⟨read, none⟩ text = .error (strayFault text (read + 1)) := by
  rw [step, h]

theorem step_continued (h : Role.of text = .continuation) (line : JoinedLine) :
    step ⟨read, some line⟩ text =
      .ok (none, ⟨read + 1, some ⟨line.text ++ text, line.line⟩⟩) := by
  rw [step, h]

theorem step_opening (h : Role.of text = .opening) :
    step ⟨read, pending⟩ text = .ok (pending, ⟨read + 1, some ⟨text, read + 1⟩⟩) := by
  rw [step, h]

theorem run_recorder_cons {j next : Joining} {complete : Option JoinedLine} {events : List Event}
    {result : Except Fault Unit} (hstep : j.step text = .ok (complete, next))
    (hrest : next.run recorder rest = ⟨events, result⟩) :
    j.run recorder (text :: rest) =
      ⟨.taken text :: (complete.toList.map .given ++ events), result⟩ := by
  rw [run, hstep]
  change (Logged.tell [.taken text] >>= fun _ =>
    giveOut recorder complete >>= fun _ => next.run recorder rest) = _
  rw [hrest]
  cases complete <;> rfl

/-- The record of a joining that does not fail: the physical lines are taken in order, and each
joined line is given out when it is complete. -/
theorem exists_events_of_joinFrom {texts : List String} {given : List Completion}
    (h : joinFrom read pending texts = .ok given) :
    ∃ events, run recorder ⟨read, pending⟩ texts = ⟨events, .ok ()⟩ ∧
      events.filterMap Event.taken? = texts ∧ timed read events = given := by
  induction texts generalizing read pending given with
  | nil =>
    cases pending with
    | none =>
      cases h
      exact ⟨[], rfl, rfl, rfl⟩
    | some line =>
      cases h
      exact ⟨[.given line], rfl, rfl, rfl⟩
  | cons text rest ih =>
    cases hrole : Role.of text with
    | skipped =>
      rw [joinFrom_skipped _ _ hrole] at h
      obtain ⟨events, hrest, htaken, htimed⟩ := ih h
      exact ⟨_, run_recorder_cons (step_skipped hrole) hrest, congrArg (text :: ·) htaken, htimed⟩
    | continuation =>
      cases pending with
      | none =>
        rw [joinFrom_stray _ _ hrole] at h
        cases h
      | some line =>
        rw [joinFrom_continued _ _ _ hrole] at h
        obtain ⟨events, hrest, htaken, htimed⟩ := ih h
        exact ⟨_, run_recorder_cons (step_continued hrole line) hrest,
          congrArg (text :: ·) htaken, htimed⟩
    | opening =>
      cases pending with
      | none =>
        rw [joinFrom_first _ _ hrole] at h
        obtain ⟨events, hrest, htaken, htimed⟩ := ih h
        exact ⟨_, run_recorder_cons (step_opening hrole) hrest, congrArg (text :: ·) htaken, htimed⟩
      | some line =>
        -- the line held back is given out between this physical line and the next one
        rw [joinFrom_next _ _ _ hrole] at h
        obtain ⟨others, hothers, rfl⟩ := Outcome.map_eq_ok.mp h
        obtain ⟨events, hrest, htaken, htimed⟩ := ih hothers
        refine ⟨_, run_recorder_cons (step_opening hrole) hrest, congrArg (text :: ·) htaken, ?_⟩
        rw [← htimed]
        rfl

/-- The record of a joining that fails: it takes the physical lines as far as the continuation, and
gives out nothing. -/
theorem exists_run_recorder_of_stray {texts : List String} {stray : JoinedLine}
    {others : List JoinedLine} (h : keptFrom read texts = stray :: others)
    (harrow : ContinuationLine stray.text) :
    ∃ count : Nat, stray.line = read + count ∧
      run recorder ⟨read, none⟩ texts =
        ⟨(texts.take count).map .taken, .error (strayFault stray.text stray.line)⟩ := by
  induction texts generalizing read with
  | nil => cases h
  | cons text rest ih =>
    by_cases hrole : Role.of text = .skipped
    · rw [keptFrom, if_pos hrole] at h
      obtain ⟨count, hcount, hrest⟩ := ih h
      refine ⟨count + 1, ?_, run_recorder_cons (step_skipped hrole) hrest⟩
      rw [hcount]
      omega
    · rw [keptFrom_cons_of_kept hrole] at h
      obtain ⟨rfl, -⟩ := List.cons.inj h
      have hfails : step ⟨read, none⟩ text = _ :=
        step_stray (Role.of_eq_continuation_iff.mpr harrow)
      refine ⟨1, rfl, ?_⟩
      rw [run, hfails]
      rfl

end Record

/-- What happens while lines are joined. Either a continuation comes first, and when the lines as
far as it have been taken the joining fails and has given out nothing; or all lines are taken in
order, and what is given out are the completed lines at their times. -/
theorem trace_cases (texts : List String) :
    (∃ stray rest, kept texts = stray :: rest ∧ ContinuationLine stray.text ∧
      completions texts = .error (strayFault stray.text stray.line) ∧
      ∃ count : Nat, stray.line = count ∧
        trace texts =
          ⟨(texts.take count).map .taken, .error (strayFault stray.text stray.line)⟩) ∨
    ∃ groups given events, Divided (kept texts) groups ∧ completions texts = .ok given ∧
      given.map Completion.line = groups.map Group.joined ∧
      trace texts = ⟨events, .ok ()⟩ ∧ events.filterMap Event.taken? = texts ∧
      timed 0 events = given := by
  have hjoin : join texts = joinKept none (kept texts) := by
    rw [kept_eq_keptFrom, join_eq_joinKept]
  obtain ⟨groups, hdivided⟩ | ⟨stray, rest, hkept, harrow⟩ := divided_or_stray (kept texts)
  · rw [joinKept_of_divided hdivided] at hjoin
    obtain ⟨given, hgiven, hlines⟩ := Outcome.map_eq_ok.mp hjoin
    obtain ⟨events, htrace, htaken, htimed⟩ := exists_events_of_joinFrom hgiven
    exact .inr ⟨groups, given, events, hdivided, hgiven, hlines, htrace, htaken, htimed⟩
  · rw [hkept, joinKept_of_stray harrow] at hjoin
    have hfirst : keptFrom 0 texts = stray :: rest := by rw [← kept_eq_keptFrom, hkept]
    obtain ⟨count, hcount, htrace⟩ := exists_run_recorder_of_stray hfirst harrow
    refine .inl ⟨stray, rest, hkept, harrow, Outcome.map_eq_error.mp hjoin, count, ?_, htrace⟩
    rw [hcount]
    exact Int.zero_add _

theorem forM_on_eq {m : Type → Type} [Monad m] [LawfulMonad m] {client : Client m}
    (idle : ∀ text, client.take text = pure ()) (taken : Nat) (events : List Event) :
    events.forM client.on =
      ((timed taken events).map Completion.line).forM client.give := by
  induction events generalizing taken with
  | nil => rfl
  | cons event events ih =>
    cases event with
    | taken text =>
      change (client.take text >>= fun _ => events.forM client.on) = _
      rw [idle, pure_bind]
      exact ih (taken + 1)
    | given line =>
      change (client.give line >>= fun _ => events.forM client.on) = _
      rw [ih taken]
      rfl

theorem timed_map_taken (taken : Nat) (texts : List String) :
    timed taken (texts.map .taken) = [] := by
  induction texts generalizing taken with
  | nil => rfl
  | cons text texts ih => exact ih (taken + 1)

end Joining

namespace Grammar

/-- A client that reads each joined line into the grammar as soon as it is given out. -/
def reading : Joining.Client (StateT Progress (Except Fault)) where
  take _ := pure ()
  give line := fun p => (p.step line).map ((), ·)
  fail fault := fun _ => .error fault

/-- The grammar that a text defines, with each joined line read before the next physical line is
taken. -/
def readLazily (source : String) : Except Fault Grammar :=
  ((Joining.initial.run reading (Text.lines source)).run .initial).map (·.2.grammar)

theorem run_forM_reading (lines : List JoinedLine) (p : Progress) :
    (lines.forM reading.give).run p = (lines.foldlM Progress.step p).map ((), ·) := by
  induction lines generalizing p with
  | nil => rfl
  | cons line lines ih =>
    change (reading.give line >>= fun _ => lines.forM reading.give).run p = _
    rw [StateT.run_bind, List.foldlM_cons]
    change ((p.step line).map ((), ·) >>= fun found => (lines.forM reading.give).run found.2) = _
    cases p.step line with
    | error fault => rfl
    | ok next => exact ih next

theorem readLazily_eq_read (source : String) : readLazily source = read source := by
  have hread : read source =
      (JoinedLine.completions (Text.lines source)).map (·.map JoinedLine.Completion.line) >>=
        ofLines := rfl
  have hidle : ∀ text, reading.take text = pure () := fun _ => rfl
  have hlazily : readLazily source =
      ((reading.perform (Joining.trace (Text.lines source))).run .initial).map (·.2.grammar) := by
    rw [readLazily, Joining.run_eq_perform]
    rfl
  rw [hlazily, hread]
  obtain ⟨stray, rest, -, -, hfails, count, -, htrace⟩ |
    ⟨groups, given, events, -, hgiven, -, htrace, -, htimed⟩ :=
      Joining.trace_cases (Text.lines source)
  · rw [hfails, htrace]
    change (((List.map _ _).forM reading.on >>= fun _ => reading.fail _ :
      StateT Progress (Except Fault) Unit).run _).map _ = _
    rw [Joining.forM_on_eq hidle 0, Joining.timed_map_taken]
    rfl
  · rw [hgiven, htrace]
    change ((events.forM reading.on >>= fun _ => pure () :
      StateT Progress (Except Fault) Unit).run _).map _ =
        ((given.map JoinedLine.Completion.line).foldlM Progress.step .initial).map _
    rw [bind_pure, Joining.forM_on_eq hidle 0, htimed, run_forM_reading]
    cases (given.map JoinedLine.Completion.line).foldlM Progress.step .initial <;> rfl

end Grammar

namespace JoinedLine

/-- Joining is the lazy segmentation of the lines that count. If a continuation comes first, the
joining fails when the lines as far as it have been taken, and has given out nothing. Otherwise it
does not fail, and all lines are taken: they are divided into groups in one way, and what is given
out are the groups in order, each when the physical lines up to the head of the next group have been
taken, and the last when all have been. Hence a grammar that is read while its lines are joined is
the one that is read afterwards. -/
theorem joining_is_lazy_segmentation :
    (∀ texts : List String,
      (∃ stray rest, kept texts = stray :: rest ∧ ContinuationLine stray.text ∧
        completions texts = .error (strayFault stray.text stray.line) ∧
        ∃ count : Nat, stray.line = count ∧
          Joining.trace texts =
            ⟨(texts.take count).map .taken, .error (strayFault stray.text stray.line)⟩) ∨
      ∃ groups given events, Divided (kept texts) groups ∧
        (∀ other, Divided (kept texts) other → other = groups) ∧
        completions texts = .ok given ∧ Joining.trace texts = ⟨events, .ok ()⟩ ∧
        events.filterMap Joining.Event.taken? = texts ∧ Joining.timed 0 events = given ∧
        given.map Completion.line = groups.map Group.joined ∧
        given.map (fun completion => (completion.consumed : Int)) =
          (groups.map (fun group => group.head.line) ++ [(texts.length : Int)]).tail) ∧
    ∀ source : String, Grammar.readLazily source = Grammar.read source := by
  refine ⟨fun texts => ?_, Grammar.readLazily_eq_read⟩
  obtain hstray | ⟨groups, given, events, hdivided, hgiven, hlines, htrace, htaken, htimed⟩ :=
    Joining.trace_cases texts
  · exact .inl hstray
  · exact .inr ⟨groups, given, events, hdivided, fun _ => hdivided.unique, hgiven, htrace, htaken,
      htimed, hlines, consumed_of_divided hdivided hgiven⟩

end JoinedLine

end CommandGrammar

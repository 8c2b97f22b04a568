import WhereClause.Command.Program
import WhereClause.Proofs.Command.Written
import WhereClause.Proofs.Json.Blanks
import WhereClause.Proofs.Trace.Document

/-!
# Printed traces

What the program prints for a trace is the document of the recorded events in one of two layouts,
and a new line.  Each layout is read as this document, and the events are read from the document, so
what is printed tells the events and nothing else (`printed_trace_tells_events`): the layouts differ
in blanks that mean nothing, and other events are printed differently.
-/

namespace WhereClause

/-! ## Layouts of a trace -/

/-- The trace that a JSON text tells. -/
def Trace.ofText? (text : String) : Option Trace := do
  Trace.ofJson? (← Json.read? Command.nestingLimit text)

namespace Trace

variable {events : Trace} {text : String}

/-- Either layout of the document of a trace is read as this document. -/
lemma read?_of_isWrittenAs (h : events.toJson.IsWrittenAs text) :
    Json.read? Command.nestingLimit text = some events.toJson := by
  have hnesting : events.toJson.nesting ≤ Command.nestingLimit :=
    events.nesting_toJson_le.trans (by decide)
  rcases h with rfl | rfl
  · rw [Json.read?_compact _ events.numberFree_toJson, if_pos hnesting]
  · rw [Json.read?_indented _ events.numberFree_toJson, if_pos hnesting]

/-- The events are recovered from either layout. -/
lemma ofText?_of_isWrittenAs (h : events.toJson.IsWrittenAs text) : ofText? text = some events := by
  rw [ofText?, read?_of_isWrittenAs h]
  exact ofJson?_toJson events

/-- Without the blanks outside quotes either layout is the one without blanks. -/
lemma withoutBlanks_of_isWrittenAs (h : events.toJson.IsWrittenAs text) :
    Json.withoutBlanks text = events.toJson.compact := by
  rcases h with rfl | rfl
  · exact Json.withoutBlanks_compact events.numberFree_toJson
  · exact Json.withoutBlanks_indented events.numberFree_toJson

end Trace

/-- A value has the layout that is asked for. -/
lemma Json.isWrittenAs_ite (v : Json) (pretty : Bool) :
    v.IsWrittenAs (if pretty then v.indented else v.compact) := by
  cases pretty
  · exact .inl rfl
  · exact .inr rfl

/-! ## Runs -/

/-- A run ends with code zero only if there is an answer. -/
lemma Outcome.exists_of_exit_eq_zero {answer : Except CommandError String}
    (h : (ofAnswer answer).exit = 0) : ∃ text, answer = .ok text := by
  cases answer with
  | error e => exact absurd h (by simp [ofAnswer])
  | ok text => exact ⟨text, rfl⟩

namespace Program

/-- What is recorded of the walk that is asked for. -/
def recorded (request : WalkRequest) (stdin : Option ByteArray) : Except CommandError Trace := do
  Command.walkInput (Trace.record none) #[] (← inputOf request stdin) request.maxDepth

/-- The program records the walk through its input. -/
lemma recorded_eq_ok_iff {request : WalkRequest} {stdin : Option ByteArray} {events : Trace} :
    recorded request stdin = .ok events ↔ ∃ input, inputOf request stdin = .ok input ∧
      Command.walkInput (Trace.record none) #[] input request.maxDepth = .ok events := by
  constructor
  · intro h
    exact exists_of_bind_eq_ok h
  · rintro ⟨input, hinput, h⟩
    rw [recorded, hinput]
    exact h

variable {arguments : List String} {environment : Option String} {stdin : Option ByteArray}
  {request : WalkRequest} {pretty : Bool}

/-- What is printed for a trace is what was recorded, in the layout that is asked for. -/
lemma run_eq_ofAnswer
    (h : Invocation.ofArguments? environment arguments = some (.trace request pretty)) :
    run arguments environment stdin = Outcome.ofAnswer do
      let events ← recorded request stdin
      return if pretty then events.toJson.indented else events.toJson.compact := by
  rw [run, h]
  dsimp only [execute, recorded, Command.trace]
  rcases inputOf request stdin with e | input
  · rfl
  · dsimp only [bind, Except.bind]
    rcases Command.walkInput (Trace.record none) #[] input request.maxDepth with e | events <;> rfl

/-- Where a walk was recorded, the events are printed in the layout that is asked for. -/
lemma run_of_recorded
    (h : Invocation.ofArguments? environment arguments = some (.trace request pretty))
    {events : Trace} (hrecorded : recorded request stdin = .ok events) :
    ∃ text, events.toJson.IsWrittenAs text ∧
      run arguments environment stdin = ⟨0, text ++ "\n", ""⟩ := by
  refine ⟨_, events.toJson.isWrittenAs_ite pretty, ?_⟩
  rw [run_eq_ofAnswer h, hrecorded]
  rfl

/-- A trace is printed only where a walk was recorded. -/
lemma exists_recorded_of_exit_eq_zero
    (h : Invocation.ofArguments? environment arguments = some (.trace request pretty))
    (hexit : (run arguments environment stdin).exit = 0) :
    ∃ events, recorded request stdin = .ok events := by
  rw [run_eq_ofAnswer h] at hexit
  obtain ⟨text, hanswer⟩ := Outcome.exists_of_exit_eq_zero hexit
  obtain ⟨events, hrecorded, -⟩ := exists_of_bind_eq_ok hanswer
  exact ⟨events, hrecorded⟩

end Program

/-- A printed trace carries exactly the recorded events.  If the program is asked for a trace and
succeeds, then it prints a text and a new line.  The text is read as the document of the events that
were recorded of the walk, which is the document of the trace command, and the events are recovered
from it, each with its hook and its operands, where an absent column differs from every text.
Without the blanks outside quotes only the layout without blanks is left, and so it is in the other
layout.  A run that prints the same, whatever it is given, recorded the same events. -/
theorem printed_trace_tells_events {arguments : List String} {environment : Option String}
    {stdin : Option ByteArray} {request : WalkRequest} {pretty : Bool}
    (h : Invocation.ofArguments? environment arguments = some (.trace request pretty))
    (hexit : (Program.run arguments environment stdin).exit = 0) :
    ∃ input events text,
      Program.inputOf request stdin = .ok input ∧
      Command.walkInput (Trace.record none) #[] input request.maxDepth = .ok events ∧
      Command.trace input request.maxDepth = .ok events.toJson ∧
      Program.run arguments environment stdin = ⟨0, text ++ "\n", ""⟩ ∧
      Json.read? Command.nestingLimit text = some events.toJson ∧
      Trace.ofText? text = some events ∧
      Json.withoutBlanks text = events.toJson.compact ∧
      (∀ arguments' environment' pretty',
        Invocation.ofArguments? environment' arguments' = some (.trace request pretty') →
        ∃ text', Program.run arguments' environment' stdin = ⟨0, text' ++ "\n", ""⟩ ∧
          Json.withoutBlanks text' = Json.withoutBlanks text) ∧
      ∀ arguments' environment' stdin' request' pretty' events',
        Invocation.ofArguments? environment' arguments' = some (.trace request' pretty') →
        Program.recorded request' stdin' = .ok events' →
        (Program.run arguments' environment' stdin').stdout = text ++ "\n" →
        events' = events := by
  obtain ⟨events, hrecorded⟩ := Program.exists_recorded_of_exit_eq_zero h hexit
  obtain ⟨input, hinput, hwalk⟩ := Program.recorded_eq_ok_iff.mp hrecorded
  obtain ⟨text, htext, hrun⟩ := Program.run_of_recorded h hrecorded
  have htrace : Command.trace input request.maxDepth = .ok events.toJson := by
    rw [Command.trace, hwalk]
    rfl
  have hrecovered := Trace.ofText?_of_isWrittenAs htext
  have hblanks := Trace.withoutBlanks_of_isWrittenAs htext
  refine ⟨input, events, text, hinput, hwalk, htrace, hrun, Trace.read?_of_isWrittenAs htext,
    hrecovered, hblanks, ?_, ?_⟩
  · intro arguments' environment' pretty' h'
    obtain ⟨text', htext', hrun'⟩ := Program.run_of_recorded h' hrecorded
    exact ⟨text', hrun', (Trace.withoutBlanks_of_isWrittenAs htext').trans hblanks.symm⟩
  · intro arguments' environment' stdin' request' pretty' events' h' hrecorded' hsame
    obtain ⟨text', htext', hrun'⟩ := Program.run_of_recorded h' hrecorded'
    rw [hrun'] at hsame
    obtain rfl := (String.append_left_inj "\n").mp hsame
    exact Option.some.inj ((Trace.ofText?_of_isWrittenAs htext').symm.trans hrecovered)

/-- A function whose only argument has the text `null` is called with an absent column and this
text.  The trace on indented lines tells the two apart, the other layout has the same characters
outside blanks, and a run with a limit of levels that prints the same recorded the same. -/
theorem printed_trace_tells_events_of_absent_column :
    let input :=
      "\x7b\"tag\":\"CONTAINS\",\"children\":[\x7b\"tag\":\"ID\",\"text\":\"null\"\x7d]\x7d"
    let request : WalkRequest := ⟨some input, none⟩
    let limited : WalkRequest := ⟨some input, some 7⟩
    let events : Trace :=
      #[⟨.start, [some "CONTAINS"]⟩, ⟨.function .contains, [none, some "null"]⟩, ⟨.stop, []⟩]
    let run := Program.run ["trace", "-p", "-i", input] none none
    Invocation.ofArguments? none ["trace", "-p", "-i", input] = some (.trace request true) ∧
      Invocation.ofArguments? none ["trace", "-i", input] = some (.trace request false) ∧
      Invocation.ofArguments? (some "7") ["trace", "-pi", input] = some (.trace limited true) ∧
      run.exit = 0 ∧
      Program.recorded limited none = .ok events ∧
      (Program.run ["trace", "-pi", input] (some "7") none).stdout = run.stdout ∧
      ∃ text, run = ⟨0, text ++ "\n", ""⟩ ∧ Trace.ofText? text = some events ∧
        ∃ text', Program.run ["trace", "-i", input] none none = ⟨0, text' ++ "\n", ""⟩ ∧
          Json.withoutBlanks text' = Json.withoutBlanks text := by
  intro input request limited events run
  have hpretty : Invocation.ofArguments? none ["trace", "-p", "-i", input] =
      some (.trace request true) := by decide +kernel
  have hcompact : Invocation.ofArguments? none ["trace", "-i", input] =
      some (.trace request false) := by decide +kernel
  have hlimited : Invocation.ofArguments? (some "7") ["trace", "-pi", input] =
      some (.trace limited true) := by decide +kernel
  have hrequest : Program.recorded request none = .ok events := by decide +kernel
  have hrecorded : Program.recorded limited none = .ok events := by decide +kernel
  have hexit : run.exit = 0 := by
    rw [show run = _ from Program.run_eq_ofAnswer hpretty, hrequest]
    rfl
  have hsame : (Program.run ["trace", "-pi", input] (some "7") none).stdout = run.stdout := by
    rw [show run = _ from Program.run_eq_ofAnswer hpretty, Program.run_eq_ofAnswer hlimited,
      hrequest, hrecorded]
  obtain ⟨-, found, text, -, -, -, hrun, -, htext, -, hlayout, hother⟩ :=
    printed_trace_tells_events hpretty hexit
  have hstdout : run.stdout = text ++ "\n" := congrArg Outcome.stdout hrun
  obtain rfl := hother _ _ _ _ _ _ hlimited hrecorded (hsame.trans hstdout)
  exact ⟨hpretty, hcompact, hlimited, hexit, hrecorded, hsame, text, hrun, htext,
    hlayout _ _ _ hcompact⟩

end WhereClause

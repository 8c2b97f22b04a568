/-!
# Arguments of the program

An invocation is what the arguments of the program ask for. An option may have its value attached or
as the next argument, letters without a value may be written together, and an option may occur once
only.
-/

namespace WhereClause

/-- What a walk through a clause is asked to do: where the input comes from, and how deep it may
be. -/
structure WalkRequest where
  /-- The input, if it is given as an argument. -/
  input : Option String
  maxDepth : Option Nat
deriving DecidableEq, Repr

/-- What the program is asked to do. -/
inductive Invocation
  | version
  | tags
  | trace (request : WalkRequest) (pretty : Bool)
  | sql (request : WalkRequest)
deriving DecidableEq, Repr

namespace Invocation

/-! ### Options -/

/-- An option that occurs among the arguments. -/
inductive Occurrence
  | input (value : String)
  | maxDepth (value : String)
  | pretty
deriving DecidableEq, Repr

/-- The value of an input option. -/
def Occurrence.input? : Occurrence → Option String
  | input value => some value
  | _ => none

/-- The value of a depth option. -/
def Occurrence.maxDepth? : Occurrence → Option String
  | maxDepth value => some value
  | _ => none

/-- What an argument of options says by itself. -/
inductive Reading
  | complete (occurrences : List Occurrence)
  /-- The next argument is the value of the last option. -/
  | incomplete (occurrences : List Occurrence) (last : String → Occurrence)

/-- Puts an option in front of what the rest of an argument says. -/
def Reading.cons (o : Occurrence) : Reading → Reading
  | complete os => complete (o :: os)
  | incomplete os last => incomplete (o :: os) last

/-- Reads the letters after a single dash. A value may follow its letter, after an equals sign or
without one. -/
def readLetters (withPretty : Bool) : List Char → Option Reading
  | [] => some (.complete [])
  | ['i'] => some (.incomplete [] .input)
  | 'i' :: '=' :: value => some (.complete [.input (String.ofList value)])
  | 'i' :: value => some (.complete [.input (String.ofList value)])
  | 'p' :: letters =>
    if withPretty then (readLetters withPretty letters).map (.cons .pretty) else none
  | _ => none

/-- Reads the word after two dashes, up to an equals sign, with the value after the sign if there is
one. -/
def readWord (withPretty : Bool) (word : String) (value : Option String) : Option Reading :=
  match word, value with
  | "input", some value => some (.complete [.input value])
  | "input", none => some (.incomplete [] .input)
  | "max-depth", some value => some (.complete [.maxDepth value])
  | "max-depth", none => some (.incomplete [] .maxDepth)
  | "pretty", none => if withPretty then some (.complete [.pretty]) else none
  | _, _ => none

/-- The part of a text before the first equals sign, and the part after it if there is one. -/
def splitAtEquals (cs : List Char) : String × Option String :=
  let word := String.ofList (cs.takeWhile (· ≠ '='))
  match cs.dropWhile (· ≠ '=') with
  | [] => (word, none)
  | _ :: value => (word, some (String.ofList value))

/-- Reads an argument that begins with a dash. -/
def readOption (withPretty : Bool) : List Char → Option Reading
  | '-' :: '-' :: cs =>
    let (word, value) := splitAtEquals cs
    readWord withPretty word value
  | '-' :: c :: cs => readLetters withPretty (c :: cs)
  | _ => none

/-- The argument can be the value of an option before it: it begins with no dash, or is one. -/
def IsValue (argument : String) : Prop :=
  argument = "-" ∨ argument.toList.head? ≠ some '-'

instance (argument : String) : Decidable (IsValue argument) :=
  inferInstanceAs (Decidable (_ ∨ _))

/-- The options among the arguments of a command. Nothing else may be among them, but two dashes may
end them. -/
def occurrences? (withPretty : Bool) : List String → Option (List Occurrence)
  | [] => some []
  | ["--"] => some []
  | argument :: rest =>
    match readOption withPretty argument.toList with
    | none => none
    | some (.complete os) => (occurrences? withPretty rest).map (os ++ ·)
    | some (.incomplete os last) =>
      match rest with
      | [] => none
      | value :: rest =>
        if IsValue value then (occurrences? withPretty rest).map (os ++ last value :: ·) else none

/-! ### Values -/

/-- What occurs at most once. -/
def atMostOnce? {α : Type} : List α → Option (Option α)
  | [] => some none
  | [a] => some (some a)
  | _ => none

/-- A natural number of 64 bits, perhaps with a plus in front. -/
def readDepth? (text : String) : Option Nat :=
  let digits :=
    match text.toList with
    | '+' :: cs => cs
    | cs => cs
  let n := Nat.ofDigitChars 10 digits 0
  if digits ≠ [] ∧ digits.all Char.isDigit ∧ n < UInt64.size then some n else none

/-- What a walk is asked to do, given the options and the depth that the environment sets, which
counts only where no option does. -/
def walkRequest? (environment : Option String) (os : List Occurrence) : Option WalkRequest := do
  let input ← atMostOnce? (os.filterMap Occurrence.input?)
  let depth ← atMostOnce? (os.filterMap Occurrence.maxDepth?)
  match depth.or environment with
  | none => return ⟨input, none⟩
  | some text => return ⟨input, some (← readDepth? text)⟩

/-! ### Commands -/

/-- The arguments ask for the version at once, before anything else. -/
def AsksVersion (argument : String) : Prop :=
  argument = "--version" ∨ argument.toList.take 2 = ['-', 'V']

instance (argument : String) : Decidable (AsksVersion argument) :=
  inferInstanceAs (Decidable (_ ∨ _))

/-- What the arguments ask for, given the depth that the environment sets. -/
def ofArguments? (environment : Option String) : List String → Option Invocation
  | ["tags"] | ["tags", "--"] => some tags
  | "trace" :: arguments => do
    let os ← occurrences? true arguments
    let request ← walkRequest? environment os
    let pretty ← atMostOnce? (os.filter (· = .pretty))
    return trace request pretty.isSome
  | "sql" :: arguments => do
    let os ← occurrences? false arguments
    return sql (← walkRequest? environment os)
  | argument :: _ => if AsksVersion argument then some version else none
  | [] => none

/-- The program has to read its standard input. -/
def ReadsInput : Invocation → Prop
  | trace request _ | sql request => request.input = none
  | _ => False

instance : (i : Invocation) → Decidable i.ReadsInput
  | version | tags => isFalse id
  | trace request _ | sql request => inferInstanceAs (Decidable (request.input = none))

end Invocation

end WhereClause

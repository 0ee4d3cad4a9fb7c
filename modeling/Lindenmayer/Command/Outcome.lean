import Lindenmayer.Command.Invocation
import Lindenmayer.Definition.Document
import Lindenmayer.Generation

/-!
# Outcomes

What comes of an invocation: whether it succeeded, a product for the standard output or
for a file, and the lines for the standard error. The lines are in the order in which
things happen: the journal's first word, its settings if they are wanted, what it hears on
the way, and what the task itself has to say.
-/

namespace Lindenmayer.Command

/-- What a task makes. -/
inductive Product where
  | text (content : String)
  | drawing (content : Json)

/-- The product as it is written to a file. -/
def Product.content : Product → String
  | text content => content
  | drawing content => content.indented

/-- What comes of an invocation. -/
structure Outcome where
  success : Bool
  product? : Option Product := none
  /-- The file that the product is for; without one it is for the standard output. -/
  destination? : Option String := none
  /-- What goes to the standard error, a line break after each. -/
  notes : List String := []

namespace Outcome

/-- What goes to the standard output. -/
def output (outcome : Outcome) : String :=
  match outcome.product?, outcome.destination? with
  | some (.text content), none => content
  | some (.drawing content), none => content.indented ++ "\n"
  | _, _ => ""

/-- The outcome with notes before its own. -/
def following (before : List String) (outcome : Outcome) : Outcome :=
  { outcome with notes := before ++ outcome.notes }

/-- The task failed before it began. -/
def failed (kind : String) : Outcome := { success := false, notes := ["Error: " ++ kind] }

/-- The outcome if its file cannot be written. -/
def unwritten (outcome : Outcome) (reason : String) : Outcome :=
  (failed ("Os " ++ reason)).following outcome.notes

end Outcome

/-- A configuration error with its fields, as it ends the program. -/
def recordText : ConfigError → String
  | .unreadable path reason =>
      "Unreadable \x7b path: " ++ Json.quote path ++ ", message: " ++ Json.quote reason ++ " \x7d"
  | .invalidDefinition reason =>
      "InvalidDefinition \x7b message: " ++ Json.quote reason ++ " \x7d"
  | .invalidParameter error =>
      "InvalidParameter \x7b name: " ++ Json.quote error.field ++ ", reason: " ++
        Json.quote error.reason ++ " \x7d"

/-- The line on a rule: that it is valid, or why it is not. -/
def reportLine (report : RuleReport) : String :=
  match report.error? with
  | none => "valid    " ++ report.text
  | some error =>
      "invalid  " ++ report.text ++ "  [" ++ error.code.text ++ "] " ++ error.message

/-- What the journal's console shows of events. -/
def heard (preferences : Preferences) (events : List Event) : List String :=
  (preferences.service.logAll events).consoleLines

/-- The last event of a run that failed. -/
def failureEvent (error : GenerationError) : Event :=
  (Event.error error.code "Generation failed").entered [("error", error.message)]

/-- The outcome of a run: what it made, or its error. -/
def outcomeOf {α : Type} (preferences : Preferences) (run : Run GenerationError α)
    (finish : α → Outcome) : Outcome :=
  match run.outcome with
  | .ok value => (finish value).following (heard preferences run.events)
  | .error error =>
      { success := false
        notes := heard preferences (run.events ++ [failureEvent error]) ++
          ["error[" ++ error.code.text ++ "]: " ++ error.message] }

/-- The definition file with the settings put over it, or the defaults with them. -/
def GrammarOptions.definition (options : GrammarOptions)
    (load : String → Except String String) : Except ConfigError Definition := do
  let definition ←
    match options.definition? with
    | none => pure {}
    | some path =>
        match load path with
        | .ok text => Definition.read text
        | .error reason => throw (.unreadable path reason)
  return { definition with grammar := options.override definition.grammar }

/-- The definition with the settings of the turtle put over it. -/
def TurtleOptions.apply (options : TurtleOptions) (definition : Definition) :
    Except ConfigError Definition := do
  let definition := { definition with turtle := options.override definition.turtle }
  definition.validate
  return definition

/-- Judge rules, each with probability one. -/
def validateRules (preferences : Preferences) (rules : List String) (alphabet : Alphabet) :
    Outcome :=
  let ruleSet : RuleSet := ⟨alphabet, (rules.map fun text => { text }).toArray⟩
  let compiled := ruleSet.compile
  { success := compiled.allValid
    product? := some (.text (String.join (compiled.reports.map fun report =>
      reportLine report ++ "\n")))
    notes := heard preferences (Journal.compiling ruleSet compiled) }

/-- Expand the start word; rules that are refused are noted last. -/
def expandWord (preferences : Preferences) (definition : Definition) : Outcome :=
  outcomeOf preferences (definition.expand preferences) fun expansion =>
    { success := true
      product? := some (.text (expansion.word.text ++ "\n"))
      notes := (expansion.reports.filter fun report => !report.isValid).map reportLine }

/-- Make the drawing of a definition. -/
def draw (preferences : Preferences) (definition : Definition) (format : DrawingFormat)
    (destination? : Option String) : Outcome :=
  let drawing (content : Json) : Outcome :=
    { success := true, product? := some (.drawing content), destination? }
  match format with
  | .skeleton =>
      outcomeOf preferences (definition.skeleton preferences) fun made => drawing made.1.json
  | .events =>
      outcomeOf preferences (definition.curveEvents preferences) fun made =>
        drawing (CurveEvent.jsonAll made.1)

/-- Do the task; `load` reads a file or says why it cannot. -/
def Task.run (task : Task) (preferences : Preferences)
    (load : String → Except String String) : Outcome :=
  match task with
  | .validate rules alphabet => validateRules preferences rules alphabet
  | .expand grammar =>
      match grammar.definition load with
      | .ok definition => expandWord preferences definition
      | .error error => .failed (recordText error)
  | .generate grammar turtle format output? =>
      match grammar.definition load >>= turtle.apply with
      | .ok definition => draw preferences definition format output?
      | .error error => .failed (recordText error)

/-- What is entered in the journal first. -/
def startedEvent : Event := .success .startupComplete "Global logging system initialized"

/-- Do what is asked. -/
def Invocation.run (invocation : Invocation) (preferences : Preferences)
    (load : String → Except String String) : Outcome :=
  let opening := heard preferences [startedEvent]
  let settings := if invocation.diagnostics then [preferences.diagnostics] else []
  (invocation.task.run preferences load).following (opening ++ settings)

/-- The file that the invocation reads. -/
def Invocation.source? (invocation : Invocation) : Option String :=
  match invocation.task with
  | .validate _ _ => none
  | .expand grammar => grammar.definition?
  | .generate grammar _ _ _ => grammar.definition?

end Lindenmayer.Command

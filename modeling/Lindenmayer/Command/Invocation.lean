import Lindenmayer.Command.Options

/-!
# Invocations

A command line as a whole: flags that may stand before the verb, the verb, and what
belongs to it. The answer is a task, or a reason to stop before any work is done.
-/

namespace Lindenmayer.Command

/-- What is to be done. -/
inductive Task where
  /-- Judge each rule, with pitch and roll allowed or not. -/
  | validate (rules : List String) (alphabet : Alphabet)
  | expand (grammar : GrammarOptions)
  /-- Make a drawing, for a file or for the standard output. -/
  | generate (grammar : GrammarOptions) (turtle : TurtleOptions) (format : DrawingFormat)
      (output? : Option String)

/-- A task, and whether the journal is to say what it is set to. -/
structure Invocation where
  diagnostics : Bool
  task : Task

/-- The argument can only be a flag. -/
def looksLikeFlag (argument : String) : Bool :=
  match Argument.ofString argument with
  | .plain _ => false
  | .escape | .long _ _ | .letters _ => true

/-- The task of a verb with options. -/
def Verb.task (verb : Verb) (options : Options) : Except Stop Task :=
  match verb with
  | .validate =>
      if options.operands.isEmpty then .error (.usage .missingOperand)
      else .ok (.validate options.operands (if options.extended then .extended else .strict))
  | .expand => .ok (.expand options.grammar)
  | .generate =>
      .ok (.generate options.grammar options.turtle (options.format?.getD .skeleton)
        options.output?)

/-- The page that `help` and the words after it ask for. -/
def helpPage : List String → Stop
  | [] => .help none
  | word :: rest =>
      match Verb.ofName? word with
      | some verb =>
          match rest with
          | [] => .help (some verb)
          | next :: _ => .usage (.unknownVerb next)
      | none =>
          match word, rest with
          | "help", [] => .help none
          | "help", next :: _ => .usage (.unknownVerb next)
          | _, _ => .usage (.unknownVerb word)

/-- Read a command line. The general flags count before the verb and after it alike. -/
def Invocation.read (arguments : List String) : Except Stop Invocation := do
  let before := arguments.takeWhile looksLikeFlag
  let general ← Options.takeAll none {} (Pieces.ofArguments Flag.general none before)
  match arguments.dropWhile looksLikeFlag with
  | [] => .error (.usage .missingVerb)
  | word :: rest =>
      if before.contains "--" then .error (.usage (.unexpectedOperand word))
      else if word = "help" then .error (helpPage rest)
      else
        match Verb.ofName? word with
        | none => .error (.usage (.unknownVerb word))
        | some verb =>
            let options ← Options.takeAll (some verb) {} (Pieces.ofArguments verb.flags none rest)
            return {
              diagnostics := general.diagnostics || options.diagnostics
              task := ← verb.task options }

end Lindenmayer.Command

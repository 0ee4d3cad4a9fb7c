/-!
# Flags

The verbs of the command line, and the flags that go with each: switches, which are there
or not, and settings, which take a value. A flag is written `--long`, and some also `-c`.
A list of arguments is cut into pieces by the flags of its verb alone; what a piece means
is decided afterwards, piece by piece, so that the first thing wrong is the one reported.
-/

namespace Lindenmayer.Command

/-- What the program can be asked to do. -/
inductive Verb where
  | validate
  | expand
  | generate
deriving DecidableEq

/-- A flag without a value. -/
inductive Switch where
  | help
  | version
  | diagnostics
  | extended
deriving DecidableEq

/-- A flag with a value. -/
inductive Setting where
  | definition
  | start
  | rule
  | iterations
  | seed
  | baseLength
  | angle
  | jitter
  | jitterSeed
  | format
  | output
deriving DecidableEq

/-- Either kind of flag. -/
inductive Flag where
  | switch (s : Switch)
  | setting (s : Setting)
deriving DecidableEq

namespace Verb

/-- Every verb. -/
def all : List Verb := [.validate, .expand, .generate]

/-- The word for the verb. -/
def name : Verb → String
  | validate => "validate"
  | expand => "expand"
  | generate => "generate"

/-- Read the word for a verb. -/
def ofName? (word : String) : Option Verb := all.find? fun verb => verb.name = word

/-- What the verb does. -/
def about : Verb → String
  | validate => "Check each rule independently and report its validity"
  | expand => "Print the expanded symbol sequence"
  | generate => "Run the whole pipeline and print the result as JSON"

end Verb

namespace Switch

/-- The long name, without its dashes. -/
def long : Switch → String
  | help => "help"
  | version => "version"
  | diagnostics => "diagnostics"
  | extended => "extended"

/-- The letter, without its dash. -/
def short? : Switch → Option Char
  | help => some 'h'
  | version => some 'V'
  | diagnostics | extended => none

/-- What the switch turns on. -/
def about : Switch → String
  | help => "Print help"
  | version => "Print version"
  | diagnostics => "Print logging and configuration diagnostics to stderr"
  | extended => "Accept pitch and roll symbols in rule text"

end Switch

namespace Setting

/-- The long name, without its dashes. -/
def long : Setting → String
  | definition => "definition"
  | start => "start"
  | rule => "rule"
  | iterations => "iterations"
  | seed => "seed"
  | baseLength => "base-length"
  | angle => "angle"
  | jitter => "jitter"
  | jitterSeed => "jitter-seed"
  | format => "format"
  | output => "output"

/-- The letter, without its dash. -/
def short? : Setting → Option Char
  | definition => some 'd'
  | start => some 's'
  | rule => some 'r'
  | iterations => some 'n'
  | format => some 'f'
  | output => some 'o'
  | seed | baseLength | angle | jitter | jitterSeed => none

/-- What the value sets. -/
def about : Setting → String
  | definition => "TOML definition file; flags below override its values"
  | start => "Start sequence"
  | rule => "Rule as TEXT or TEXT@PROBABILITY, repeatable"
  | iterations => "Number of expansion passes"
  | seed => "Seed for stochastic rule selection"
  | baseLength => "Length of the main stem"
  | angle => "Turning angle in radians"
  | jitter => "Jitter bound as a fraction of pi/4"
  | jitterSeed => "Seed for the jitter"
  | format => "Bezier splines (skeleton) or curve construction events (events)"
  | output => "Write to a file instead of stdout"

end Setting

namespace Flag

/-- The long name, without its dashes. -/
def long : Flag → String
  | switch s => s.long
  | setting s => s.long

/-- The letter, without its dash. -/
def short? : Flag → Option Char
  | switch s => s.short?
  | setting s => s.short?

/-- What the flag is for. -/
def about : Flag → String
  | switch s => s.about
  | setting s => s.about

/-- The flags that may stand before the verb. -/
def general : List Flag := [.switch .diagnostics, .switch .help, .switch .version]

/-- The flags of the grammar. -/
def grammar : List Flag :=
  [.setting .definition, .setting .start, .setting .rule, .setting .iterations, .setting .seed]

/-- The flags of the turtle. -/
def turtle : List Flag :=
  [.setting .baseLength, .setting .angle, .setting .jitter, .setting .jitterSeed]

/-- The flags of the drawing. -/
def drawing : List Flag := [.setting .format, .setting .output]

end Flag

/-- The flags that may follow the verb. -/
def Verb.flags : Verb → List Flag
  | validate => .switch .extended :: Flag.general
  | expand => Flag.grammar ++ Flag.general
  | generate => Flag.grammar ++ Flag.turtle ++ Flag.drawing ++ Flag.general

/-- What is wrong with a command line. -/
inductive UsageError where
  | missingVerb
  | unknownVerb (word : String)
  | unknownFlag (text : String)
  | unexpectedOperand (text : String)
  | missingOperand
  | missingValue (setting : Setting)
  | unwantedValue (switch : Switch)
  | invalidValue (setting : Setting) (reason : String)
  | repeated (flag : Flag)
deriving DecidableEq

/-- The error in words. -/
def UsageError.message : UsageError → String
  | missingVerb => "a command is required"
  | unknownVerb word => "unrecognized command '" ++ word ++ "'"
  | unknownFlag text => "unexpected flag '" ++ text ++ "'"
  | unexpectedOperand text => "unexpected argument '" ++ text ++ "'"
  | missingOperand => "at least one rule is required"
  | missingValue setting => "a value is required for '--" ++ setting.long ++ "'"
  | unwantedValue switch => "'--" ++ switch.long ++ "' takes no value"
  | invalidValue setting reason => "invalid value for '--" ++ setting.long ++ "': " ++ reason
  | repeated flag => "'--" ++ flag.long ++ "' cannot be used more than once"

/-- An argument by its look. -/
inductive Argument where
  /-- What does not begin with a dash, or is one. -/
  | plain (text : String)
  /-- Two dashes alone: nothing after them is a flag. -/
  | escape
  /-- A long name, and the value after its first `=`. -/
  | long (name : String) (value? : Option String)
  /-- Letters after one dash; a value may follow them directly. -/
  | letters (cs : List Char)

/-- The look of an argument. -/
def Argument.ofString (text : String) : Argument :=
  match text.toList with
  | ['-', '-'] => .escape
  | '-' :: '-' :: rest =>
      match rest.span (· ≠ '=') with
      | (name, []) => .long (String.ofList name) none
      | (name, _ :: value) => .long (String.ofList name) (some (String.ofList value))
  | '-' :: c :: rest => .letters (c :: rest)
  | _ => .plain text

/-- What one thing on the command line says. -/
inductive Piece where
  | switch (s : Switch)
  | setting (s : Setting) (value : String)
  | operand (text : String)
deriving DecidableEq

/-- The pieces of a list of arguments, up to the first argument that is none. -/
structure Pieces where
  list : List Piece := []
  fault? : Option UsageError := none

namespace Pieces

/-- Pieces with others before them. -/
def after (before : List Piece) (pieces : Pieces) : Pieces :=
  { pieces with list := before ++ pieces.list }

/-- No piece, for a reason. -/
def fault (error : UsageError) : Pieces := { fault? := some error }

/-- What letters after one dash leave to be read. -/
inductive Rest where
  | nothing
  /-- The setting of the last letter has its value in the next argument. -/
  | value (setting : Setting)
  | fault (error : UsageError)

/-- Read letters: those of switches, up to the letter of a setting, whose value is the rest
of them without a leading `=`. -/
def ofLetters (flags : List Flag) : List Char → List Piece × Rest
  | [] => ([], .nothing)
  | c :: rest =>
      match flags.find? fun flag => flag.short? = some c with
      | none => ([], .fault (.unknownFlag (String.ofList ['-', c])))
      | some (.switch s) =>
          let (pieces, left) := ofLetters flags rest
          (.switch s :: pieces, left)
      | some (.setting s) =>
          match rest with
          | [] => ([], .value s)
          | '=' :: value => ([.setting s (String.ofList value)], .nothing)
          | value => ([.setting s (String.ofList value)], .nothing)

/-- Cut arguments into pieces; a setting before them may still want its value. -/
def ofArguments (flags : List Flag) : (wanting? : Option Setting) → List String → Pieces
  | none, [] => {}
  | some setting, [] => fault (.missingValue setting)
  | wanting?, argument :: rest =>
      match wanting?, Argument.ofString argument with
      | some setting, .plain text => (ofArguments flags none rest).after [.setting setting text]
      | some setting, _ => fault (.missingValue setting)
      | none, .plain text => (ofArguments flags none rest).after [.operand text]
      | none, .escape => { list := rest.map .operand }
      | none, .long name value? =>
          match flags.find? (fun flag => flag.long = name), value? with
          | none, _ => fault (.unknownFlag argument)
          | some (.switch s), none => (ofArguments flags none rest).after [.switch s]
          | some (.switch s), some _ => fault (.unwantedValue s)
          | some (.setting s), none => ofArguments flags (some s) rest
          | some (.setting s), some value =>
              (ofArguments flags none rest).after [.setting s value]
      | none, .letters cs =>
          match ofLetters flags cs with
          | (pieces, .nothing) => (ofArguments flags none rest).after pieces
          | (pieces, .value s) => (ofArguments flags (some s) rest).after pieces
          | (pieces, .fault error) => (fault error).after pieces

end Pieces

end Lindenmayer.Command

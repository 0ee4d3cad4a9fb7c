import Lindenmayer.Command.Flag
import Lindenmayer.Definition
import Lindenmayer.Text.Cut

/-!
# Options

What the flags and operands of a command line say. Every setting but `--rule` may be
given once. Settings override what the definition file holds, field by field; rules
replace its rules as a whole.
-/

namespace Lindenmayer

/-- A rule argument with a probability that is no number. -/
structure RuleArgumentError where
  probability : String
  cause : Decimal.ReadError
deriving DecidableEq

/-- The error in words. -/
def RuleArgumentError.message (error : RuleArgumentError) : String :=
  "invalid probability '" ++ error.probability ++ "': " ++ error.cause.message

/-- Read a rule argument, `TEXT` or `TEXT@PROBABILITY`: `@` never occurs in a rule. -/
def RuleEntry.readArgument (argument : String) : Except RuleArgumentError RuleEntry :=
  match Text.splitLast? '@' argument.toList with
  | none => .ok { text := Text.trim argument }
  | some (text, probability) =>
      let written := String.ofList probability
      match Decimal.read (Text.trim written) with
      | .ok probability => .ok { text := Text.trim (String.ofList text), probability }
      | .error cause => .error ⟨written, cause⟩

namespace Command

/-- How a drawing is put out. -/
inductive DrawingFormat where
  | skeleton
  | events
deriving DecidableEq

/-- Read the name of a format. -/
def DrawingFormat.ofName? : String → Option DrawingFormat
  | "skeleton" => some .skeleton
  | "events" => some .events
  | _ => none

/-- Settings of the grammar. -/
structure GrammarOptions where
  /-- The path of the definition file. -/
  definition? : Option String := none
  start? : Option String := none
  rules : List RuleEntry := []
  iterations? : Option UInt32 := none
  seed? : Option UInt64 := none

/-- Settings of the turtle. -/
structure TurtleOptions where
  baseLength? : Option Float := none
  angle? : Option Float := none
  jitter? : Option Float := none
  jitterSeed? : Option UInt64 := none

/-- All that a command line can say. -/
structure Options where
  diagnostics : Bool := false
  extended : Bool := false
  operands : List String := []
  grammar : GrammarOptions := {}
  turtle : TurtleOptions := {}
  format? : Option DrawingFormat := none
  output? : Option String := none

/-- The section with the settings put over it. -/
def GrammarOptions.override (options : GrammarOptions) (grammar : GrammarSection) :
    GrammarSection where
  start := options.start?.getD grammar.start
  rules := if options.rules.isEmpty then grammar.rules else options.rules
  iterations := options.iterations?.getD grammar.iterations
  seed := options.seed?.getD grammar.seed

/-- The section with the settings put over it. -/
def TurtleOptions.override (options : TurtleOptions) (turtle : TurtleSection) :
    TurtleSection :=
  { turtle with
    baseLength := options.baseLength?.getD turtle.baseLength
    angle := options.angle?.getD turtle.angle
    jitterFraction := options.jitter?.getD turtle.jitterFraction
    jitterSeed := options.jitterSeed?.getD turtle.jitterSeed }

/-! ## Values -/

/-- Read a whole number below a bound: decimal digits, at least one. -/
def readBelow? (bound : Nat) (digits : List Char) : Option Nat :=
  if digits.isEmpty || !digits.all Char.isDigit then none
  else
    let n := Decimal.ofDigitChars digits
    if n < bound then some n else none

/-- Read a number of 32 bits; the only one that may have a minus sign is zero. -/
def readWord32? (text : String) : Option UInt32 :=
  (match text.toList with
    | '-' :: digits => readBelow? 1 digits
    | '+' :: digits => readBelow? UInt32.size digits
    | digits => readBelow? UInt32.size digits).map UInt32.ofNat

/-- Read a number of 64 bits, without a minus sign. -/
def readWord64? (text : String) : Option UInt64 :=
  (match text.toList with
    | '+' :: digits => readBelow? UInt64.size digits
    | digits => readBelow? UInt64.size digits).map UInt64.ofNat

/-- Read the path of a file, which has a name. -/
def readPath? (text : String) : Option String := if text.isEmpty then none else some text

/-- Why reading stops before there are options: a page that is asked for, or an error. -/
inductive Stop where
  /-- Help, on a verb or on all of them. -/
  | help (verb? : Option Verb)
  | version (verb? : Option Verb)
  | usage (error : UsageError)
deriving DecidableEq

/-- Take the value of a setting that has none yet. -/
def once {α : Type} (setting : Setting) (held? : Option α) (value? : Option α) :
    Except Stop (Option α) :=
  match held?, value? with
  | none, some value => .ok (some value)
  | none, none => .error (.usage (.invalidValue setting "not a value of its kind"))
  | some _, _ => .error (.usage (.repeated (.setting setting)))

/-- Turn on a switch that is off. -/
def turnOn (switch : Switch) (held : Bool) : Except Stop Bool :=
  if held then .error (.usage (.repeated (.switch switch))) else .ok true

namespace Options

/-- Take a switch. -/
def takeSwitch (verb? : Option Verb) (options : Options) : Switch → Except Stop Options
  | .help => .error (.help verb?)
  | .version => .error (.version verb?)
  | .diagnostics => do
      return { options with diagnostics := ← turnOn .diagnostics options.diagnostics }
  | .extended => do return { options with extended := ← turnOn .extended options.extended }

/-- Take a setting of the grammar, if it is one. -/
def takeGrammar (grammar : GrammarOptions) (text : String) :
    Setting → Except Stop GrammarOptions
  | .definition => do
      return { grammar with
        definition? := ← once .definition grammar.definition? (readPath? text) }
  | .start => do return { grammar with start? := ← once .start grammar.start? (some text) }
  | .rule =>
      match RuleEntry.readArgument text with
      | .ok entry => .ok { grammar with rules := grammar.rules ++ [entry] }
      | .error error => .error (.usage (.invalidValue .rule error.message))
  | .iterations => do
      return { grammar with
        iterations? := ← once .iterations grammar.iterations? (readWord32? text) }
  | .seed => do
      return { grammar with seed? := ← once .seed grammar.seed? (readWord64? text) }
  | .baseLength | .angle | .jitter | .jitterSeed | .format | .output => .ok grammar

/-- Take a setting of the turtle, if it is one. -/
def takeTurtle (turtle : TurtleOptions) (text : String) : Setting → Except Stop TurtleOptions
  | .baseLength => do
      return { turtle with
        baseLength? := ← once .baseLength turtle.baseLength? (Decimal.read text).toOption }
  | .angle => do
      return { turtle with angle? := ← once .angle turtle.angle? (Decimal.read text).toOption }
  | .jitter => do
      return { turtle with
        jitter? := ← once .jitter turtle.jitter? (Decimal.read text).toOption }
  | .jitterSeed => do
      return { turtle with
        jitterSeed? := ← once .jitterSeed turtle.jitterSeed? (readWord64? text) }
  | .definition | .start | .rule | .iterations | .seed | .format | .output => .ok turtle

/-- Take a setting. -/
def takeSetting (options : Options) (setting : Setting) (text : String) :
    Except Stop Options := do
  match setting with
  | .format =>
      return { options with
        format? := ← once .format options.format? (DrawingFormat.ofName? text) }
  | .output =>
      return { options with output? := ← once .output options.output? (readPath? text) }
  | .definition | .start | .rule | .iterations | .seed =>
      return { options with grammar := ← takeGrammar options.grammar text setting }
  | .baseLength | .angle | .jitter | .jitterSeed =>
      return { options with turtle := ← takeTurtle options.turtle text setting }

/-- Take a piece of the arguments after a verb, or of those before it. -/
def take (verb? : Option Verb) (options : Options) : Piece → Except Stop Options
  | .switch s => options.takeSwitch verb? s
  | .setting setting text => options.takeSetting setting text
  | .operand text =>
      if verb? = some .validate then .ok { options with operands := options.operands ++ [text] }
      else .error (.usage (.unexpectedOperand text))

/-- Take pieces in order, and at the end the fault that they ended with. -/
def takeAll (verb? : Option Verb) (options : Options) (pieces : Pieces) :
    Except Stop Options := do
  let options ← pieces.list.foldlM (take verb?) options
  match pieces.fault? with
  | none => return options
  | some error => .error (.usage error)

end Options

end Command

end Lindenmayer

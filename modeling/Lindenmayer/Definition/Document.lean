import Lindenmayer.Definition
import Lindenmayer.Toml.Document

/-!
# Definitions as documents

A definition is written as a TOML document with a table for each section, and read from
one. Reading leaves what is missing at its default and what is unknown aside. A section
may also be given as an array of its fields in their order; a date stands for a section
without fields.
-/

namespace Lindenmayer

open Toml (Value Statement)

namespace Definition

/-- The fields of a section, each with its place and name. -/
abbrev Fields := Nat → String → Option Value

/-- A value as a section. -/
def fields? : Value → Option Fields
  | .table entries => some fun _ name => entries.lookup name
  | .array items => some fun place _ => items[place]?
  | .moment _ => some fun _ _ => none
  | _ => none

/-- A field that may be missing. -/
def field {α : Type} (read? : Value → Option α) (missing : α) : Option Value → Option α
  | none => some missing
  | some value => read? value

/-- Read a text. -/
def text? : Value → Option String
  | .text content => some content
  | _ => none

/-- Read a whole number that is not negative and below a bound. -/
def natBelow? (bound : Nat) : Value → Option Nat
  | .integer n => if 0 ≤ n ∧ n < bound then some n.toNat else none
  | _ => none

/-- Read a number of thirty-two bits. -/
def word32? (value : Value) : Option UInt32 := (natBelow? UInt32.size value).map UInt32.ofNat

/-- Read a number of sixty-four bits. -/
def word64? (value : Value) : Option UInt64 := (natBelow? UInt64.size value).map UInt64.ofNat

/-- Read a double; a whole number stands for the nearest one. -/
def double? : Value → Option Float
  | .double x => some x
  | .integer n =>
      let magnitude := Decimal.ofDigits n.natAbs 0
      some (if n < 0 then -magnitude else magnitude)
  | _ => none

/-- Read a rule, which must have a text. -/
def rule? (value : Value) : Option RuleEntry := do
  let fields ← fields? value
  let text ← (fields 0 "rule").bind text?
  let probability ← field double? 1.0 (fields 1 "probability")
  return { text, probability }

/-- Read a list of rules. -/
def rules? : Value → Option (List RuleEntry)
  | .array items => items.mapM rule?
  | _ => none

/-- Read the grammar section. -/
def grammar? (value : Value) : Option GrammarSection := do
  let fields ← fields? value
  let missing : GrammarSection := {}
  let start ← field text? missing.start (fields 0 "start")
  let rules ← field rules? missing.rules (fields 1 "rules")
  let iterations ← field word32? missing.iterations (fields 2 "iterations")
  let seed ← field word64? missing.seed (fields 3 "rule_selection_seed")
  return { start, rules, iterations, seed }

/-- Read the turtle section. -/
def turtle? (value : Value) : Option TurtleSection := do
  let fields ← fields? value
  let missing : TurtleSection := {}
  let maybe (value : Value) : Option (Option Float) := (double? value).map some
  let baseLength ← field double? missing.baseLength (fields 0 "base_length")
  let angle ← field double? missing.angle (fields 1 "angle")
  let yaw? ← field maybe missing.yaw? (fields 2 "yaw_angle")
  let pitch? ← field maybe missing.pitch? (fields 3 "pitch_angle")
  let roll? ← field maybe missing.roll? (fields 4 "roll_angle")
  let jitterFraction ← field double? missing.jitterFraction (fields 5 "angle_jitter_fraction")
  let jitterSeed ← field word64? missing.jitterSeed (fields 6 "angle_jitter_seed")
  let bevelDepth ← field double? missing.bevelDepth (fields 7 "bevel_depth")
  let bevelResolution ← field word32? missing.bevelResolution (fields 8 "bevel_resolution")
  return {
    baseLength, angle, yaw?, pitch?, roll?, jitterFraction, jitterSeed, bevelDepth,
    bevelResolution }

/-- Read a definition from the table of a document. -/
def ofTable? (entries : List (String × Value)) : Option Definition := do
  let grammar ← field grammar? {} (entries.lookup "grammar")
  let turtle ← field turtle? {} (entries.lookup "turtle")
  return { grammar, turtle }

/-- Read a definition, whose turtle must have its numbers in range. -/
def read (text : String) : Except ConfigError Definition := do
  let definition ←
    match Toml.read? text with
    | none => throw (.invalidDefinition "the text is no TOML document")
    | some entries =>
        match ofTable? entries with
        | none => throw (.invalidDefinition "a field has a value of the wrong kind")
        | some definition => pure definition
  definition.validate
  return definition

/-- A path of one key. -/
def key (name : String) : Toml.Path := ⟨[], name⟩

/-- A line with a whole number. -/
def wholeLine (name : String) (n : Nat) : Statement := .entry (key name) (.integer n)

/-- A line with a double. -/
def doubleLine (name : String) (x : Float) : Statement := .entry (key name) (.double x)

/-- A line with a double if there is one. -/
def maybeLine (name : String) : Option Float → List Statement
  | none => []
  | some x => [doubleLine name x]

/-- The table of one rule. -/
def ruleLines (rule : RuleEntry) : List Statement :=
  [.element ⟨["grammar"], "rules"⟩, .entry (key "rule") (.text rule.text),
    doubleLine "probability" rule.probability]

/-- The lines of the grammar section. Rules come behind the other lines, each in a table
of its own. -/
def grammarLines (grammar : GrammarSection) : List Statement :=
  [.header (key "grammar"), .entry (key "start") (.text grammar.start)] ++
    (if grammar.rules.isEmpty then [.entry (key "rules") (.array [])] else []) ++
    [wholeLine "iterations" grammar.iterations.toNat,
      wholeLine "rule_selection_seed" grammar.seed.toNat] ++
    grammar.rules.flatMap ruleLines

/-- The lines of the turtle section. -/
def turtleLines (turtle : TurtleSection) : List Statement :=
  [.header (key "turtle"), doubleLine "base_length" turtle.baseLength,
    doubleLine "angle" turtle.angle] ++
    maybeLine "yaw_angle" turtle.yaw? ++
    maybeLine "pitch_angle" turtle.pitch? ++
    maybeLine "roll_angle" turtle.roll? ++
    [doubleLine "angle_jitter_fraction" turtle.jitterFraction,
      wholeLine "angle_jitter_seed" turtle.jitterSeed.toNat,
      doubleLine "bevel_depth" turtle.bevelDepth,
      wholeLine "bevel_resolution" turtle.bevelResolution.toNat]

/-- The greatest whole number that a document can hold. -/
def greatestWhole : Nat := Nat.pow 2 63 - 1

/-- The text of a definition. Seeds that are too large cannot be written. -/
def write (definition : Definition) : Except ConfigError String :=
  if definition.grammar.seed.toNat ≤ greatestWhole ∧
      definition.turtle.jitterSeed.toNat ≤ greatestWhole then
    .ok (Toml.write (grammarLines definition.grammar ++ turtleLines definition.turtle))
  else .error (.invalidDefinition "a seed is too large for a document")

end Definition

end Lindenmayer

import Lindenmayer.Command.Invocation

/-!
# Help

The pages that say how the program is called, made from the tables of verbs and flags.
-/

namespace Lindenmayer.Command

/-- The name by which the program is called. -/
def programName : String := "lsys"

/-- The name and the number of the program, or of what it does for a verb. -/
def versionLine : Option Verb → String
  | none => programName ++ " 0.1.0"
  | some verb => programName ++ "-" ++ verb.name ++ " 0.1.0"

/-- Names and what is said of each, in two columns. -/
def columns (rows : List (String × String)) : List String :=
  let width := (rows.map fun row => row.1.length).foldl max 0
  rows.map fun row =>
    "  " ++ row.1 ++ String.ofList (List.replicate (width - row.1.length) ' ') ++ "  " ++ row.2

/-- How a flag is written on a page. -/
def Flag.usage (flag : Flag) : String :=
  let letter :=
    match flag.short? with
    | some c => String.ofList ['-', c, ',', ' ']
    | none => "    "
  let value :=
    match flag with
    | .switch _ => ""
    | .setting s => " <" ++ s.long.toUpper ++ ">"
  letter ++ "--" ++ flag.long ++ value

/-- The lines on flags. -/
def flagLines (flags : List Flag) : List String :=
  columns (flags.map fun flag => (flag.usage, flag.about))

/-- The page on the program. -/
def generalPage : List String :=
  ["Expand Lindenmayer systems and turn them into 3D curve skeletons", "",
    "Usage: " ++ programName ++ " [OPTIONS] <COMMAND>", "", "Commands:"] ++
    columns (Verb.all.map (fun verb => (verb.name, verb.about)) ++
      [("help", "Print this page or the page on a command")]) ++ ["", "Options:"] ++
    flagLines Flag.general

/-- The page on a verb. -/
def Verb.page (verb : Verb) : List String :=
  let operands := if verb = .validate then " <RULES>..." else ""
  [verb.about, "", "Usage: " ++ programName ++ " " ++ verb.name ++ " [OPTIONS]" ++ operands, "",
    "Options:"] ++ flagLines verb.flags

/-- The status that the program ends with when it stops before any work. -/
def Stop.status : Stop → UInt32
  | .help _ | .version _ => 0
  | .usage _ => 2

/-- What the program says when it stops before any work. -/
def Stop.lines : Stop → List String
  | .help none => generalPage
  | .help (some verb) => verb.page
  | .version verb? => [versionLine verb?]
  | .usage error =>
      ["error: " ++ error.message, "", "For more information, try '--help'."]

end Lindenmayer.Command

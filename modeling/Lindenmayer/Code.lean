/-!
# Codes

Errors, warnings and successes carry a short code. The registry says of each what
part of the work it belongs to, how grave it is and what to do about it; codes that
are not in it are taken to be of medium gravity and recoverable.
-/

namespace Lindenmayer

/-- A code. -/
structure Code where
  text : String
deriving DecidableEq

/-- How grave the matter is that a code names. -/
inductive Severity where
  | critical
  | high
  | medium
  | low
deriving DecidableEq

/-- The severity in words. -/
def Severity.text : Severity → String
  | critical => "Critical"
  | high => "High"
  | medium => "Medium"
  | low => "Low"

/-- What the registry says of a code. -/
structure CodeInfo where
  code : Code
  category : String
  severity : Severity
  recoverable : Bool
  /-- The run cannot go on. -/
  halts : Bool
  description : String
  action : String
deriving DecidableEq

namespace Code

def internalError : Code := ⟨"ERR001"⟩
def startupFailure : Code := ⟨"ERR002"⟩
def definitionUnreadable : Code := ⟨"E005"⟩
def invalidDefinition : Code := ⟨"E006"⟩
def invalidParameter : Code := ⟨"E007"⟩
def invalidCharacter : Code := ⟨"E020"⟩
def ruleTooLong : Code := ⟨"E021"⟩
def missingAssignment : Code := ⟨"E040"⟩
def missingSymbol : Code := ⟨"E041"⟩
def unclosedBranch : Code := ⟨"E042"⟩
def unmatchedClose : Code := ⟨"E043"⟩
def unexpectedToken : Code := ⟨"E050"⟩
def nestingTooDeep : Code := ⟨"E087"⟩
def invalidProbability : Code := ⟨"E060"⟩
def tooManyAlternatives : Code := ⟨"E061"⟩
def emptyStart : Code := ⟨"E062"⟩
def unmatchedPop : Code := ⟨"E230"⟩
def unclosedBranches : Code := ⟨"E231"⟩
def branchStackOverflow : Code := ⟨"E232"⟩
def iterationLimit : Code := ⟨"E240"⟩
def lengthLimit : Code := ⟨"E241"⟩
def ruleRejected : Code := ⟨"W010"⟩
def probabilityDeficit : Code := ⟨"W011"⟩
def probabilityExcess : Code := ⟨"W012"⟩
def symbolsDropped : Code := ⟨"W013"⟩
def startupComplete : Code := ⟨"I004"⟩
def tokenizationComplete : Code := ⟨"I020"⟩
def ruleAccepted : Code := ⟨"I041"⟩
def tableBuilt : Code := ⟨"I050"⟩
def expansionComplete : Code := ⟨"I060"⟩
def stepLengthComputed : Code := ⟨"I070"⟩
def interpretationComplete : Code := ⟨"I080"⟩
def generationComplete : Code := ⟨"I090"⟩

/-- The code of news that have no code of their own. -/
def info : Code := ⟨"I000"⟩

/-- The code of debugging notes. -/
def debug : Code := ⟨"D000"⟩

end Code

namespace CodeInfo

/-- An error that ends the run. -/
def fatal (category : String) (severity : Severity) (code : Code)
    (description action : String) : CodeInfo :=
  { code, category, severity, recoverable := false, halts := true, description, action }

/-- A matter that the run survives. -/
def survivable (category : String) (severity : Severity) (code : Code)
    (description action : String) : CodeInfo :=
  { code, category, severity, recoverable := true, halts := false, description, action }

/-- A success. -/
def success (category : String) (code : Code) (description : String) : CodeInfo :=
  survivable category .low code description "Continue"

/-- Every known code. -/
def registry : List CodeInfo :=
  [fatal "System" .critical .internalError "Critical internal error"
      "File a bug report with the definition that triggered it",
    fatal "System" .critical .startupFailure
      "Logging or configuration initialization failure" "Check LSYS_* environment variables",
    fatal "Configuration" .high .definitionUnreadable "Definition file could not be read"
      "Check the path and file permissions",
    fatal "Configuration" .high .invalidDefinition
      "Definition file is not valid TOML or is missing fields"
      "Fix the definition file syntax",
    fatal "Configuration" .high .invalidParameter "Generation parameter out of range"
      "Adjust the parameter to its documented range",
    survivable "Lexical" .medium .invalidCharacter "Character outside the rule alphabet"
      "Use letters, ':=', direction symbols and brackets only",
    survivable "Lexical" .medium .ruleTooLong "Rule text exceeds the maximum rule length"
      "Split the rule or shorten the replacement",
    survivable "Syntax" .medium .missingAssignment "Rule is missing the ':=' assignment"
      "Write rules as <Symbol>:=<replacement>",
    survivable "Syntax" .medium .missingSymbol "Rule does not start with a single symbol"
      "Start the rule with exactly one letter",
    survivable "Syntax" .medium .unclosedBranch "Branch opened with '[' is never closed"
      "Add the matching ']'",
    survivable "Syntax" .medium .unmatchedClose "']' without a matching '['"
      "Remove the stray ']' or add the opening '['",
    survivable "Syntax" .medium .unexpectedToken "Unexpected token in rule"
      "Remove the token; it is not valid at this position",
    survivable "Syntax" .high .nestingTooDeep
      "Branch nesting exceeds the maximum parse depth" "Reduce bracket nesting in the rule",
    survivable "Grammar" .medium .invalidProbability "Rule probability outside [0, 1]"
      "Use a probability between 0 and 1",
    survivable "Grammar" .medium .tooManyAlternatives
      "Too many alternative rules for one symbol" "Merge or remove alternatives",
    fatal "Grammar" .high .emptyStart "Start sequence is empty or not lexable"
      "Provide at least one symbol as the start sequence",
    fatal "Structural" .high .unmatchedPop "']' reached with an empty branch stack"
      "Balance the brackets in the start sequence",
    fatal "Structural" .high .unclosedBranches
      "Branches still open at the end of the sequence"
      "Balance the brackets in the start sequence",
    fatal "Structural" .high .branchStackOverflow "Branch stack exceeds the maximum depth"
      "Reduce nesting or the iteration count",
    fatal "Limits" .high .iterationLimit "Iteration count exceeds the configured maximum"
      "Lower the iteration count",
    fatal "Limits" .high .lengthLimit
      "Expanded sequence exceeds the configured maximum length"
      "Lower the iteration count or simplify the rules",
    survivable "Grammar" .low .ruleRejected "Invalid rule excluded from the production table"
      "Fix the rule text to include it",
    survivable "Grammar" .low .probabilityDeficit
      "Alternative probabilities sum to less than 1"
      "Symbols may be dropped or kept depending on the no-match policy",
    survivable "Grammar" .low .probabilityExcess
      "Alternative probabilities sum to more than 1"
      "Later alternatives can never be selected",
    survivable "Rewrite" .low .symbolsDropped
      "Symbols dropped because no alternative matched the draw"
      "Make probabilities sum to 1 or use the keep policy",
    success "System" .startupComplete "Logging system initialized",
    success "Lexical" .tokenizationComplete "Tokenization completed",
    success "Syntax" .ruleAccepted "Rule validated",
    success "Grammar" .tableBuilt "Production table built",
    success "Rewrite" .expansionComplete "Expansion completed",
    success "Turtle" .stepLengthComputed "Step length computed",
    success "Turtle" .interpretationComplete "Interpretation completed",
    success "Pipeline" .generationComplete "Generation completed"]

end CodeInfo

namespace Code

/-- What the registry says of a code, if it knows it. -/
def info? (code : Code) : Option CodeInfo := CodeInfo.registry.find? fun i => i.code = code

def severity (code : Code) : Severity := (code.info?.map CodeInfo.severity).getD .medium

def recoverable (code : Code) : Bool := (code.info?.map CodeInfo.recoverable).getD true

def halts (code : Code) : Bool := (code.info?.map CodeInfo.halts).getD false

def description (code : Code) : String :=
  (code.info?.map CodeInfo.description).getD "Unknown error"

def action (code : Code) : String :=
  (code.info?.map CodeInfo.action).getD "No specific action available"

def category (code : Code) : String := (code.info?.map CodeInfo.category).getD "Unknown"

end Code

end Lindenmayer

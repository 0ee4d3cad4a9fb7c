import Lindenmayer.Proofs.Rule.Grammar
import Lindenmayer.Rule.Text

/-!
# Scanning a rule text

A flat pass over the tokens of a rule text that keeps the open brackets and stops at the first
token that is wrong. Its verdict on a reading (`RuleScan.verdict`) is the error of that token,
the error that the text breaks off with, or what is missing where the text ends.
-/

namespace Lindenmayer

/-- The error is a bracket too many, which is noticed behind the token that follows it. -/
def RuleError.isTooDeep : RuleError → Bool
  | .tooDeep _ => true
  | _ => false

/-- Where a scan of a rule text stands. -/
inductive RuleScan where
  /-- Before the first token. -/
  | start
  /-- Behind the symbol. -/
  | named
  /-- Behind `:=`, with the places of the open brackets, the innermost first. -/
  | body (opened : List Span)
deriving DecidableEq

namespace RuleScan

/-- What a body between the open brackets has to end with. -/
def expected : List Span → Expected
  | [] => .endOfRule
  | _ :: _ => .closingBracket

/-- One token more of a body, or what is wrong with it. -/
def takeBody (opened : List Span) (t : Spanned Token) : Except RuleError (List Span) :=
  match t.value with
  | .symbol _ | .direction _ => .ok opened
  | .push =>
      if opened.length < Limits.branchDepth then .ok (t.span :: opened)
      else .error (.tooDeep t.span)
  | .pop =>
      match opened with
      | [] => .error (.unmatchedClose t.span)
      | _ :: outer => .ok outer
  | .assign => .error (.unexpectedToken (expected opened) .assign t.span)
  | .finish => .error (.unexpectedToken (expected opened) .finish t.span)

/-- One token more, or what is wrong with it. -/
def take (scan : RuleScan) (t : Spanned Token) : Except RuleError RuleScan :=
  match scan with
  | start =>
      if t.value.isSymbol then .ok named else .error (.missingSymbol t.value t.span)
  | named =>
      if t.value = .assign then .ok (body [])
      else .error (.missingAssignment t.value t.span)
  | body opened => (takeBody opened t).map body

/-- What is wrong where the text ends. -/
def close : RuleScan → Position → Except RuleError Unit
  | start, position => .error (.missingSymbol .finish (.point position))
  | named, position => .error (.missingAssignment .finish (.point position))
  | body [], _ => .ok ()
  | body (opening :: _), _ => .error (.unclosedBranch opening)

/-- The scan of all tokens, or the first error with the tokens behind the wrong one. -/
def run : RuleScan → List (Spanned Token) →
    Except (RuleError × List (Spanned Token)) RuleScan
  | scan, [] => .ok scan
  | scan, t :: rest =>
      match scan.take t with
      | .ok next => next.run rest
      | .error error => .error (error, rest)

/-- The verdict on a reading. A wrong token comes before an error in the text behind it,
except for a bracket too many right before that error. -/
def verdict (scan : RuleScan) (lexed : Lexed) : Except RuleError Unit :=
  match scan.run lexed.tokens, lexed.ending with
  | .ok last, .complete position => last.close position
  | .ok _, .broken error _ => .error (.lexical error)
  | .error (.tooDeep _, []), .broken error _ => .error (.lexical error)
  | .error (error, _), _ => .error error

section

variable {scan next : RuleScan} {t : Spanned Token} {tokens : List (Spanned Token)}
  {ending : Ending} {error : RuleError}

theorem verdict_cons (h : scan.take t = .ok next) :
    scan.verdict ⟨t :: tokens, ending⟩ = next.verdict ⟨tokens, ending⟩ := by
  simp only [verdict, run, h]

/-- A wrong token settles the verdict, whatever stands behind it. -/
theorem verdict_cons_of_error (h : scan.take t = .error error)
    (settled : error.isTooDeep = false) :
    scan.verdict ⟨t :: tokens, ending⟩ = .error error := by
  simp only [verdict, run, h]
  cases error with
  | tooDeep span => cases settled
  | _ => rfl

/-- A bracket too many settles the verdict unless the text breaks off right behind it. -/
theorem verdict_cons_of_tooDeep {span : Span} (h : scan.take t = .error (.tooDeep span))
    (more : tokens = [] → ∃ position, ending = .complete position) :
    scan.verdict ⟨t :: tokens, ending⟩ = .error (.tooDeep span) := by
  simp only [verdict, run, h]
  cases tokens with
  | nil =>
      obtain ⟨position, rfl⟩ := more rfl
      rfl
  | cons => rfl

/-- Where the text breaks off right behind a token, its error is the verdict if the token is
in place or a bracket too many. -/
theorem verdict_broken {fault : LexicalError} {position : Position}
    (h : (∃ next, scan.take t = .ok next) ∨ ∃ span, scan.take t = .error (.tooDeep span)) :
    scan.verdict ⟨[t], .broken fault position⟩ = .error (.lexical fault) := by
  rcases h with ⟨next, h⟩ | ⟨span, h⟩ <;> simp only [verdict, run, h]

/-! ## Tokens of bodies -/

variable {opened : List Span}

theorem take_of_isPlain (plain : t.value.isPlain = true) :
    (body opened).take t = .ok (body opened) := by
  rcases t with ⟨value, span⟩
  cases value with
  | symbol | direction => rfl
  | assign | push | pop | finish => cases plain

theorem take_of_push (hpush : t.value = .push) (room : opened.length < Limits.branchDepth) :
    (body opened).take t = .ok (body (t.span :: opened)) := by
  rcases t with ⟨value, span⟩
  cases hpush
  show Except.map body (if _ then _ else _) = _
  rw [if_pos room]
  rfl

theorem take_of_full (hpush : t.value = .push) (full : ¬ opened.length < Limits.branchDepth) :
    (body opened).take t = .error (.tooDeep t.span) := by
  rcases t with ⟨value, span⟩
  cases hpush
  show Except.map body (if _ then _ else _) = _
  rw [if_neg full]
  rfl

theorem take_of_pop {opening : Span} (hpop : t.value = .pop) :
    (body (opening :: opened)).take t = .ok (body opened) := by
  rcases t with ⟨value, span⟩
  cases hpop
  rfl

theorem take_of_unmatched (hpop : t.value = .pop) :
    (body []).take t = .error (.unmatchedClose t.span) := by
  rcases t with ⟨value, span⟩
  cases hpop
  rfl

theorem take_of_assign (hassign : t.value = .assign) : (body opened).take t =
    .error (.unexpectedToken (expected opened) .assign t.span) := by
  rcases t with ⟨value, span⟩
  cases hassign
  rfl

end

end RuleScan

end Lindenmayer

/-!
# Tokens

The marks of a word: letters that rules replace, direction marks that turn the
turtle, and brackets that open and close branches. Rules also use `:=`.
-/

namespace Lindenmayer

/-- What a direction mark turns about. -/
inductive Axis where
  | yaw
  | pitch
  | roll
deriving DecidableEq

/-- A turn about an axis, one way or the other. -/
structure Direction where
  axis : Axis
  positive : Bool
deriving DecidableEq

namespace Direction

/-- The mark of a direction. -/
def mark : Direction → Char
  | ⟨.yaw, true⟩ => '+'
  | ⟨.yaw, false⟩ => '-'
  | ⟨.pitch, true⟩ => '^'
  | ⟨.pitch, false⟩ => '&'
  | ⟨.roll, true⟩ => '\\'
  | ⟨.roll, false⟩ => '/'

/-- The direction that a mark stands for. -/
def ofMark? : Char → Option Direction
  | '+' => some ⟨.yaw, true⟩
  | '-' => some ⟨.yaw, false⟩
  | '^' => some ⟨.pitch, true⟩
  | '&' => some ⟨.pitch, false⟩
  | '\\' => some ⟨.roll, true⟩
  | '/' => some ⟨.roll, false⟩
  | _ => none

@[simp] theorem ofMark?_mark (d : Direction) : ofMark? d.mark = some d := by
  rcases d with ⟨a, p⟩
  cases a <;> cases p <;> rfl

/-- A mark stands for one direction. -/
theorem mark_eq_of_ofMark? {c : Char} {d : Direction} (h : ofMark? c = some d) :
    d.mark = c := by
  unfold ofMark? at h
  split at h <;> simp_all [mark] <;> subst h <;> rfl

/-- The sign of the angle that a direction turns by. -/
def sign (d : Direction) : Float := if d.positive then 1.0 else -1.0

end Direction

/-- One lexical unit. `finish` stands for the end of a text and has no text itself. -/
inductive Token where
  | symbol (letter : Char)
  | assign
  | direction (turn : Direction)
  | push
  | pop
  | finish
deriving DecidableEq, Inhabited

namespace Token

/-- The characters of a token. -/
def chars : Token → List Char
  | symbol letter => [letter]
  | assign => [':', '=']
  | direction turn => [turn.mark]
  | push => ['[']
  | pop => [']']
  | finish => []

/-- The text of a token. -/
def text (t : Token) : String := String.ofList t.chars

/-- A token as named in messages. -/
def shown : Token → String
  | finish => "end of rule"
  | t => "'" ++ t.text ++ "'"

/-- The letter of a symbol. -/
def letter? : Token → Option Char
  | symbol letter => some letter
  | _ => none

/-- The token is a symbol. -/
def isSymbol (t : Token) : Bool := t.letter?.isSome

/-- The tokens differ at most in their letter or direction. -/
def sameKind : Token → Token → Bool
  | symbol _, symbol _ => true
  | assign, assign => true
  | direction _, direction _ => true
  | push, push => true
  | pop, pop => true
  | finish, finish => true
  | _, _ => false

theorem isSymbol_iff {t : Token} : t.isSymbol = true ↔ ∃ letter, t = symbol letter := by
  cases t <;> simp [isSymbol, letter?]

@[simp] theorem sameKind_assign {t : Token} : t.sameKind assign = true ↔ t = assign := by
  constructor
  · intro h
    cases t <;> first | rfl | cases h
  · intro h
    rw [h]
    rfl

@[simp] theorem sameKind_pop {t : Token} : t.sameKind pop = true ↔ t = pop := by
  constructor
  · intro h
    cases t <;> first | rfl | cases h
  · intro h
    rw [h]
    rfl

end Token

/-- Which direction marks a text may use. -/
inductive Alphabet where
  /-- Rules: yaw only. -/
  | strict
  /-- Turtle words: yaw, pitch and roll. -/
  | extended
deriving DecidableEq

/-- The alphabet has a mark for the direction. -/
def Alphabet.accepts : Alphabet → Direction → Bool
  | .strict, turn => turn.axis = .yaw
  | .extended, _ => true

end Lindenmayer

/-!
# Positions and spans

Where a character stands in a text: its offset in bytes of UTF-8, its line and its
column. A line break starts the next line; every other character, a tab or a
combining mark included, is one column wide. Lines and columns are words of thirty-two
bits, which wrap around where a text is too long for them.
-/

namespace Lindenmayer

/-- A place between two characters of a text. Lines and columns count from one. -/
structure Position where
  offset : Nat
  line : UInt32
  column : UInt32
deriving DecidableEq, Ord, Inhabited

namespace Position

/-- The place before the first character. -/
def start : Position := ⟨0, 1, 1⟩

/-- The place after one more character. -/
def advance (p : Position) (c : Char) : Position :=
  if c = '\n' then ⟨p.offset + 1, p.line + 1, 1⟩
  else ⟨p.offset + c.utf8Size, p.line, p.column + 1⟩

/-- The place after more characters. -/
def advanceAll (p : Position) (cs : List Char) : Position := cs.foldl advance p

/-- Line and column, as shown to users. -/
def text (p : Position) : String := toString p.line ++ ":" ++ toString p.column

@[simp] theorem advanceAll_nil (p : Position) : p.advanceAll [] = p := rfl

@[simp] theorem advanceAll_cons (p : Position) (c : Char) (cs : List Char) :
    p.advanceAll (c :: cs) = (p.advance c).advanceAll cs := rfl

theorem advanceAll_append (p : Position) (cs ds : List Char) :
    p.advanceAll (cs ++ ds) = (p.advanceAll cs).advanceAll ds := by
  simp [advanceAll, List.foldl_append]

end Position

/-- A stretch of text: its first place and the place after its last character. -/
structure Span where
  first : Position
  last : Position
deriving DecidableEq, Inhabited

namespace Span

/-- The empty stretch at a place. -/
def point (p : Position) : Span := ⟨p, p⟩

/-- A span on one line names that line once. -/
def text (s : Span) : String :=
  if s.first.line = s.last.line then s.first.text ++ "-" ++ toString s.last.column
  else s.first.text ++ "-" ++ s.last.text

end Span

/-- A value and the stretch of text it was read from. -/
structure Spanned (α : Type u) where
  value : α
  span : Span
deriving DecidableEq

end Lindenmayer

import Lindenmayer.Word

/-!
# The stem

The moves outside all brackets are the stem. Its extent is kept the same however many
moves it has, by making the steps shorter.
-/

namespace Lindenmayer.Turtle

/-- Moves outside brackets in the rest of a word, `depth` brackets being open and `count`
moves met before. A closing bracket that closes nothing changes nothing. -/
def countStem (move : Char) : Word → (depth count : Nat) → Nat
  | [], _, count => count
  | t :: rest, depth, count =>
      match t with
      | .push => countStem move rest (depth + 1) count
      | .pop => countStem move rest (depth - 1) count
      | .symbol letter =>
          countStem move rest depth (if letter = move ∧ depth = 0 then count + 1 else count)
      | _ => countStem move rest depth count

/-- Number of moves on the stem of a word. -/
def stemMoves (move : Char) (word : Word) : Nat := countStem move word 0 0

/-- The step that gives a stem of so many moves the length `base`; zero for no moves. -/
def stepLength (moves : Nat) (base : Float) : Float :=
  if moves = 0 then 0.0 else base / moves.toFloat

end Lindenmayer.Turtle

/-!
Rows of a text and the position of a byte in them. Rows are the pieces between line feeds, so a text
with `k` line feeds has `k + 1` rows. Lines and columns count from one, and columns count bytes.
-/

namespace NetSynth

structure Position where
  line : Nat
  column : Nat
  deriving DecidableEq

namespace Rows

def split (text : List Char) : List (List Char) :=
  text.foldr
    (fun letter rows =>
      match letter, rows with
      | '\n', rows => [] :: rows
      | letter, row :: rest => (letter :: row) :: rest
      | letter, [] => [[letter]])
    [[]]

def byteCount (row : List Char) : Nat :=
  row.foldr (fun letter count => letter.utf8Size + count) 0

/-- The position of a byte, where the first row has number `line`. A line feed belongs to the row
that it ends, and the last row goes on without end. -/
def position : List (List Char) → (line offset : Nat) → Position
  | row :: next :: rest, line, offset =>
      if offset ≤ byteCount row then ⟨line, offset + 1⟩
      else position (next :: rest) (line + 1) (offset - (byteCount row + 1))
  | _, line, offset => ⟨line, offset + 1⟩

/-- A row without the carriage returns at its end. -/
def trimmed (row : List Char) : List Char := (row.reverse.dropWhile (· == '\r')).reverse

end Rows

end NetSynth

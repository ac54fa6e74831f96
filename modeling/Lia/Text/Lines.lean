/-!
# Lines of a text

Only a newline ends a line. Lines and columns count from one, columns in
characters. `unifyBreaks` turns every kind of line break into a newline.
-/

namespace Lia.Text

def lineAt (s : String) (offset : Nat) : Nat := (s.toList.take offset).count '\n' + 1

/-- Characters before the line that an offset lies in. -/
def lineStart (s : String) (offset : Nat) : Nat :=
  let before := s.toList.take offset
  before.length - (before.reverse.takeWhile (· ≠ '\n')).length

def columnAt (s : String) (offset : Nat) : Nat := offset - lineStart s offset + 1

/-- The lines without their newlines; a text without one is one line. -/
def splitLines : List Char → List (List Char)
  | [] => [[]]
  | c :: s =>
    if c = '\n' then [] :: splitLines s
    else match splitLines s with
      | [] => [[c]]
      | l :: ls => (c :: l) :: ls

/-- The text of a line, empty if there is none of the number. -/
def lineText (s : String) (line : Nat) : String :=
  String.ofList ((splitLines s.toList)[line - 1]?.getD [])

/-- Carriage returns, with or without a newline after them, become newlines. -/
def unifyBreaks : List Char → List Char
  | [] => []
  | '\r' :: '\n' :: s => '\n' :: unifyBreaks s
  | '\r' :: s => '\n' :: unifyBreaks s
  | c :: s => c :: unifyBreaks s

end Lia.Text

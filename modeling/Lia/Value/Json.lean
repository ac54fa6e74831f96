import Lia.Value

/-!
# JSON text

Writes a value as JSON: on one line or indented, with fields in their order or
sorted by name, with characters beyond ASCII escaped or literal.
-/

namespace Lia.Json

structure Style where
  /-- Spaces per level; none for text on one line. -/
  indent : Option Nat
  /-- Fields of every record sorted by name. -/
  sorted : Bool
  /-- Characters outside the space to tilde range escaped. -/
  ascii : Bool

namespace Style

def compact : Style := ⟨none, false, true⟩

def indented (n : Nat) : Style := ⟨some n, false, true⟩

end Style

-- ---------------------------------------------------------------------------
-- Strings and numbers
-- ---------------------------------------------------------------------------

def unit (n : Nat) : List Char := ('\\' :: 'u' :: (Text.hex 4 n).toList)

/-- One UTF-16 unit, or two above the basic plane. -/
def units (c : Char) : List Char :=
  if c.toNat < 0x10000 then unit c.toNat
  else
    let n := c.toNat - 0x10000
    unit (0xD800 + n / 0x400) ++ unit (0xDC00 + n % 0x400)

def escape (ascii : Bool) (c : Char) : List Char :=
  if c = '"' ∨ c = '\\' then ['\\', c]
  else if c = '\n' then ['\\', 'n']
  else if c = '\r' then ['\\', 'r']
  else if c = '\t' then ['\\', 't']
  else if c.toNat = 0x08 then ['\\', 'b']
  else if c.toNat = 0x0C then ['\\', 'f']
  else if c.toNat < 0x20 then units c
  else if ascii && 0x7F ≤ c.toNat then units c
  else [c]

def string (ascii : Bool) (s : String) : String :=
  String.ofList ('"' :: s.toList.flatMap (escape ascii) ++ ['"'])

/-- Infinities and NaN have spellings of their own. -/
def number : Number → String
  | .nan _ => "NaN"
  | .float (.infinite false) => "Infinity"
  | .float (.infinite true) => "-Infinity"
  | n => n.text

-- ---------------------------------------------------------------------------
-- Layout
-- ---------------------------------------------------------------------------

def lineBreak (width level : Nat) : String :=
  "\n" ++ String.ofList (List.replicate (width * level) ' ')

/-- Items between brackets, one per line if the style indents. -/
def enclose (style : Style) (level : Nat) (left right : String) (items : List String) :
    String :=
  if items.isEmpty then left ++ right
  else match style.indent with
    | none => left ++ ", ".intercalate items ++ right
    | some width =>
      left ++ lineBreak width (level + 1) ++
        ("," ++ lineBreak width (level + 1)).intercalate items ++ lineBreak width level ++ right

def arrange (style : Style) (fields : List (String × String)) : List (String × String) :=
  if style.sorted then fields.mergeSort fun a b => decide (a.1 ≤ b.1) else fields

mutual
def render (style : Style) (level : Nat) : Value → String
  | .null => "null"
  | .flag b => if b then "true" else "false"
  | .number n => number n
  | .text s => string style.ascii s
  | .list items => enclose style level "[" "]" (renderItems style (level + 1) items)
  | .record fields =>
    enclose style level "\x7b" "\x7d"
      ((arrange style (renderFields style (level + 1) fields)).map fun f =>
        string style.ascii f.1 ++ ": " ++ f.2)
termination_by structural v => v
def renderItems (style : Style) (level : Nat) : List Value → List String
  | [] => []
  | v :: vs => render style level v :: renderItems style level vs
termination_by structural vs => vs
def renderFields (style : Style) (level : Nat) : List (String × Value) → List (String × String)
  | [] => []
  | (key, v) :: rest => (key, render style level v) :: renderFields style level rest
termination_by structural fields => fields
end

def write (style : Style) (v : Value) : String := render style 0 v

end Lia.Json

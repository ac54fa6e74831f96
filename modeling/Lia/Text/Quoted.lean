import Lia.Text.Printable

/-!
# Quoted text

How messages show a text value: between quotes, with escapes for the quote, the
backslash and every character that is not printable.
-/

namespace Lia.Text

/-- Lower case hexadecimal digits, with zeros up to the width. -/
def hexDigits (width n : Nat) : List Char :=
  let ds := Nat.toDigits 16 n
  List.replicate (width - ds.length) '0' ++ ds

def hex (width n : Nat) : String := String.ofList (hexDigits width n)

/-- Apostrophes, unless the text has an apostrophe and no double quote. -/
def quoteFor (s : String) : Char :=
  if '\'' ∈ s.toList ∧ '"' ∉ s.toList then '"' else '\''

def escapeIn (quote c : Char) : List Char :=
  if c = quote ∨ c = '\\' then ['\\', c]
  else if c = '\n' then ['\\', 'n']
  else if c = '\r' then ['\\', 'r']
  else if c = '\t' then ['\\', 't']
  else if isPrintable c then [c]
  else if c.toNat < 0x100 then '\\' :: 'x' :: hexDigits 2 c.toNat
  else if c.toNat < 0x10000 then '\\' :: 'u' :: hexDigits 4 c.toNat
  else '\\' :: 'U' :: hexDigits 8 c.toNat

def quoted (s : String) : String :=
  let quote := quoteFor s
  String.ofList (quote :: s.toList.flatMap (escapeIn quote) ++ [quote])

end Lia.Text

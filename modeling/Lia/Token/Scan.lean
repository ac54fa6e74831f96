import Lia.Token.Lexeme
import Lia.Note

/-!
# Tokens of a source text

`tokenize` skips space and takes one longest lexeme after another; the last token
is the end of the source. It stops at the first character that begins no lexeme,
or at the first integer that is too long to be read.
-/

namespace Lia

inductive LexError
  /-- No lexeme begins at the offset; the snippet is what stands there. -/
  | unexpected (offset : Nat) (snippet : String)
  | integerTooLong (digits : Nat)
  deriving DecidableEq

def LexError.message : LexError → String
  | .unexpected offset snippet => s!"Unexpected token at {offset}: " ++ snippet
  | .integerTooLong digits =>
    s!"Exceeds the limit (4300 digits) for integer string conversion: value has {digits} digits; " ++
      "use sys.set_int_max_str_digits() to increase the limit"

/-- Digits an integer may have. Numbers with a point have no limit. -/
def maxIntegerDigits : Nat := 4300

/-- Characters of the source that an error quotes. -/
def snippetLength : Nat := 20

def numberValue (s : List Char) : Except LexError Number :=
  match s.dropWhile Char.isDigit with
  | [] =>
    if maxIntegerDigits < s.length then .error (.integerTooLong s.length)
    else .ok (.int (Nat.ofDigitChars 10 s 0))
  | _ :: fraction =>
    let coefficient := Nat.ofDigitChars 10 (s.takeWhile Char.isDigit ++ fraction) 0
    .ok (.float ((Decimal.mk coefficient (-fraction.length)).toBinary64 false))

/-- The value of a lexeme: a string without its quotes, a number as what it
denotes, anything else as its spelling. -/
def lexemeValue : TokenKind → List Char → Except LexError Value
  | .number, s => (numberValue s).map .number
  | .string, s => .ok (.text (String.ofList (s.drop 1).dropLast))
  | _, s => .ok (.text (String.ofList s))

def scan (offset : Nat) : List Char → Except LexError (List Token)
  | [] => .ok [Token.eof offset]
  | c :: rest =>
    if isSpace c then scan (offset + 1) rest
    else match _h : munch (c :: rest) with
      | none => .error (.unexpected offset (String.ofList ((c :: rest).take snippetLength)))
      | some m => do
        let value ← lexemeValue m.kind m.text
        let tokens ← scan (offset + m.text.length) m.rest
        return ⟨m.kind, value, some offset, String.ofList m.text⟩ :: tokens
termination_by s => s.length
decreasing_by
  · simp
  · exact munch_length_lt _h

def tokenize (source : String) : Except LexError (List Token) := scan 0 source.toList

def tokenizedNote (source : String) (tokens : List Token) : Note :=
  .tokenized source.length tokens.length

end Lia

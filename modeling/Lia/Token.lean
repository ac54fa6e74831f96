import Lia.Value

/-!
# Tokens

A token has a kind and a value; it remembers where it starts in the source and
how it is spelled there. Two tokens are the same if kind and value are.
-/

namespace Lia

inductive TokenKind
  | punct | ident | string | number | eof
  /-- No source text has a token of another kind. -/
  | other (name : String)
  deriving DecidableEq

namespace TokenKind

def name : TokenKind → String
  | .punct => "punct"
  | .ident => "ident"
  | .string => "string"
  | .number => "number"
  | .eof => "eof"
  | .other name => name

def ofName : String → TokenKind
  | "punct" => .punct
  | "ident" => .ident
  | "string" => .string
  | "number" => .number
  | "eof" => .eof
  | name => .other name

end TokenKind

structure Token where
  kind : TokenKind
  /-- A text or a number, and nothing at the end. Lists and records come from no source. -/
  value : Value
  /-- Characters of the source before it. -/
  pos : Option Nat
  /-- The source spelling: strings have their quotes, numbers all their digits. -/
  text : String

namespace Token

def same (a b : Token) : Bool := decide (a.kind = b.kind) && a.value.same b.value

instance : BEq Token := ⟨same⟩

/-- A token that was not read from a source is spelled as its value. -/
def of (kind : TokenKind) (value : Value) (pos : Option Nat) : Token :=
  ⟨kind, value, pos, value.display⟩

def eof (pos : Nat) : Token := of .eof .null (some pos)

def isEof (t : Token) : Bool := t.kind = .eof

def isIdent (t : Token) : Bool := t.kind = .ident

def isPunct (t : Token) (s : String) : Bool := t.kind = .punct && t.value.same (.text s)

def isWord (t : Token) (s : String) : Bool := t.isIdent && t.value.same (.text s)

-- ---------------------------------------------------------------------------
-- What a token is, by its kind and value
-- ---------------------------------------------------------------------------

theorem isIdent_iff {t : Token} : t.isIdent = true ↔ t.kind = .ident := by simp [isIdent]

theorem isEof_iff {t : Token} : t.isEof = true ↔ t.kind = .eof := by simp [isEof]

theorem isPunct_iff {t : Token} {s : String} :
    t.isPunct s = true ↔ t.kind = .punct ∧ t.value = .text s := by
  simp [isPunct, Value.same_text_iff]

theorem isWord_iff {t : Token} {s : String} :
    t.isWord s = true ↔ t.kind = .ident ∧ t.value = .text s := by
  simp [isWord, isIdent, Value.same_text_iff]

theorem isIdent_of_isWord {t : Token} {s : String} (h : t.isWord s = true) : t.isIdent = true :=
  isIdent_iff.2 (isWord_iff.1 h).1

theorem isEof_of_kind {t : Token} (h : t.kind ≠ .eof) : t.isEof = false := by simp [isEof, h]

theorem isIdent_of_kind {t : Token} (h : t.kind ≠ .ident) : t.isIdent = false := by
  simp [isIdent, h]

theorem isWord_of_kind {t : Token} {s : String} (h : t.kind ≠ .ident) : t.isWord s = false := by
  simp [isWord, isIdent, h]

theorem isPunct_of_kind {t : Token} {s : String} (h : t.kind ≠ .punct) : t.isPunct s = false := by
  simp [isPunct, h]

theorem isIdent_of_isPunct {t : Token} {s : String} (h : t.isPunct s = true) :
    t.isIdent = false :=
  isIdent_of_kind (by simp [(isPunct_iff.1 h).1])

theorem isEof_of_isPunct {t : Token} {s : String} (h : t.isPunct s = true) : t.isEof = false :=
  isEof_of_kind (by simp [(isPunct_iff.1 h).1])

theorem isWord_of_isPunct {t : Token} {s w : String} (h : t.isPunct s = true) :
    t.isWord w = false :=
  isWord_of_kind (by simp [(isPunct_iff.1 h).1])

theorem isPunct_of_isIdent {t : Token} {s : String} (h : t.isIdent = true) :
    t.isPunct s = false :=
  isPunct_of_kind (by simp [isIdent_iff.1 h])

theorem isEof_of_isIdent {t : Token} (h : t.isIdent = true) : t.isEof = false :=
  isEof_of_kind (by simp [isIdent_iff.1 h])

/-- A token is one punctuation mark at most. -/
theorem isPunct_of_ne {t : Token} {s s' : String} (h : t.isPunct s = true) (hs : s ≠ s') :
    t.isPunct s' = false := by
  rw [isPunct_iff] at h
  simp [isPunct, h, Value.same, hs]

theorem isWord_of_ne {t : Token} {s s' : String} (h : t.isWord s = true) (hs : s ≠ s') :
    t.isWord s' = false := by
  rw [isWord_iff] at h
  simp [isWord, isIdent, h, Value.same, hs]

-- ---------------------------------------------------------------------------
-- How messages show a token
-- ---------------------------------------------------------------------------

def describe (t : Token) : String :=
  if t.isEof then "end of input" else t.kind.name ++ " " ++ t.value.literal

def summary (t : Token) : String := "<Token " ++ t.kind.name ++ " " ++ t.value.literal ++ ">"

end Token

end Lia

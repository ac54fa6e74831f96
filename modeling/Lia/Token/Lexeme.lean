import Lia.Token

/-!
# Lexemes

The four lexical classes as predicates on spellings, and `munch`, which takes the
longest spelling at the head of a text. Main statements: nothing is lost and
something is taken (`munch_append`, `munch_length_lt`), and what is taken belongs
to its class (`munch_spells`).
-/

namespace Lia

-- ---------------------------------------------------------------------------
-- Characters
-- ---------------------------------------------------------------------------

/-- The only characters between tokens. -/
def isSpace (c : Char) : Bool := c = ' ' || c = '\t' || c = '\n' || c = '\r'

def isIdentStart (c : Char) : Bool := c.isAlpha || c = '_'

/-- Names go on over dots and quotes. -/
def isIdentChar (c : Char) : Bool := c.isAlphanum || c = '_' || c = '.' || c = '"'

def isPunctChar (c : Char) : Bool := "\x7b\x7d();,.+-*/><=".toList.contains c

def isPunctPair (c d : Char) : Bool :=
  d = '=' && "><=!".toList.contains c || c = '=' && d = '>'

-- ---------------------------------------------------------------------------
-- The classes
-- ---------------------------------------------------------------------------

def isPunctText : List Char → Bool
  | [c] => isPunctChar c
  | [c, d] => isPunctPair c d
  | _ => false

def isIdentText : List Char → Bool
  | [] => false
  | c :: s => isIdentStart c && s.all isIdentChar

def isStringText : List Char → Bool
  | '"' :: s => decide (s.getLast? = some '"') && s.dropLast.all (· ≠ '"')
  | _ => false

/-- Digits, and maybe a point and more digits. -/
def isNumberText (s : List Char) : Bool :=
  let whole := s.takeWhile Char.isDigit
  !whole.isEmpty &&
    match s.dropWhile Char.isDigit with
    | [] => true
    | c :: fraction => c = '.' && !fraction.isEmpty && fraction.all Char.isDigit

def TokenKind.spells : TokenKind → List Char → Bool
  | .punct => isPunctText
  | .ident => isIdentText
  | .string => isStringText
  | .number => isNumberText
  | _ => fun _ => false

-- ---------------------------------------------------------------------------
-- The longest lexeme
-- ---------------------------------------------------------------------------

structure Munch where
  kind : TokenKind
  text : List Char
  rest : List Char

/-- The digits at the head, with a point if digits follow it. -/
def munchNumber (s : List Char) : Munch :=
  let whole := s.takeWhile Char.isDigit
  match s.dropWhile Char.isDigit with
  | '.' :: d :: rest =>
    if d.isDigit then
      ⟨.number, whole ++ '.' :: (d :: rest).takeWhile Char.isDigit, (d :: rest).dropWhile Char.isDigit⟩
    else ⟨.number, whole, '.' :: d :: rest⟩
  | rest => ⟨.number, whole, rest⟩

/-- A string up to its closing quote; the opening one has been taken. -/
def munchString (s : List Char) : Option Munch :=
  match s.dropWhile (· ≠ '"') with
  | [] => none
  | _ :: rest => some ⟨.string, '"' :: s.takeWhile (· ≠ '"') ++ ['"'], rest⟩

def munchPunct (c : Char) : List Char → Option Munch
  | d :: rest =>
    if isPunctPair c d then some ⟨.punct, [c, d], rest⟩
    else if isPunctChar c then some ⟨.punct, [c], d :: rest⟩
    else none
  | [] => if isPunctChar c then some ⟨.punct, [c], []⟩ else none

/-- The first character decides the class. -/
def munch : List Char → Option Munch
  | [] => none
  | c :: s =>
    if isIdentStart c then some ⟨.ident, c :: s.takeWhile isIdentChar, s.dropWhile isIdentChar⟩
    else if c.isDigit then some (munchNumber (c :: s))
    else if c = '"' then munchString s
    else munchPunct c s

-- ---------------------------------------------------------------------------
-- Laws
-- ---------------------------------------------------------------------------

theorem munchNumber_append (s : List Char) : (munchNumber s).text ++ (munchNumber s).rest = s := by
  have h := List.takeWhile_append_dropWhile (p := Char.isDigit) (l := s)
  unfold munchNumber
  simp only
  split
  next d rest hd =>
    split
    · conv => rhs; rw [← h, hd]
      simp only [List.append_assoc, List.cons_append, List.takeWhile_append_dropWhile]
    · rw [← hd]; exact h
  next => exact h

theorem munchString_append {s : List Char} {m : Munch} (h : munchString s = some m) :
    m.text ++ m.rest = '"' :: s := by
  have ha := List.takeWhile_append_dropWhile (p := (· ≠ '"')) (l := s)
  unfold munchString at h
  split at h
  · simp at h
  next c rest hd =>
    obtain rfl := Option.some.inj h
    have hc : c = '"' := by
      have := List.head?_dropWhile_not (· ≠ '"') s
      rw [hd] at this
      simpa using this
    subst hc
    conv => rhs; rw [← ha, hd]
    simp

theorem munchPunct_append {c : Char} {s : List Char} {m : Munch} (h : munchPunct c s = some m) :
    m.text ++ m.rest = c :: s := by
  cases s <;> simp only [munchPunct] at h
  · split at h
    · obtain rfl := Option.some.inj h; rfl
    · simp at h
  · split at h
    · obtain rfl := Option.some.inj h; rfl
    · split at h
      · obtain rfl := Option.some.inj h; rfl
      · simp at h

/-- Nothing is lost. -/
theorem munch_append {s : List Char} {m : Munch} (h : munch s = some m) : m.text ++ m.rest = s := by
  cases s with
  | nil => simp [munch] at h
  | cons c s =>
    simp only [munch] at h
    split at h
    · obtain rfl := Option.some.inj h
      simp [List.takeWhile_append_dropWhile]
    · split at h
      · obtain rfl := Option.some.inj h
        exact munchNumber_append _
      · split at h
        next hc => subst hc; exact munchString_append h
        next => exact munchPunct_append h

theorem munchNumber_text_ne_nil {s : List Char} (h : s.takeWhile Char.isDigit ≠ []) :
    (munchNumber s).text ≠ [] := by
  unfold munchNumber
  simp only
  split
  · split
    · simp
    · exact h
  · exact h

/-- Something is taken. -/
theorem munch_text_ne_nil {s : List Char} {m : Munch} (h : munch s = some m) : m.text ≠ [] := by
  cases s with
  | nil => simp [munch] at h
  | cons c s =>
    simp only [munch] at h
    split at h
    · obtain rfl := Option.some.inj h; simp
    · split at h
      next hd =>
        obtain rfl := Option.some.inj h
        exact munchNumber_text_ne_nil (by simp [hd])
      · split at h
        · unfold munchString at h
          split at h
          · simp at h
          · obtain rfl := Option.some.inj h; simp
        · cases s <;> simp only [munchPunct] at h <;> (repeat' split at h) <;>
            first
            | (obtain rfl := Option.some.inj h; simp)
            | simp at h

theorem munch_length_lt {s : List Char} {m : Munch} (h : munch s = some m) :
    m.rest.length < s.length := by
  have ha := congrArg List.length (munch_append h)
  have hn := List.length_pos_iff.2 (munch_text_ne_nil h)
  simp only [List.length_append] at ha
  omega

private theorem takeWhile_append_stop {p : Char → Bool} {w : List Char} {c : Char} {s : List Char}
    (hw : w.all p = true) (hc : p c = false) : (w ++ c :: s).takeWhile p = w := by
  rw [List.takeWhile_append_of_pos (by simpa using hw)]
  simp [hc]

private theorem dropWhile_append_stop {p : Char → Bool} {w : List Char} {c : Char} {s : List Char}
    (hw : w.all p = true) (hc : p c = false) : (w ++ c :: s).dropWhile p = c :: s := by
  rw [List.dropWhile_append_of_pos (by simpa using hw)]
  simp [hc]

theorem isNumberText_digits {w : List Char} (hne : w ≠ []) (hw : w.all Char.isDigit = true) :
    isNumberText w = true := by
  have hw' : ∀ c ∈ w, Char.isDigit c = true := by simpa using hw
  have h1 : w.takeWhile Char.isDigit = w := by
    have h : (w ++ []).takeWhile Char.isDigit = w ++ [] := List.takeWhile_append_of_pos hw'
    simpa using h
  have h2 : w.dropWhile Char.isDigit = [] := by
    have h : (w ++ []).dropWhile Char.isDigit = [] := List.dropWhile_append_of_pos hw'
    simpa using h
  simp [isNumberText, h1, h2, hne]

theorem isNumberText_fraction {w f : List Char} (hne : w ≠ []) (hw : w.all Char.isDigit = true)
    (fne : f ≠ []) (hf : f.all Char.isDigit = true) : isNumberText (w ++ '.' :: f) = true := by
  have h1 := takeWhile_append_stop (s := f) hw (show Char.isDigit '.' = false by decide)
  have h2 := dropWhile_append_stop (s := f) hw (show Char.isDigit '.' = false by decide)
  simpa [isNumberText, h1, h2, hne, fne] using hf

theorem munchNumber_spells {s : List Char} (h : s.takeWhile Char.isDigit ≠ []) :
    (munchNumber s).kind.spells (munchNumber s).text = true := by
  unfold munchNumber
  simp only
  split
  next d rest hd =>
    split
    next hdig =>
      exact isNumberText_fraction h List.all_takeWhile (by simp [hdig]) List.all_takeWhile
    · exact isNumberText_digits h List.all_takeWhile
  next => exact isNumberText_digits h List.all_takeWhile

/-- What is taken belongs to its class. -/
theorem munch_spells {s : List Char} {m : Munch} (h : munch s = some m) :
    m.kind.spells m.text = true := by
  cases s with
  | nil => simp [munch] at h
  | cons c s =>
    simp only [munch] at h
    split at h
    next hc =>
      obtain rfl := Option.some.inj h
      simp [TokenKind.spells, isIdentText, hc]
    · split at h
      next hd =>
        obtain rfl := Option.some.inj h
        exact munchNumber_spells (by simp [hd])
      · split at h
        · unfold munchString at h
          split at h
          · simp at h
          · obtain rfl := Option.some.inj h
            simp [TokenKind.spells, isStringText]
        · cases s <;> simp only [munchPunct] at h <;> (repeat' split at h) <;>
            first
            | (obtain rfl := Option.some.inj h; simpa [TokenKind.spells, isPunctText])
            | simp at h

end Lia

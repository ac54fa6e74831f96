import Lia.Token.Scan

/-!
# Texts that spell tokens

A lexeme is taken whole if nothing behind it goes on with it (`munch_spelling`), so a
text that spells tokens, with or without space between them, is split into these tokens
again (`Spelled.scan`). Only where the tokens stand is not part of it.
-/

namespace Lia

/-- The characters that no name, number or pair of marks goes on with. -/
def isBreak (c : Char) : Bool := isSpace c || "\x7b\x7d();,".toList.contains c

/-- No lexeme before the text goes on in it. -/
def Broken (s : List Char) : Prop := ∀ c ∈ s.head?, isBreak c = true

theorem isBreak_iff {c : Char} : isBreak c = true ↔
    c ∈ [' ', '\t', '\n', '\r', '\x7b', '\x7d', '(', ')', ';', ','] := by
  simp [isBreak, isSpace, or_assoc]

theorem forall_break {p : Char → Bool}
    (h : [' ', '\t', '\n', '\r', '\x7b', '\x7d', '(', ')', ';', ','].all p = true) {c : Char}
    (hc : isBreak c = true) : p c = true :=
  List.all_eq_true.1 h c (isBreak_iff.1 hc)

theorem isIdentChar_of_isBreak {c : Char} (h : isBreak c = true) : isIdentChar c = false := by
  simpa using forall_break (p := fun c => !isIdentChar c) (by decide) h

theorem isDigit_of_isBreak {c : Char} (h : isBreak c = true) : c.isDigit = false := by
  simpa using forall_break (p := fun c => !c.isDigit) (by decide) h

theorem isPunctPair_of_isBreak {c d : Char} (h : isBreak d = true) : isPunctPair c d = false := by
  have he : d ≠ '=' := by simpa using forall_break (p := fun c => c ≠ '=') (by decide) h
  have hg : d ≠ '>' := by simpa using forall_break (p := fun c => c ≠ '>') (by decide) h
  simp [isPunctPair, he, hg]

theorem broken_cons {c : Char} {s : List Char} (h : isBreak c = true) : Broken (c :: s) := by
  simpa [Broken] using h

-- ---------------------------------------------------------------------------
-- Single lexemes
-- ---------------------------------------------------------------------------

section
variable {p : Char → Bool} {w s : List Char}

theorem takeWhile_broken (hp : ∀ c, isBreak c = true → p c = false) (hs : Broken s) :
    s.takeWhile p = [] := by
  cases s with
  | nil => rfl
  | cons c s => simp [hp c (hs c rfl)]

theorem dropWhile_broken (hp : ∀ c, isBreak c = true → p c = false) (hs : Broken s) :
    s.dropWhile p = s := by
  cases s with
  | nil => rfl
  | cons c s => simp [hp c (hs c rfl)]

/-- A name goes on as far as it can. -/
theorem munch_ident_append (hw : isIdentText w = true) (s : List Char) :
    munch (w ++ s) = some ⟨.ident, w ++ s.takeWhile isIdentChar, s.dropWhile isIdentChar⟩ := by
  cases w with
  | nil => cases hw
  | cons c w =>
    obtain ⟨hc, hw⟩ := Bool.and_eq_true_iff.1 hw
    have hw : ∀ d ∈ w, isIdentChar d = true := List.all_eq_true.1 hw
    rw [List.cons_append, munch, if_pos hc, List.takeWhile_append_of_pos hw,
      List.dropWhile_append_of_pos hw, List.cons_append]

theorem munch_ident (hw : isIdentText w = true) (hs : Broken s) :
    munch (w ++ s) = some ⟨.ident, w, s⟩ := by
  rw [munch_ident_append hw, takeWhile_broken (fun _ => isIdentChar_of_isBreak) hs,
    dropWhile_broken (fun _ => isIdentChar_of_isBreak) hs, List.append_nil]

/-- A number is digits, or digits around a point. -/
theorem isNumberText_cases (hw : isNumberText w = true) :
    ∃ ds, ds ≠ [] ∧ (∀ c ∈ ds, c.isDigit = true) ∧
      (w = ds ∨ ∃ fs, fs ≠ [] ∧ (∀ c ∈ fs, c.isDigit = true) ∧ w = ds ++ '.' :: fs) := by
  obtain ⟨hne, hrest⟩ := Bool.and_eq_true_iff.1 hw
  have happend := List.takeWhile_append_dropWhile (p := Char.isDigit) (l := w)
  refine ⟨w.takeWhile Char.isDigit, by simpa using hne, List.all_eq_true.1 List.all_takeWhile, ?_⟩
  split at hrest
  next hd =>
    rw [hd, List.append_nil] at happend
    exact .inl happend.symm
  next c fs hd =>
    simp only [Bool.and_eq_true, decide_eq_true_eq, Bool.not_eq_true',
      List.isEmpty_eq_false_iff] at hrest
    obtain ⟨⟨rfl, hfs⟩, hall⟩ := hrest
    rw [hd] at happend
    exact .inr ⟨fs, hfs, List.all_eq_true.1 hall, happend.symm⟩

theorem munchNumber_digits (hw : ∀ c ∈ w, c.isDigit = true) (hs : Broken s) :
    munchNumber (w ++ s) = ⟨.number, w, s⟩ := by
  unfold munchNumber
  simp only [List.takeWhile_append_of_pos hw, List.dropWhile_append_of_pos hw,
    takeWhile_broken (fun _ => isDigit_of_isBreak) hs,
    dropWhile_broken (fun _ => isDigit_of_isBreak) hs, List.append_nil]
  split
  next d rest => exact absurd (hs '.' rfl) (by decide)
  next => rfl

/-- A fraction goes on as far as it can. -/
theorem munchNumber_point_append {ds fs : List Char} (hd : ∀ c ∈ ds, c.isDigit = true)
    (hne : fs ≠ []) (hf : ∀ c ∈ fs, c.isDigit = true) (s : List Char) :
    munchNumber (ds ++ '.' :: fs ++ s) =
      ⟨.number, ds ++ '.' :: fs ++ s.takeWhile Char.isDigit, s.dropWhile Char.isDigit⟩ := by
  have hpoint : ('.' :: (fs ++ s)).takeWhile Char.isDigit = [] ∧
      ('.' :: (fs ++ s)).dropWhile Char.isDigit = '.' :: (fs ++ s) := ⟨rfl, rfl⟩
  unfold munchNumber
  rw [List.append_assoc, List.cons_append, List.takeWhile_append_of_pos hd,
    List.dropWhile_append_of_pos hd, hpoint.1, hpoint.2, List.append_nil]
  cases fs with
  | nil => exact absurd rfl hne
  | cons f fs =>
    simp only [List.cons_append, hf f (by simp), if_true]
    rw [← List.cons_append, List.takeWhile_append_of_pos hf, List.dropWhile_append_of_pos hf]
    simp

theorem munchNumber_point {ds fs : List Char} (hd : ∀ c ∈ ds, c.isDigit = true) (hne : fs ≠ [])
    (hf : ∀ c ∈ fs, c.isDigit = true) (hs : Broken s) :
    munchNumber (ds ++ '.' :: fs ++ s) = ⟨.number, ds ++ '.' :: fs, s⟩ := by
  rw [munchNumber_point_append hd hne hf, takeWhile_broken (fun _ => isDigit_of_isBreak) hs,
    dropWhile_broken (fun _ => isDigit_of_isBreak) hs, List.append_nil]

theorem isIdentStart_of_isDigit {c : Char} (h : c.isDigit = true) : isIdentStart c = false := by
  simp only [Char.isDigit, Bool.and_eq_true, decide_eq_true_eq] at h
  have h9 : c.toNat ≤ 0x39 := UInt32.le_iff_toNat_le.1 h.2
  have hlarge {a : Char} (ha : 0x39 < a.toNat) : ¬ a.val ≤ c.val := by
    intro hle
    have := UInt32.le_iff_toNat_le.1 hle
    exact absurd (Nat.lt_of_lt_of_le ha this) (Nat.not_lt.2 h9)
  have hupper : c.isUpper = false := decide_eq_false fun hc => hlarge (a := 'A') (by decide) hc.1
  have hlower : c.isLower = false :=
    Bool.and_eq_false_iff.2 (.inl (decide_eq_false (hlarge (a := 'a') (by decide))))
  have halpha : c.isAlpha = false := Bool.or_eq_false_iff.2 ⟨hupper, hlower⟩
  rw [isIdentStart, halpha, Bool.false_or, decide_eq_false_iff_not]
  rintro rfl
  exact absurd h9 (by decide)

theorem munch_eq_munchNumber (hw : isNumberText w = true) (s : List Char) :
    munch (w ++ s) = some (munchNumber (w ++ s)) := by
  obtain ⟨ds, hne, hd, hw⟩ := isNumberText_cases hw
  obtain ⟨c, w', rfl, hc⟩ : ∃ c w', w = c :: w' ∧ c.isDigit = true := by
    cases ds with
    | nil => exact absurd rfl hne
    | cons c ds =>
      obtain rfl | ⟨fs, -, -, rfl⟩ := hw
      · exact ⟨c, ds, rfl, hd c (by simp)⟩
      · exact ⟨c, _, rfl, hd c (by simp)⟩
  rw [List.cons_append, munch, isIdentStart_of_isDigit hc, if_neg Bool.false_ne_true, if_pos hc]

theorem munch_number (hw : isNumberText w = true) (hs : Broken s) :
    munch (w ++ s) = some ⟨.number, w, s⟩ := by
  rw [munch_eq_munchNumber hw]
  obtain ⟨ds, -, hd, rfl | ⟨fs, hfs, hf, rfl⟩⟩ := isNumberText_cases hw
  · rw [munchNumber_digits hd hs]
  · rw [munchNumber_point hd hfs hf hs]

theorem isStringText_cases (hw : isStringText w = true) :
    ∃ inner, w = '"' :: inner ++ ['"'] ∧ ∀ c ∈ inner, c ≠ '"' := by
  cases w with
  | nil => cases hw
  | cons c w =>
    obtain rfl : c = '"' := by
      simp only [isStringText] at hw
      split at hw
      next h => cases h; rfl
      next => cases hw
    simp only [isStringText, Bool.and_eq_true, decide_eq_true_eq] at hw
    obtain ⟨hlast, hinner⟩ := hw
    obtain ⟨inner, rfl⟩ := List.getLast?_eq_some_iff.1 hlast
    rw [List.dropLast_concat] at hinner
    exact ⟨inner, rfl, by simpa using hinner⟩

theorem munch_string (hw : isStringText w = true) : munch (w ++ s) = some ⟨.string, w, s⟩ := by
  obtain ⟨inner, rfl, hinner⟩ := isStringText_cases hw
  have hinner : ∀ c ∈ inner, decide (c ≠ '"') = true := fun c hc => decide_eq_true (hinner c hc)
  have hquote : munchString (inner ++ '"' :: s) = some ⟨.string, '"' :: inner ++ ['"'], s⟩ := by
    unfold munchString
    rw [List.dropWhile_append_of_pos hinner, List.takeWhile_append_of_pos hinner]
    simp
  rw [List.cons_append, List.cons_append, List.append_assoc, List.singleton_append, munch,
    if_neg (by decide), if_neg (by decide), if_pos rfl, hquote]
  rfl

/-- An integer with more digits than one may have. -/
def IsTooLong (w : List Char) : Prop := w.all Char.isDigit = true ∧ maxIntegerDigits < w.length

theorem numberValue_of_tooLong (h : IsTooLong w) :
    numberValue w = .error (.integerTooLong w.length) := by
  have hdrop : (w ++ []).dropWhile Char.isDigit = [] :=
    List.dropWhile_append_of_pos (List.all_eq_true.1 h.1)
  rw [List.append_nil] at hdrop
  rw [numberValue, hdrop]
  exact if_pos h.2

theorem exists_numberValue (h : ¬ IsTooLong w) : ∃ n, numberValue w = .ok n := by
  unfold numberValue
  split
  next hd =>
    have hw := List.takeWhile_append_dropWhile (p := Char.isDigit) (l := w)
    rw [hd, List.append_nil] at hw
    have hall : w.all Char.isDigit = true := by rw [← hw]; exact List.all_takeWhile
    exact ⟨_, if_neg fun hlen => h ⟨hall, hlen⟩⟩
  next => exact ⟨_, rfl⟩

theorem lexemeValue_number {v : Value} (h : lexemeValue .number w = .ok v) :
    ∃ n, numberValue w = .ok n ∧ v = .number n := by
  cases hn : numberValue w with
  | error => rw [lexemeValue, hn] at h; cases h
  | ok n =>
    rw [lexemeValue, hn] at h
    exact ⟨n, rfl, (Except.ok.inj h).symm⟩

theorem lexemeValue_string (inner : List Char) :
    lexemeValue .string ('"' :: inner ++ ['"']) = .ok (.text (String.ofList inner)) := by
  simp [lexemeValue]

/-- Space, and what a mark can begin with. -/
def isMarkStart (c : Char) : Bool := " \t\n\r\x7b\x7d();,.+-*/><=!".toList.contains c

/-- Only these begin a pair of marks. -/
def isPairStart (c : Char) : Bool := "><=!".toList.contains c

theorem of_contains {l : List Char} (h : l.all p = true) {c : Char} (hc : l.contains c = true) :
    p c = true :=
  List.all_eq_true.1 h c (List.contains_iff_mem.1 hc)

theorem munch_eq_munchPunct {c : Char} (h : isMarkStart c = true) :
    munch (c :: s) = munchPunct c s := by
  have hc : (!isIdentStart c && !c.isDigit && c != '"') = true :=
    of_contains (p := fun c => !isIdentStart c && !c.isDigit && c != '"') (by decide) h
  simp only [Bool.and_eq_true, Bool.not_eq_true', bne_iff_ne] at hc
  obtain ⟨⟨hi, hd⟩, hq⟩ := hc
  rw [munch, hi, if_neg Bool.false_ne_true, hd, if_neg Bool.false_ne_true, if_neg hq]

theorem munchPunct_single {c : Char} (hc : isPunctChar c = true)
    (hs : ∀ d ∈ s.head?, isPunctPair c d = false) : munchPunct c s = some ⟨.punct, [c], s⟩ := by
  cases s with
  | nil => rw [munchPunct, if_pos hc]
  | cons d s => rw [munchPunct, hs d rfl, if_neg Bool.false_ne_true, if_pos hc]

theorem isMarkStart_of_isPunctChar {c : Char} (h : isPunctChar c = true) : isMarkStart c = true :=
  of_contains (by decide) h

theorem isPairStart_of_isPunctPair {c d : Char} (h : isPunctPair c d = true) :
    isPairStart c = true := by
  rw [isPunctPair, Bool.or_eq_true, Bool.and_eq_true, Bool.and_eq_true] at h
  obtain ⟨-, hc⟩ | ⟨hc, -⟩ := h
  · exact hc
  · obtain rfl := of_decide_eq_true hc
    rfl

theorem isPunctPair_eq_false {c : Char} (h : (!isPairStart c) = true) (d : Char) :
    isPunctPair c d = false := by
  rw [Bool.eq_false_iff]
  intro hp
  rw [isPairStart_of_isPunctPair hp] at h
  cases h

theorem munch_punct (hw : isPunctText w = true) (hs : Broken s) :
    munch (w ++ s) = some ⟨.punct, w, s⟩ := by
  match w, hw with
  | [c], hc =>
    rw [List.singleton_append, munch_eq_munchPunct (isMarkStart_of_isPunctChar hc)]
    exact munchPunct_single hc fun d hd => isPunctPair_of_isBreak (hs d hd)
  | [c, d], hp =>
    change isPunctPair c d = true at hp
    rw [List.cons_append, List.singleton_append,
      munch_eq_munchPunct (of_contains (by decide) (isPairStart_of_isPunctPair hp)), munchPunct,
      if_pos hp]

theorem munch_spelling {k : TokenKind} (hw : k.spells w = true) (hs : Broken s) :
    munch (w ++ s) = some ⟨k, w, s⟩ := by
  cases k with
  | punct => exact munch_punct hw hs
  | ident => exact munch_ident hw hs
  | string => exact munch_string hw
  | number => exact munch_number hw hs
  | eof | other => cases hw

/-- A spelling belongs to one class only. -/
theorem TokenKind.spells_unique {k k' : TokenKind} (h : k.spells w = true)
    (h' : k'.spells w = true) : k = k' := by
  have hbroken : Broken [] := nofun
  have hm := munch_spelling h hbroken
  rw [munch_spelling h' hbroken] at hm
  exact (Munch.mk.inj (Option.some.inj hm)).1.symm

/-- Only an integer may have no value. -/
theorem lexemeValue_cases {k : TokenKind} (hw : k.spells w = true) :
    (IsTooLong w ∧ lexemeValue k w = .error (.integerTooLong w.length)) ∨
      (¬ IsTooLong w ∧ ∃ v, lexemeValue k w = .ok v) := by
  by_cases ht : IsTooLong w
  · have hne : w ≠ [] := by
      rintro rfl
      cases ht.2
    obtain rfl : k = .number := TokenKind.spells_unique hw (isNumberText_digits hne ht.1)
    rw [lexemeValue, numberValue_of_tooLong ht]
    exact .inl ⟨ht, rfl⟩
  · refine .inr ⟨ht, ?_⟩
    cases k with
    | number =>
      obtain ⟨n, hn⟩ := exists_numberValue ht
      exact ⟨.number n, by rw [lexemeValue, hn]; rfl⟩
    | _ => exact ⟨_, rfl⟩

/-- No lexeme begins with space. -/
theorem munch_space {c : Char} (hc : isSpace c = true) : munch (c :: s) = none := by
  have hc : " \t\n\r".toList.contains c = true := by simpa [isSpace, or_assoc] using hc
  have hp : (!isPunctChar c) = true := of_contains (p := fun c => !isPunctChar c) (by decide) hc
  have hp : isPunctChar c = false := by simpa using hp
  have hpair := isPunctPair_eq_false (of_contains (p := fun c => !isPairStart c) (by decide) hc)
  rw [munch_eq_munchPunct (of_contains (by decide) hc)]
  cases s with
  | nil => rw [munchPunct, hp, if_neg Bool.false_ne_true]
  | cons d s => rw [munchPunct, hpair, if_neg Bool.false_ne_true, hp, if_neg Bool.false_ne_true]

end

-- ---------------------------------------------------------------------------
-- Texts
-- ---------------------------------------------------------------------------

/-- The token wherever it stands. -/
def Token.unplaced (t : Token) : Token := { t with pos := none }

/-- The text is the spellings of the tokens, each taken whole, with space around them. -/
inductive Spelled : List Token → List Char → Prop
  | nil : Spelled [] []
  | space {c : Char} (hc : isSpace c = true) (h : Spelled ts s) : Spelled ts (c :: s)
  | lexeme {k : TokenKind} {v : Value} (hm : munch (w ++ s) = some ⟨k, w, s⟩)
      (hv : lexemeValue k w = .ok v) (h : Spelled ts s) :
      Spelled (⟨k, v, none, String.ofList w⟩ :: ts) (w ++ s)

/-- The text from an offset on is scanned as the tokens, one lexeme after another. -/
inductive Scanned : Nat → List Char → List Token → Prop
  | eof : Scanned offset [] [Token.eof offset]
  | space {c : Char} (hc : isSpace c = true) (h : Scanned (offset + 1) s ts) :
      Scanned offset (c :: s) ts
  | lexeme {m : Munch} {v : Value} (hm : munch s = some m) (hv : lexemeValue m.kind m.text = .ok v)
      (h : Scanned (offset + m.text.length) m.rest ts) :
      Scanned offset s (⟨m.kind, v, some offset, String.ofList m.text⟩ :: ts)

variable {ts us : List Token} {s : List Char}

theorem scan_space {c : Char} (hc : isSpace c = true) (offset : Nat) :
    Lia.scan offset (c :: s) = Lia.scan (offset + 1) s := by
  rw [scan, if_pos hc]

theorem scan_lexeme {m : Munch} (hm : munch s = some m) (offset : Nat) :
    scan offset s = (do
      let value ← lexemeValue m.kind m.text
      let tokens ← scan (offset + m.text.length) m.rest
      return ⟨m.kind, value, some offset, String.ofList m.text⟩ :: tokens) := by
  cases s with
  | nil => cases hm
  | cons c s =>
    have hc : isSpace c ≠ true := fun hc => by rw [munch_space hc] at hm; cases hm
    rw [scan, if_neg hc]
    split
    next h => rw [hm] at h; cases h
    next m' h =>
      obtain rfl : m = m' := Option.some.inj (hm.symm.trans h)
      rfl

theorem scan_munch {m : Munch} {v : Value} {offset : Nat} (hm : munch s = some m)
    (hv : lexemeValue m.kind m.text = .ok v)
    (hts : scan (offset + m.text.length) m.rest = .ok ts) :
    scan offset s = .ok (⟨m.kind, v, some offset, String.ofList m.text⟩ :: ts) := by
  rw [scan_lexeme hm, hv, hts]
  rfl

theorem Scanned.of_scan {offset : Nat} (h : scan offset s = .ok ts) : Scanned offset s ts := by
  fun_induction Lia.scan offset s generalizing ts with
  | case1 => cases h; exact .eof
  | case2 offset c rest hc ih => exact .space hc (ih h)
  | case3 => cases h
  | case4 offset c rest hc m hm ih =>
    cases hv : lexemeValue m.kind m.text with
    | error => rw [hv] at h; cases h
    | ok v =>
      cases hts : scan (offset + m.text.length) m.rest with
      | error => rw [hv, hts] at h; cases h
      | ok us =>
        rw [hv, hts] at h
        cases h
        exact .lexeme hm hv (ih hts)

namespace Spelled

theorem scan (h : Spelled ts s) (offset : Nat) :
    ∃ us, Lia.scan offset s = .ok us ∧ us.map Token.unplaced = ts ++ [(Token.eof 0).unplaced] := by
  induction h generalizing offset with
  | nil => exact ⟨[Token.eof offset], by rw [Lia.scan], rfl⟩
  | space hc _ ih =>
    rw [scan_space hc]
    exact ih (offset + 1)
  | @lexeme w s ts k v hm hv _ ih =>
    obtain ⟨us, hus, hts⟩ := ih (offset + w.length)
    refine ⟨_, scan_munch hm hv hus, ?_⟩
    rw [List.map_cons, hts]
    rfl

theorem tokenize {text : String} (h : Spelled ts text.toList) :
    ∃ us, Lia.tokenize text = .ok us ∧ us.map Token.unplaced = ts ++ [(Token.eof 0).unplaced] :=
  h.scan 0

end Spelled

theorem Scanned.spelled {offset : Nat} (h : Scanned offset s us) :
    ∃ ts, Spelled ts s ∧ us.map Token.unplaced = ts ++ [(Token.eof 0).unplaced] := by
  induction h with
  | eof => exact ⟨[], .nil, rfl⟩
  | space hc _ ih =>
    obtain ⟨ts, hs, hts⟩ := ih
    exact ⟨ts, .space hc hs, hts⟩
  | lexeme hm hv _ ih =>
    obtain ⟨ts, hs, hts⟩ := ih
    obtain rfl := munch_append hm
    exact ⟨_, .lexeme hm hv hs, by rw [List.map_cons, hts]; rfl⟩

theorem exists_spelled {text : String} (h : Lia.tokenize text = .ok us) :
    ∃ ts, Spelled ts text.toList ∧ us.map Token.unplaced = ts ++ [(Token.eof 0).unplaced] :=
  (Scanned.of_scan h).spelled

-- ---------------------------------------------------------------------------
-- Texts made of tokens
-- ---------------------------------------------------------------------------

/-- The token is what its own text spells. -/
structure Token.Spelt (t : Token) : Prop where
  spells : t.kind.spells t.text.toList = true
  value : lexemeValue t.kind t.text.toList = .ok t.value
  unplaced : t.pos = none

def Token.word (w : String) : Token := ⟨.ident, .text w, none, w⟩

/-- One of the marks that never begin a pair. -/
def Token.mark (c : Char) : Token := .of .punct (.text (String.singleton c)) none

theorem munch_mark {c : Char} (hc : "\x7b\x7d();,".toList.contains c = true) :
    munch (c :: s) = some ⟨.punct, [c], s⟩ := by
  have hp : isPunctChar c = true := of_contains (by decide) hc
  have hpair := isPunctPair_eq_false (of_contains (p := fun c => !isPairStart c) (by decide) hc)
  rw [munch_eq_munchPunct (isMarkStart_of_isPunctChar hp)]
  exact munchPunct_single hp fun d _ => hpair d

theorem Token.spelt_word {w : String} (hw : isIdentText w.toList = true) : (word w).Spelt :=
  ⟨hw, by simp [word, lexemeValue], rfl⟩

/-- What is scanned is lexemes with their values, and the end of the text behind them. -/
theorem Scanned.spelt {offset : Nat} (h : Scanned offset s ts) :
    ∃ us, ts = us ++ [Token.eof (offset + s.length)] ∧ ∀ t ∈ us, t.unplaced.Spelt := by
  induction h with
  | eof => exact ⟨[], rfl, nofun⟩
  | space _ _ ih =>
    rw [List.length_cons, ← Nat.add_assoc, Nat.add_right_comm]
    exact ih
  | lexeme hm hv _ ih =>
    obtain ⟨us, rfl, hus⟩ := ih
    rw [← munch_append hm, List.length_append, ← Nat.add_assoc]
    refine ⟨_ :: us, rfl, List.forall_mem_cons.2 ⟨⟨?_, ?_, rfl⟩, hus⟩⟩
    · simpa [Token.unplaced] using munch_spells hm
    · simpa [Token.unplaced] using hv

theorem tokenize_spelt {text : String} (h : Lia.tokenize text = .ok ts) :
    ∃ us, ts = us ++ [Token.eof text.length] ∧ ∀ t ∈ us, t.unplaced.Spelt := by
  obtain ⟨us, hts, hus⟩ := (Scanned.of_scan h).spelt
  rw [Nat.zero_add, String.length_toList] at hts
  exact ⟨us, hts, hus⟩

theorem lexemeValue_isHashable {w : List Char} {k : TokenKind} {v : Value}
    (h : lexemeValue k w = .ok v) : v.isHashable = true := by
  cases k with
  | number =>
    obtain ⟨n, -, rfl⟩ := lexemeValue_number h
    rfl
  | _ =>
    cases h
    rfl

/-- What a source has for a name can be looked up: no token of it is a list or a record. -/
theorem tokenize_isHashable {text : String} (h : Lia.tokenize text = .ok ts) :
    ∀ t ∈ ts, t.value.isHashable = true := by
  obtain ⟨us, rfl, hus⟩ := tokenize_spelt h
  intro t ht
  obtain ht | ht := List.mem_append.1 ht
  · exact lexemeValue_isHashable (hus t ht).value
  · obtain rfl := List.mem_singleton.1 ht
    rfl

namespace Spelled

theorem token {t : Token} (ht : t.Spelt) (hs : Broken s) (h : Spelled ts s) :
    Spelled (t :: ts) (t.text.toList ++ s) := by
  obtain ⟨k, v, pos, w⟩ := t
  obtain ⟨hw, hv, rfl⟩ := ht
  have h := h.lexeme (munch_spelling hw hs) hv
  rwa [String.ofList_toList] at h

theorem word {w : String} (hw : isIdentText w.toList = true) (hs : Broken s) (h : Spelled ts s) :
    Spelled (Token.word w :: ts) (w.toList ++ s) :=
  token (Token.spelt_word hw) hs h

theorem mark {c : Char} (hc : "\x7b\x7d();,".toList.contains c = true) (h : Spelled ts s) :
    Spelled (Token.mark c :: ts) (c :: s) :=
  h.lexeme (munch_mark hc) rfl

theorem gap {l : List Char} (hl : ∀ c ∈ l, isSpace c = true) (h : Spelled ts s) :
    Spelled ts (l ++ s) := by
  induction l with
  | nil => exact h
  | cons c l ih => exact .space (hl c (by simp)) (ih fun d hd => hl d (.tail _ hd))

/-- Tokens with the same separator between any two. -/
theorem separated (sep : String) (between : List Token) {items : List Token}
    (hsep : ∀ us s, Spelled us s → Spelled (between ++ us) (sep.toList ++ s))
    (hb : ∀ s, Broken (sep.toList ++ s)) (hi : ∀ t ∈ items, t.Spelt) (hs : Broken s)
    (h : Spelled ts s) :
    Spelled (between.intercalate (items.map ([·])) ++ ts)
      ((sep.intercalate (items.map Token.text)).toList ++ s) := by
  induction items with
  | nil => exact h
  | cons t items ih =>
    have ht := hi t (by simp)
    cases items with
    | nil => simpa using token ht hs h
    | cons t' items =>
      have ih := hsep _ _ (ih fun t ht => hi t (.tail _ ht))
      simpa using token ht (hb _) ih

theorem intercalate_nil (ts : List Token) : [].intercalate (ts.map ([·])) = ts := by
  induction ts with
  | nil => rfl
  | cons t ts ih =>
    cases ts with
    | nil => rfl
    | cons t' ts => simpa using ih

/-- Tokens with one space between any two. -/
theorem words {items : List Token} (hi : ∀ t ∈ items, t.Spelt) (hs : Broken s)
    (h : Spelled ts s) :
    Spelled (items ++ ts) ((" ".intercalate (items.map Token.text)).toList ++ s) := by
  have h := separated " " [] (fun us s h => .space rfl h) (fun s => broken_cons rfl) hi hs h
  rwa [intercalate_nil] at h

end Spelled

end Lia

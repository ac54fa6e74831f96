import Mathlib.Data.List.TakeWhile
import Lia.Proofs.Number.Plain
import Lia.Proofs.Token.Spelled

/-!
# Tokens are the longest lexemes

A source is cut into lexemes in one way only, if each is to be the longest at its place
and nothing but space stands between them. `Tokenization` says what such a list of tokens
is, by places in the source. Main statement: it is what `tokenize` gives and nothing else
(`tokenization_iff`).
-/

namespace Lia

-- ---------------------------------------------------------------------------
-- The longest lexeme
-- ---------------------------------------------------------------------------

section
variable {w s : List Char}

theorem munch_number_append (hw : isNumberText w = true) (s : List Char) :
    ∃ v s', munch (w ++ s) = some ⟨.number, w ++ v, s'⟩ := by
  rw [munch_eq_munchNumber hw]
  obtain ⟨ds, -, hd, rfl | ⟨fs, hfs, hf, rfl⟩⟩ := isNumberText_cases hw
  · unfold munchNumber
    simp only [List.takeWhile_append_of_pos hd, List.dropWhile_append_of_pos hd, List.append_assoc]
    -- Digits may follow, and a point with digits behind it.
    split
    next =>
      split
      · exact ⟨_, _, rfl⟩
      · exact ⟨_, _, rfl⟩
    next => exact ⟨_, _, rfl⟩
  · exact ⟨_, _, congrArg some (munchNumber_point_append hd hfs hf s)⟩

theorem munch_punct_append (hw : isPunctText w = true) (s : List Char) :
    ∃ v s', munch (w ++ s) = some ⟨.punct, w ++ v, s'⟩ := by
  match w, hw with
  | [c], hc =>
    rw [List.singleton_append, munch_eq_munchPunct (isMarkStart_of_isPunctChar hc)]
    cases s with
    | nil => exact ⟨[], [], munchPunct_single hc nofun⟩
    | cons d s =>
      cases hp : isPunctPair c d with
      | true => exact ⟨[d], s, by rw [munchPunct, if_pos hp, List.singleton_append]⟩
      | false => exact ⟨[], d :: s, munchPunct_single hc (by simpa using hp)⟩
  | [c, d], hp =>
    change isPunctPair c d = true at hp
    refine ⟨[], s, ?_⟩
    rw [List.cons_append, List.singleton_append,
      munch_eq_munchPunct (of_contains (by decide) (isPairStart_of_isPunctPair hp)), munchPunct,
      if_pos hp, List.append_nil]

/-- Behind a spelling of a class a text may go on with it, and then in the same class. -/
theorem munch_spells_append {k : TokenKind} (hw : k.spells w = true) (s : List Char) :
    ∃ v s', munch (w ++ s) = some ⟨k, w ++ v, s'⟩ := by
  cases k with
  | punct => exact munch_punct_append hw s
  | ident => exact ⟨_, _, munch_ident_append hw s⟩
  | string => exact ⟨[], s, by rw [munch_string hw, List.append_nil]⟩
  | number => exact munch_number_append hw s
  | eof | other => cases hw

/-- No spelling at the head of a text is longer than what is taken. -/
theorem munch_longest {m : Munch} (hm : munch s = some m) {k : TokenKind}
    (hw : k.spells w = true) (hp : w <+: s) : w.length ≤ m.text.length := by
  obtain ⟨r, rfl⟩ := hp
  obtain ⟨v, r', hm'⟩ := munch_spells_append hw r
  rw [hm] at hm'
  cases hm'
  simp

end

-- ---------------------------------------------------------------------------
-- What lexemes mean
-- ---------------------------------------------------------------------------

/-- Digits denote an integer, and digits around a point the nearest binary64 number. -/
inductive Denotes : List Char → Number → Prop
  | int (hw : ∀ c ∈ w, c.isDigit = true) : Denotes w (.int (Nat.ofDigitChars 10 w 0))
  | float (hw : ∀ c ∈ w, c.isDigit = true) :
      Denotes (w ++ '.' :: f)
        (.float ((Decimal.mk (Nat.ofDigitChars 10 (w ++ f) 0) (-f.length)).toBinary64 false))

/-- The value of a spelling of a class. -/
inductive TokenKind.Reads : TokenKind → List Char → Value → Prop
  | punct : Reads .punct w (.text (String.ofList w))
  | ident : Reads .ident w (.text (String.ofList w))
  | string : Reads .string ('"' :: w ++ ['"']) (.text (String.ofList w))
  | number (h : Denotes w n) : Reads .number w (.number n)

theorem Denotes.of_numberValue {w : List Char} {n : Number} (hw : isNumberText w = true)
    (h : numberValue w = .ok n) : Denotes w n := by
  obtain ⟨ds, -, hd, rfl | ⟨fs, -, -, rfl⟩⟩ := isNumberText_cases hw
  · have hdrop : w.dropWhile Char.isDigit = [] := List.dropWhile_eq_nil_iff.2 hd
    rw [numberValue, hdrop] at h
    dsimp only at h
    split at h
    next => cases h
    next => cases h; exact .int hd
  · rw [numberValue_point hd] at h
    cases h
    exact .float hd

theorem Denotes.unique {w : List Char} {n m : Number} (hn : Denotes w n) (hm : Denotes w m) :
    n = m := by
  have hpoint {ds fs : List Char} (h : ∀ c ∈ ds ++ '.' :: fs, c.isDigit = true) : False :=
    absurd (h '.' (by simp)) (by decide)
  cases hn with
  | int hw =>
    cases hm with
    | int => rfl
    | float => exact (hpoint hw).elim
  | @float ds fs hw =>
    have hn := numberValue_point (f := fs) hw
    generalize hs : ds ++ '.' :: fs = s at hn hm
    cases hm with
    | int hw' => subst hs; exact (hpoint hw').elim
    | float hw' =>
      rw [numberValue_point hw'] at hn
      exact (Except.ok.inj hn).symm

namespace TokenKind

variable {k : TokenKind} {w : List Char} {v v' : Value}

theorem Reads.of_lexemeValue (hw : k.spells w = true) (h : lexemeValue k w = .ok v) : k.Reads w v := by
  cases k with
  | punct => cases h; exact .punct
  | ident => cases h; exact .ident
  | string =>
    obtain ⟨inner, rfl, -⟩ := isStringText_cases hw
    obtain rfl := Except.ok.inj ((lexemeValue_string inner).symm.trans h)
    exact .string
  | number =>
    obtain ⟨n, hn, rfl⟩ := lexemeValue_number h
    exact .number (.of_numberValue hw hn)
  | eof | other => cases hw

theorem Reads.unique (h : k.Reads w v) (h' : k.Reads w v') : v = v' := by
  cases h with
  | punct | ident => cases h'; rfl
  | number hn =>
    cases h' with
    | number hm => rw [hn.unique hm]
  | @string w =>
    generalize hs : '"' :: w ++ ['"'] = s at h'
    cases h' with
    | string =>
      obtain rfl := List.append_cancel_right (List.cons.inj hs).2
      rfl

end TokenKind

-- ---------------------------------------------------------------------------
-- Lexemes at their places
-- ---------------------------------------------------------------------------

/-- The token is the longest lexeme at a place of the text. -/
structure Token.LongestAt (s : List Char) (p : Nat) (t : Token) : Prop where
  pos : t.pos = some p
  text : (s.drop p).take t.text.length = t.text.toList
  spells : t.kind.spells t.text.toList = true
  longest : ∀ (k : TokenKind) w, k.spells w = true → w <+: s.drop p → w.length ≤ t.text.length
  value : t.kind.Reads t.text.toList t.value

/-- The place is inside the token. -/
def Token.Covers (t : Token) (i : Nat) : Prop := ∃ p ∈ t.pos, p ≤ i ∧ i < p + t.text.length

/-- Longest lexemes in order, from a place on, and only space outside them. -/
structure Segmentation (s : List Char) (start : Nat) (ts : List Token) : Prop where
  longest : ∀ t ∈ ts, ∃ p, start ≤ p ∧ t.LongestAt s p
  ordered : ts.Pairwise fun t u => ∀ p ∈ t.pos, ∀ q ∈ u.pos, p < q ∧ p + t.text.length ≤ q
  space : ∀ (i : Nat) (h : i < s.length), start ≤ i → (∀ t ∈ ts, ¬ t.Covers i) → isSpace s[i] = true

/-- The tokens of a source, with its end behind them. -/
def Tokenization (source : String) (ts : List Token) : Prop :=
  ∃ lexemes, ts = lexemes ++ [Token.eof source.length] ∧ (∀ t ∈ lexemes, t.isEof = false) ∧
    Segmentation source.toList 0 lexemes

namespace Token.LongestAt

variable {s : List Char} {p : Nat} {t u : Token}

/-- The lexeme that is taken at the place is the token's. -/
theorem munch (h : t.LongestAt s p) :
    ∃ r, Lia.munch (s.drop p) = some ⟨t.kind, t.text.toList, r⟩ := by
  have hs : t.text.toList ++ (s.drop p).drop t.text.length = s.drop p := by
    conv => rhs; rw [← List.take_append_drop t.text.length (s.drop p), h.text]
  obtain ⟨v, r, hm⟩ := munch_spells_append h.spells ((s.drop p).drop t.text.length)
  rw [hs] at hm
  have hle := h.longest _ _ (munch_spells hm) ⟨r, munch_append hm⟩
  obtain rfl : v = [] := by
    rw [List.length_append, String.length_toList] at hle
    exact List.eq_nil_of_length_eq_zero (by omega)
  exact ⟨r, by simpa using hm⟩

theorem of_munch {m : Munch} {v : Value} (hm : Lia.munch (s.drop p) = some m)
    (hv : lexemeValue m.kind m.text = .ok v) :
    (⟨m.kind, v, some p, String.ofList m.text⟩ : Token).LongestAt s p where
  pos := rfl
  text := by
    rw [← munch_append hm]
    simp
  spells := by simpa using munch_spells hm
  longest k w hw hp := by simpa using munch_longest hm hw hp
  value := by simpa using TokenKind.Reads.of_lexemeValue (munch_spells hm) hv

theorem unique (ht : t.LongestAt s p) (hu : u.LongestAt s p) : t = u := by
  obtain ⟨r, hr⟩ := ht.munch
  obtain ⟨r', hr'⟩ := hu.munch
  rw [hr] at hr'
  obtain ⟨hk, hw, -⟩ := Munch.mk.inj (Option.some.inj hr')
  obtain ⟨k, v, pos, text⟩ := t
  obtain ⟨k', v', pos', text'⟩ := u
  obtain rfl : k = k' := hk
  obtain rfl : text = text' := String.toList_inj.1 hw
  obtain rfl : v = v' := ht.value.unique hu.value
  obtain rfl : pos = pos' := ht.pos.trans hu.pos.symm
  rfl

theorem length_pos (h : t.LongestAt s p) : 0 < t.text.length := by
  obtain ⟨r, hr⟩ := h.munch
  have hne := List.length_pos_iff.2 (munch_text_ne_nil hr)
  rwa [String.length_toList] at hne

theorem isEof (h : t.LongestAt s p) : t.isEof = false := by
  refine Token.isEof_of_kind fun hk => ?_
  have hs := h.spells
  rw [hk] at hs
  cases hs

/-- No lexeme begins with space. -/
theorem not_space (h : t.LongestAt s p) : ∃ hp : p < s.length, isSpace s[p] = false := by
  obtain ⟨r, hr⟩ := h.munch
  have hp : p < s.length := by
    by_contra hp
    rw [List.drop_of_length_le (Nat.not_lt.1 hp)] at hr
    cases hr
  refine ⟨hp, Bool.eq_false_iff.2 fun hc => ?_⟩
  rw [List.drop_eq_getElem_cons hp, munch_space hc] at hr
  cases hr

end Token.LongestAt

-- ---------------------------------------------------------------------------
-- One lexeme after another
-- ---------------------------------------------------------------------------

namespace Segmentation

variable {s : List Char} {o : Nat} {t : Token} {ts : List Token}

theorem length_iff : Segmentation s s.length ts ↔ ts = [] := by
  constructor
  · intro h
    refine List.eq_nil_iff_forall_not_mem.2 fun t ht => ?_
    obtain ⟨p, hp, ht⟩ := h.longest t ht
    obtain ⟨hlt, -⟩ := ht.not_space
    omega
  · rintro rfl
    exact ⟨nofun, .nil, fun i hi hs => absurd hi (Nat.not_lt.2 hs)⟩

theorem space_iff (h : o < s.length) (hc : isSpace s[o] = true) :
    Segmentation s o ts ↔ Segmentation s (o + 1) ts := by
  constructor
  · intro hts
    refine ⟨fun t ht => ?_, hts.ordered, fun i hi hs => hts.space i hi (by omega)⟩
    obtain ⟨p, hp, ht⟩ := hts.longest t ht
    obtain ⟨_, hns⟩ := ht.not_space
    have hne : p ≠ o := by
      rintro rfl
      rw [hc] at hns
      cases hns
    exact ⟨p, by omega, ht⟩
  · intro hts
    refine ⟨fun t ht => ?_, hts.ordered, fun i hi hs hcov => ?_⟩
    · obtain ⟨p, hp, ht⟩ := hts.longest t ht
      exact ⟨p, by omega, ht⟩
    · obtain rfl | hlt := Nat.eq_or_lt_of_le hs
      · exact hc
      · exact hts.space i hi hlt hcov

/-- What is no space is covered, at the start by a token that begins there. -/
theorem exists_longestAt (h : Segmentation s o ts) (ho : o < s.length) (hc : isSpace s[o] = false) :
    ∃ u ∈ ts, u.LongestAt s o := by
  have hcov : ∃ u ∈ ts, u.Covers o := by
    by_contra hcov
    rw [h.space o ho le_rfl fun u hu hc => hcov ⟨u, hu, hc⟩] at hc
    cases hc
  obtain ⟨u, hu, q, hq, hqo, -⟩ := hcov
  obtain ⟨p, hp, hup⟩ := h.longest u hu
  obtain rfl : p = q := Option.some.inj (hup.pos.symm.trans hq)
  obtain rfl : p = o := by omega
  exact ⟨u, hu, hup⟩

/-- Only the first token can reach back to the start. -/
theorem head (ht : t.LongestAt s o) (h : Segmentation s o ts) : ∃ us, ts = t :: us := by
  obtain ⟨ho, hns⟩ := ht.not_space
  obtain ⟨u, hu, hup⟩ := h.exists_longestAt ho hns
  obtain rfl := hup.unique ht
  cases ts with
  | nil => cases hu
  | cons v us =>
    obtain rfl | hu := List.mem_cons.1 hu
    · exact ⟨us, rfl⟩
    · obtain ⟨r, hr, hv⟩ := h.longest v (by simp)
      have hlt := ((List.pairwise_cons.1 h.ordered).1 u hu r hv.pos o hup.pos).1
      omega

theorem cons_iff (ht : t.LongestAt s o) :
    Segmentation s o ts ↔ ∃ us, ts = t :: us ∧ Segmentation s (o + t.text.length) us := by
  constructor
  · intro h
    obtain ⟨us, rfl⟩ := h.head ht
    obtain ⟨hfirst, hordered⟩ := List.pairwise_cons.1 h.ordered
    refine ⟨us, rfl, fun u hu => ?_, hordered, fun i hi hs hcov => h.space i hi (by omega) ?_⟩
    · obtain ⟨p, -, hu'⟩ := h.longest u (.tail _ hu)
      exact ⟨p, (hfirst u hu o ht.pos p hu'.pos).2, hu'⟩
    · rintro u hu ⟨q, hq, hqi, hiq⟩
      obtain rfl | hu := List.mem_cons.1 hu
      · obtain rfl : o = q := Option.some.inj (ht.pos.symm.trans hq)
        omega
      · exact hcov u hu ⟨q, hq, hqi, hiq⟩
  · rintro ⟨us, rfl, h⟩
    have hpos := ht.length_pos
    refine ⟨fun u hu => ?_, List.pairwise_cons.2 ⟨fun u hu p hp q hq => ?_, h.ordered⟩,
      fun i hi hs hcov => ?_⟩
    · obtain rfl | hu := List.mem_cons.1 hu
      · exact ⟨o, le_rfl, ht⟩
      · obtain ⟨p, hp, hu⟩ := h.longest u hu
        exact ⟨p, by omega, hu⟩
    · obtain rfl : o = p := Option.some.inj (ht.pos.symm.trans hp)
      obtain ⟨r, hr, hu⟩ := h.longest u hu
      obtain rfl : r = q := Option.some.inj (hu.pos.symm.trans hq)
      exact ⟨by omega, hr⟩
    · have hle : o + t.text.length ≤ i := by
        by_contra hlt
        exact hcov t (by simp) ⟨o, ht.pos, hs, Nat.not_le.1 hlt⟩
      exact h.space i hi hle fun u hu => hcov u (.tail _ hu)

end Segmentation

/-- From any place on, scanning gives the only segmentation there is. -/
theorem Scanned.segmentation {s r : List Char} {o : Nat} {ts : List Token} (h : Scanned o r ts)
    (hr : s.drop o = r) (ho : o ≤ s.length) :
    ∃ lexemes, ts = lexemes ++ [Token.eof s.length] ∧
      ∀ us, Segmentation s o us ↔ us = lexemes := by
  induction h with
  | @eof o =>
    obtain rfl : o = s.length := Nat.le_antisymm ho (List.drop_eq_nil_iff.1 hr)
    exact ⟨[], rfl, fun us => Segmentation.length_iff⟩
  | @space o rest ts c hc _ ih =>
    have hlt : o < s.length := by
      by_contra hlt
      rw [List.drop_of_length_le (Nat.not_lt.1 hlt)] at hr
      cases hr
    rw [List.drop_eq_getElem_cons hlt] at hr
    obtain ⟨rfl, hrest⟩ := List.cons.inj hr
    obtain ⟨lexemes, rfl, huniq⟩ := ih hrest hlt
    exact ⟨lexemes, rfl, fun us => (Segmentation.space_iff hlt hc).trans (huniq us)⟩
  | @lexeme r o ts m v hm hv _ ih =>
    rw [← hr] at hm
    have ht := Token.LongestAt.of_munch hm hv
    have happend := munch_append hm
    have hrest : s.drop (o + m.text.length) = m.rest := by
      rw [← List.drop_drop, ← happend, List.drop_left]
    have hlength : o + m.text.length ≤ s.length := by
      have hlen := congrArg List.length happend
      rw [List.length_append, List.length_drop] at hlen
      omega
    obtain ⟨lexemes, rfl, huniq⟩ := ih hrest hlength
    refine ⟨_ :: lexemes, rfl, fun us => ?_⟩
    rw [Segmentation.cons_iff ht]
    simp [huniq]

/-- Tokenizing is the only way to cut a source into longest lexemes without loss. -/
theorem tokenization_iff {source : String} {ts us : List Token} (h : tokenize source = .ok ts) :
    Tokenization source us ↔ us = ts := by
  obtain ⟨lexemes, rfl, huniq⟩ :=
    (Scanned.of_scan h).segmentation (s := source.toList) rfl (Nat.zero_le _)
  have hself := (huniq lexemes).2 rfl
  rw [String.length_toList]
  constructor
  · rintro ⟨us, rfl, -, hus⟩
    rw [(huniq us).1 hus]
  · rintro rfl
    refine ⟨lexemes, rfl, fun t ht => ?_, hself⟩
    obtain ⟨p, -, ht⟩ := hself.longest t ht
    exact ht.isEof

def comparisonSource : String := "a\".b>=1.5 \"c d\"7."

def comparisonTokens : List Token :=
  [⟨.ident, .text "a\".b", some 0, "a\".b"⟩, ⟨.punct, .text ">=", some 4, ">="⟩,
    ⟨.number, .number (.float ((Decimal.mk 15 (-1)).toBinary64 false)), some 6, "1.5"⟩,
    ⟨.string, .text "c d", some 10, "\"c d\""⟩, ⟨.number, .number (.int 7), some 15, "7"⟩,
    ⟨.punct, .text ".", some 16, "."⟩, .eof 17]

theorem comparison_tokenization : tokenize comparisonSource = .ok comparisonTokens ∧
    Tokenization comparisonSource comparisonTokens := by
  have hend : scan 17 [] = .ok [.eof 17] := by rw [scan]
  have hmarks : scan 15 "7.".toList = .ok _ := scan_munch rfl rfl (scan_munch rfl rfl hend)
  have hstring : scan 10 "\"c d\"7.".toList = .ok _ := scan_munch rfl rfl hmarks
  have hnumber : scan 6 "1.5 \"c d\"7.".toList = .ok _ :=
    scan_munch rfl rfl ((scan_space rfl 9).trans hstring)
  have h : tokenize comparisonSource = .ok comparisonTokens :=
    scan_munch (s := comparisonSource.toList) (m := ⟨.ident, _, _⟩) rfl rfl
      (scan_munch (m := ⟨.punct, _, _⟩) rfl rfl hnumber)
  exact ⟨h, (tokenization_iff h).2 rfl⟩

end Lia

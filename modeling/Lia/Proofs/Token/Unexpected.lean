import Lia.Proofs.Token.Append

/-!
# Where a source is refused

A source is refused at the first place that neither space nor a lexeme begins at, or at an
integer that is too long, if one comes first. `Lexed` says what stands before such a place,
and `BeginsNone` which characters stand there. Main statement: `tokenize` gives an error
exactly there, and it gives the same one whatever follows, but for a quote that is closed
later on and half a pair at the end (`tokenize_error`).
-/

namespace Lia

-- ---------------------------------------------------------------------------
-- Where no lexeme begins
-- ---------------------------------------------------------------------------

/-- A quote that nothing closes, half a pair of marks, or a character that is in no class. -/
inductive BeginsNone : Char → List Char → Prop
  | quote (h : '"' ∉ s) : BeginsNone '"' s
  | half (h : s.head? ≠ some '=') : BeginsNone '!' s
  | foreign (hq : c ≠ '"') (hh : c ≠ '!') (hi : isIdentStart c = false) (hd : c.isDigit = false)
      (hp : isPunctChar c = false) : BeginsNone c s

/-- The longest spelling of a class at the head of a text. -/
structure IsLongest (s w : List Char) : Prop where
  spells : ∃ k : TokenKind, k.spells w = true
  begins : w <+: s
  longest : ∀ (k : TokenKind) v, k.spells v = true → v <+: s → v.length ≤ w.length

section
variable {c d : Char} {s w : List Char}

theorem munchString_eq_none_iff : munchString s = none ↔ '"' ∉ s := by
  unfold munchString
  split
  next hd =>
    refine iff_of_true rfl fun hq => ?_
    simpa using List.dropWhile_eq_nil_iff.1 hd '"' hq
  next c r hd =>
    refine iff_of_false (Option.some_ne_none _) fun hq => ?_
    have hnil : s.dropWhile (· ≠ '"') = [] :=
      List.dropWhile_eq_nil_iff.2 fun c hc => decide_eq_true (by rintro rfl; exact hq hc)
    rw [hnil] at hd
    cases hd

theorem isPunctPair_of_single (hp : isPunctChar c = false) :
    isPunctPair c d = true ↔ c = '!' ∧ d = '=' := by
  constructor
  · intro h
    have hc : (isPunctChar c || c == '!') = true :=
      of_contains (p := fun c => isPunctChar c || c == '!') (by decide) (isPairStart_of_isPunctPair h)
    obtain rfl : c = '!' := by simpa [hp] using hc
    simpa [isPunctPair] using h
  · rintro ⟨rfl, rfl⟩
    rfl

theorem munchPunct_eq_none_iff : munchPunct c s = none ↔
    isPunctChar c = false ∧ (c = '!' → s.head? ≠ some '=') := by
  cases s with
  | nil => simp [munchPunct]
  | cons d s =>
    cases hp : isPunctChar c with
    | true => cases hq : isPunctPair c d <;> simp [munchPunct, hp, hq]
    | false =>
      have hpair := isPunctPair_of_single (d := d) hp
      cases hq : isPunctPair c d <;> simp [munchPunct, hp, hq] at hpair ⊢ <;> exact hpair

theorem munch_eq_none_iff : munch (c :: s) = none ↔ BeginsNone c s := by
  constructor
  · intro h
    rw [munch] at h
    split at h
    · cases h
    next hi =>
      split at h
      · cases h
      next hd =>
        split at h
        next hq =>
          subst hq
          exact .quote (munchString_eq_none_iff.1 h)
        next hq =>
          obtain ⟨hp, hs⟩ := munchPunct_eq_none_iff.1 h
          by_cases hh : c = '!'
          · subst hh
            exact .half (hs rfl)
          · exact .foreign hq hh (Bool.eq_false_iff.2 hi) (Bool.eq_false_iff.2 hd) hp
  · intro h
    cases h with
    | quote h =>
      rw [munch, if_neg (by decide), if_neg (by decide), if_pos rfl]
      exact munchString_eq_none_iff.2 h
    | half h =>
      rw [munch_eq_munchPunct rfl]
      exact munchPunct_eq_none_iff.2 ⟨rfl, fun _ => h⟩
    | foreign hq hh hi hd hp =>
      rw [munch, hi, if_neg Bool.false_ne_true, hd, if_neg Bool.false_ne_true, if_neg hq]
      exact munchPunct_eq_none_iff.2 ⟨hp, fun hc => absurd hc hh⟩

/-- No spelling of any class begins there. -/
theorem beginsNone_iff : BeginsNone c s ↔
    ∀ (k : TokenKind) w, k.spells w = true → ¬ w <+: c :: s := by
  rw [← munch_eq_none_iff]
  constructor
  · rintro h k w hw ⟨r, hr⟩
    obtain ⟨v, r', hm⟩ := munch_spells_append hw r
    rw [hr, h] at hm
    cases hm
  · intro h
    cases hm : munch (c :: s) with
    | none => rfl
    | some m => exact absurd ⟨m.rest, munch_append hm⟩ (h m.kind m.text (munch_spells hm))

theorem isLongest_iff : IsLongest s w ↔ ∃ m, munch s = some m ∧ m.text = w := by
  constructor
  · rintro ⟨⟨k, hk⟩, ⟨r, rfl⟩, hlongest⟩
    obtain ⟨v, r', hm⟩ := munch_spells_append hk r
    refine ⟨_, hm, ?_⟩
    have hle := hlongest k _ (munch_spells hm) ⟨r', munch_append hm⟩
    obtain rfl : v = [] := by
      rw [List.length_append] at hle
      exact List.eq_nil_of_length_eq_zero (by omega)
    exact List.append_nil w
  · rintro ⟨m, hm, rfl⟩
    exact ⟨⟨m.kind, munch_spells hm⟩, ⟨m.rest, munch_append hm⟩, fun k v => munch_longest hm⟩

/-- No lexeme goes on over a character that begins none, but for a quote in a name. -/
theorem BeginsNone.isStop (h : BeginsNone c s) (hq : c ≠ '"') : isStop c = true := by
  cases h with
  | quote => exact absurd rfl hq
  | half => rfl
  | foreign _ hh hi hd hp =>
    have hne {d : Char} (hd : isPunctChar d = true) : c ≠ d := by
      rintro rfl
      rw [hp] at hd
      cases hd
    simp only [isIdentStart, Bool.or_eq_false_iff] at hi
    simp [Lia.isStop, isIdentChar, Char.isAlphanum, hi, hd, hq, hne (d := '.') rfl,
      hne (d := '=') rfl, hne (d := '>') rfl]

theorem BeginsNone.append (h : BeginsNone c s) (hq : c ≠ '"') (hh : c :: s ≠ ['!']) (r : List Char) :
    BeginsNone c (s ++ r) := by
  cases h with
  | quote => exact absurd rfl hq
  | half h =>
    cases s with
    | nil => exact absurd rfl hh
    | cons d s => exact .half h
  | foreign hq hh hi hd hp => exact .foreign hq hh hi hd hp

end

-- ---------------------------------------------------------------------------
-- Up to a place
-- ---------------------------------------------------------------------------

/-- From one place to another a text is its longest lexemes and space, and none of the
lexemes is an integer that is too long. -/
structure Lexed (s : List Char) (start stop : Nat) (ts : List Token) : Prop where
  segmentation : Segmentation (s.take stop) start ts
  longest : ∀ t ∈ ts, ∃ p, t.LongestAt s p
  short : ∀ t ∈ ts, ¬ IsTooLong t.text.toList

/-- The place that a source is refused at. -/
def Unexpected (s : List Char) (o : Nat) : Prop :=
  (∃ ts, Lexed s 0 o ts) ∧
    ∃ c r, s.drop o = c :: r ∧ isSpace c = false ∧ BeginsNone c r

/-- The text from an offset on is scanned as the tokens, up to another offset and what
stands there. -/
inductive ScannedTo : Nat → List Char → List Token → Nat → List Char → Prop
  | here : ScannedTo o s [] o s
  | space {c : Char} (hc : isSpace c = true) (h : ScannedTo (i + 1) s ts o r) :
      ScannedTo i (c :: s) ts o r
  | lexeme {m : Munch} {v : Value} (hm : munch s = some m) (hv : lexemeValue m.kind m.text = .ok v)
      (h : ScannedTo (i + m.text.length) m.rest ts o r) :
      ScannedTo i s (⟨m.kind, v, some i, String.ofList m.text⟩ :: ts) o r

variable {i o : Nat} {r s : List Char} {t : Token} {ts : List Token}

namespace ScannedTo

theorem scan_eq (h : ScannedTo i s ts o r) : scan i s = (scan o r).map (ts ++ ·) := by
  induction h with
  | @here o s => cases scan o s <;> rfl
  | space hc _ ih => rw [scan_space hc, ih]
  | @lexeme s i ts o r m v hm hv _ ih =>
    rw [scan_lexeme hm, hv, ih]
    cases scan o r <;> rfl

theorem le (h : ScannedTo i s ts o r) : i ≤ o := by
  induction h with
  | here => exact le_rfl
  | space _ _ ih => omega
  | lexeme _ _ _ ih => omega

/-- Where a scan has stopped with an error. -/
theorem of_error {e : LexError} (h : scan i s = .error e) :
    ∃ ts o c r, ScannedTo i s ts o (c :: r) ∧ isSpace c = false ∧
      ((munch (c :: r) = none ∧
          e = .unexpected o (String.ofList ((c :: r).take snippetLength))) ∨
        ∃ m, munch (c :: r) = some m ∧ lexemeValue m.kind m.text = .error e) := by
  fun_induction scan i s with
  | case1 => cases h
  | case2 i c s hc ih =>
    obtain ⟨ts, o, c', r, hs, hstop⟩ := ih h
    exact ⟨ts, o, c', r, .space hc hs, hstop⟩
  | case3 i c s hc hm =>
    cases h
    exact ⟨[], i, c, s, .here, Bool.eq_false_iff.2 hc, .inl ⟨hm, rfl⟩⟩
  | case4 i c s hc m hm ih =>
    cases hv : lexemeValue m.kind m.text with
    | error e' =>
      rw [hv] at h
      cases h
      exact ⟨[], i, c, s, .here, Bool.eq_false_iff.2 hc, .inr ⟨m, hm, hv⟩⟩
    | ok v =>
      cases hts : scan (i + m.text.length) m.rest with
      | ok us =>
        rw [hv, hts] at h
        cases h
      | error e' =>
        rw [hv, hts] at h
        cases h
        obtain ⟨ts, o, c', r, hs, hstop⟩ := ih hts
        exact ⟨_, o, c', r, .lexeme hm hv hs, hstop⟩

end ScannedTo

namespace Token.LongestAt

theorem le_length (h : t.LongestAt s i) : i + t.text.length ≤ s.length := by
  have hlen := congrArg List.length h.text
  have hpos := h.length_pos
  rw [List.length_take, List.length_drop, String.length_toList] at hlen
  omega

theorem munch_drop (h : t.LongestAt s i) : Lia.munch (s.drop i) =
    some ⟨t.kind, t.text.toList, s.drop (i + t.text.length)⟩ := by
  obtain ⟨r, hm⟩ := h.munch
  have happend : t.text.toList ++ r = s.drop i := munch_append hm
  obtain rfl : r = s.drop (i + t.text.length) := by
    rw [← List.drop_drop, ← happend, ← String.length_toList, List.drop_left]
  exact hm

theorem take (h : t.LongestAt s i) (ho : i + t.text.length ≤ o) : t.LongestAt (s.take o) i where
  pos := h.pos
  text := by
    rw [List.drop_take, List.take_take, Nat.min_eq_left (by omega), h.text]
  spells := h.spells
  longest k w hw hp := by
    rw [List.drop_take] at hp
    exact h.longest k w hw (hp.trans (List.take_prefix _ _))
  value := h.value

/-- What stands behind a stop makes no difference to the lexemes before it. -/
theorem append (h : t.LongestAt s i) (hs : ∃ c ∈ s.drop (i + t.text.length), isStop c = true)
    (r : List Char) : t.LongestAt (s ++ r) i := by
  have hm := h.munch_drop
  have happend : t.text.toList ++ s.drop (i + t.text.length) = s.drop i := munch_append hm
  have hdrop : (s ++ r).drop i = t.text.toList ++ (s.drop (i + t.text.length) ++ r) := by
    have hi := h.le_length
    rw [List.drop_append_of_le_length (by omega), ← happend, List.append_assoc]
  rw [← happend] at hm
  have hm' := munch_append_right hm hs r
  rw [← hdrop] at hm'
  refine ⟨h.pos, ?_, h.spells, fun k w hw hp => ?_, h.value⟩
  · rw [hdrop, ← String.length_toList, List.take_left]
  · rw [← String.length_toList]
    exact munch_longest hm' hw hp

end Token.LongestAt

namespace Lexed

theorem of_scannedTo (h : ScannedTo i r ts o r') (hr : s.drop i = r) (hi : i ≤ s.length) :
    Lexed s i o ts ∧ o ≤ s.length ∧ s.drop o = r' := by
  induction h with
  | @here o r =>
    have hlen : (s.take o).length = o := List.length_take_of_le hi
    have hnil := (Segmentation.length_iff (s := s.take o)).2 rfl
    rw [hlen] at hnil
    exact ⟨⟨hnil, nofun, nofun⟩, hi, hr⟩
  | @space i r ts o r' c hc h ih =>
    have hlt : i < s.length := List.length_lt_of_drop_ne_nil (by simp [hr])
    rw [List.drop_eq_getElem_cons hlt] at hr
    obtain ⟨rfl, hrest⟩ := List.cons.inj hr
    obtain ⟨hl, ho, hr'⟩ := ih hrest hlt
    have hle := h.le
    have hspace : Segmentation (s.take o) i ts ↔ Segmentation (s.take o) (i + 1) ts :=
      Segmentation.space_iff (by rw [List.length_take]; omega) (by rwa [List.getElem_take])
    exact ⟨⟨hspace.2 hl.segmentation, hl.longest, hl.short⟩, ho, hr'⟩
  | @lexeme r i ts o r' m v hm hv h ih =>
    rw [← hr] at hm
    have ht := Token.LongestAt.of_munch hm hv
    have happend := munch_append hm
    have hrest : s.drop (i + m.text.length) = m.rest := by
      rw [← List.drop_drop, ← happend, List.drop_left]
    have hlength : i + m.text.length ≤ s.length := by
      have hlen := congrArg List.length happend
      rw [List.length_append, List.length_drop] at hlen
      omega
    obtain ⟨hl, ho, hr'⟩ := ih hrest hlength
    have htake : Token.LongestAt (s.take o) i ⟨m.kind, v, some i, String.ofList m.text⟩ :=
      ht.take (by simpa using h.le)
    have hsegment : Segmentation (s.take o) i (⟨m.kind, v, some i, String.ofList m.text⟩ :: ts) :=
      (Segmentation.cons_iff htake).2 ⟨ts, rfl, by simpa using hl.segmentation⟩
    have hshort : ¬ IsTooLong m.text := by
      obtain ⟨-, he⟩ | ⟨hs, -⟩ := lexemeValue_cases (munch_spells hm)
      · rw [hv] at he
        cases he
      · exact hs
    refine ⟨⟨hsegment, ?_, ?_⟩, ho, hr'⟩
    · exact List.forall_mem_cons.2 ⟨⟨i, ht⟩, hl.longest⟩
    · exact List.forall_mem_cons.2 ⟨by simpa using hshort, hl.short⟩

/-- The tokens are what is scanned on the way. -/
theorem scannedTo (h : Lexed s i o ts) (hi : i ≤ o) (ho : o ≤ s.length) :
    ScannedTo i (s.drop i) ts o (s.drop o) := by
  have hlen : (s.take o).length = o := List.length_take_of_le ho
  obtain ⟨hsegment, hlongest, hshort⟩ := h
  induction hn : o - i using Nat.strongRecOn generalizing i ts with
  | ind n ih =>
    obtain rfl | hlt := Nat.eq_or_lt_of_le hi
    · have hnil : Segmentation (s.take i) i ts ↔ ts = [] := by
        simpa only [hlen] using Segmentation.length_iff (s := s.take i)
      obtain rfl := hnil.1 hsegment
      exact .here
    have hlt' : i < (s.take o).length := hlen.symm ▸ hlt
    have hget : (s.take o)[i] = s[i] := List.getElem_take
    cases hc : isSpace s[i] with
    | true =>
      rw [List.drop_eq_getElem_cons (Nat.lt_of_lt_of_le hlt ho)]
      have hspace := (Segmentation.space_iff hlt' (hget ▸ hc)).1 hsegment
      exact .space hc (ih (o - (i + 1)) (by omega) hlt hspace hlongest hshort rfl)
    | false =>
      obtain ⟨u, -, hu⟩ := hsegment.exists_longestAt hlt' (hget ▸ hc)
      obtain ⟨us, rfl, hus⟩ := (Segmentation.cons_iff hu).1 hsegment
      obtain ⟨p, hup⟩ := hlongest u (by simp)
      obtain rfl : i = p := Option.some.inj (hu.pos.symm.trans hup.pos)
      obtain ⟨v, hv⟩ : ∃ v, lexemeValue u.kind u.text.toList = .ok v := by
        obtain ⟨hs, -⟩ | ⟨-, hv⟩ := lexemeValue_cases hup.spells
        · exact absurd hs (hshort u (by simp))
        · exact hv
      have hu' : u = ⟨u.kind, v, some i, String.ofList u.text.toList⟩ :=
        hup.unique (.of_munch hup.munch_drop hv)
      have hpos := hup.length_pos
      have hle := hu.le_length
      rw [hlen] at hle
      rw [hu']
      refine .lexeme hup.munch_drop hv ?_
      rw [String.length_toList]
      exact ih (o - (i + u.text.length)) (by omega) hle hus (fun t ht => hlongest t (.tail _ ht))
        (fun t ht => hshort t (.tail _ ht)) rfl

theorem take (h : Lexed s i o ts) : Lexed (s.take o) i o ts where
  segmentation := by rw [List.take_take, Nat.min_self]; exact h.segmentation
  longest t ht := by
    obtain ⟨p, -, hp⟩ := h.segmentation.longest t ht
    exact ⟨p, hp⟩
  short := h.short

/-- The text up to the place is tokenized as these lexemes. -/
theorem scan_take (h : Lexed s 0 o ts) (ho : o ≤ s.length) :
    scan 0 (s.take o) = .ok (ts ++ [Token.eof o]) := by
  have hlen : (s.take o).length = o := List.length_take_of_le ho
  have hs := h.take.scannedTo (Nat.zero_le o) hlen.ge
  rw [List.drop_of_length_le hlen.le] at hs
  rw [List.drop_zero] at hs
  rw [hs.scan_eq, scan]
  rfl

/-- More text does not change what stands before a stop. -/
theorem append (h : Lexed s i o ts) (hs : ∃ c ∈ s.drop o, isStop c = true) (r : List Char) :
    Lexed (s ++ r) i o ts where
  segmentation := by
    obtain ⟨c, hc, -⟩ := hs
    have hpos := List.length_pos_of_mem hc
    rw [List.length_drop] at hpos
    rw [List.take_append_of_le_length (by omega)]
    exact h.segmentation
  longest t ht := by
    obtain ⟨c, hc, hstop⟩ := hs
    obtain ⟨p, hp⟩ := h.longest t ht
    obtain ⟨q, -, hq⟩ := h.segmentation.longest t ht
    obtain rfl : p = q := Option.some.inj (hp.pos.symm.trans hq.pos)
    have hle : p + t.text.length ≤ o := by
      have hle := hq.le_length
      rw [List.length_take] at hle
      omega
    exact ⟨p, hp.append ⟨c, (List.drop_sublist_drop_left s hle).subset hc, hstop⟩ r⟩
  short := h.short

end Lexed

namespace Unexpected

theorem lt_length (h : Unexpected s o) : o < s.length := by
  obtain ⟨-, c, r, hr, -⟩ := h
  exact List.length_lt_of_drop_ne_nil (by simp [hr])

theorem append (h : Unexpected s o) (hq : s[o]? ≠ some '"') (hh : s.drop o ≠ ['!'])
    (r : List Char) : Unexpected (s ++ r) o := by
  have hlt := h.lt_length
  obtain ⟨⟨ts, hl⟩, c, r', hr, hc, hn⟩ := h
  have hget : s[o]? = some c := by rw [← List.head?_drop, hr, List.head?_cons]
  have hcq : c ≠ '"' := by
    rintro rfl
    exact hq hget
  refine ⟨⟨ts, hl.append ⟨c, by simp [hr], hn.isStop hcq⟩ r⟩, c, r' ++ r, ?_, hc, ?_⟩
  · rw [List.drop_append_of_le_length hlt.le, hr, List.cons_append]
  · exact hn.append hcq (hr ▸ hh) r

/-- The source is refused there. -/
theorem scan_eq (h : Unexpected s o) :
    scan 0 s = .error (.unexpected o (String.ofList ((s.drop o).take snippetLength))) := by
  have ho := h.lt_length.le
  obtain ⟨⟨ts, hl⟩, c, r, hr, hc, hn⟩ := h
  have hs := hl.scannedTo (Nat.zero_le o) ho
  rw [List.drop_zero] at hs
  rw [hs.scan_eq, hr, scan, if_neg (Bool.eq_false_iff.1 hc)]
  split
  next => rfl
  next m hm =>
    rw [munch_eq_none_iff.2 hn] at hm
    cases hm

end Unexpected

-- ---------------------------------------------------------------------------
-- Main statement
-- ---------------------------------------------------------------------------

theorem scan_unexpected_iff {snippet : String} : scan 0 s = .error (.unexpected o snippet) ↔
    Unexpected s o ∧ snippet = String.ofList ((s.drop o).take snippetLength) := by
  constructor
  · intro h
    obtain ⟨ts, o', c, r, hs, hc, ⟨hm, he⟩ | ⟨m, hm, hv⟩⟩ := ScannedTo.of_error h
    · obtain ⟨rfl, rfl⟩ := LexError.unexpected.inj he
      obtain ⟨hl, -, hr⟩ := Lexed.of_scannedTo hs rfl (Nat.zero_le _)
      exact ⟨⟨⟨ts, hl⟩, c, r, hr, hc, munch_eq_none_iff.1 hm⟩, by rw [hr]⟩
    · obtain ⟨-, he⟩ | ⟨-, v, he⟩ := lexemeValue_cases (munch_spells hm) <;>
        · rw [hv] at he
          cases he
  · rintro ⟨h, rfl⟩
    exact h.scan_eq

theorem scan_tooLong_iff {n : Nat} : scan 0 s = .error (.integerTooLong n) ↔
    ∃ o ts w, Lexed s 0 o ts ∧ IsLongest (s.drop o) w ∧ IsTooLong w ∧ n = w.length := by
  constructor
  · intro h
    obtain ⟨ts, o, c, r, hs, hc, ⟨hm, he⟩ | ⟨m, hm, hv⟩⟩ := ScannedTo.of_error h
    · cases he
    · obtain ⟨ht, he⟩ | ⟨-, v, he⟩ := lexemeValue_cases (munch_spells hm)
      · rw [hv] at he
        cases he
        obtain ⟨hl, -, hr⟩ := Lexed.of_scannedTo hs rfl (Nat.zero_le _)
        exact ⟨o, ts, m.text, hl, isLongest_iff.2 ⟨m, hr ▸ hm, rfl⟩, ht, rfl⟩
      · rw [hv] at he
        cases he
  · rintro ⟨o, ts, w, hl, hw, ht, rfl⟩
    obtain ⟨m, hm, rfl⟩ := isLongest_iff.1 hw
    have ho : o ≤ s.length := by
      refine (List.length_lt_of_drop_ne_nil fun hnil => ?_).le
      rw [hnil] at hm
      cases hm
    have hs := hl.scannedTo (Nat.zero_le o) ho
    obtain ⟨-, hv⟩ | ⟨hshort, -⟩ := lexemeValue_cases (munch_spells hm)
    · rw [List.drop_zero] at hs
      rw [hs.scan_eq, scan_lexeme hm, hv]
      rfl
    · exact absurd ht hshort

/-- A source is refused where no lexeme begins, or at an integer that is too long, whichever
comes first. What stands before is tokenized, and what follows makes no difference unless it
goes on with a quote or with half a pair at the end. -/
theorem tokenize_error (source : String) :
    (∀ o snippet, tokenize source = .error (.unexpected o snippet) ↔
      Unexpected source.toList o ∧ snippet = String.ofList ((source.toList.drop o).take 20)) ∧
    (∀ c s, BeginsNone c s ↔ ∀ (k : TokenKind) w, k.spells w = true → ¬ w <+: c :: s) ∧
    (∀ o, Unexpected source.toList o →
      (∃ ts, tokenize (String.ofList (source.toList.take o)) = .ok ts) ∧
      (source.toList[o]? ≠ some '"' → source.toList.drop o ≠ ['!'] → ∀ more : String,
        ∃ snippet, tokenize (source ++ more) = .error (.unexpected o snippet))) ∧
    ∀ n, tokenize source = .error (.integerTooLong n) ↔
      ∃ o ts w, Lexed source.toList 0 o ts ∧ IsLongest (source.toList.drop o) w ∧ IsTooLong w ∧
        n = w.length := by
  refine ⟨fun o snippet => scan_unexpected_iff, fun c s => beginsNone_iff, fun o h => ⟨?_, ?_⟩,
    fun n => scan_tooLong_iff⟩
  · obtain ⟨ts, hl⟩ := h.1
    exact ⟨_, by rw [tokenize, String.toList_ofList, hl.scan_take h.lt_length.le]⟩
  · intro hq hh more
    have hmore := (h.append hq hh more.toList).scan_eq
    rw [← String.toList_append] at hmore
    exact ⟨_, hmore⟩

/-- A mark that is half a pair, behind a name that would go on with a quote. -/
def halfPair : String := "a !\"b"

theorem halfPair_refused : tokenize halfPair = .error (.unexpected 2 "!\"b") ∧
    (∃ ts, tokenize (String.ofList (halfPair.toList.take 2)) = .ok ts) ∧
    ∀ more, ∃ snippet, tokenize (halfPair ++ more) = .error (.unexpected 2 snippet) := by
  have hname : munch halfPair.toList = some ⟨.ident, ['a'], " !\"b".toList⟩ := rfl
  have hmark : scan 2 "!\"b".toList = .error (.unexpected 2 "!\"b") := by
    rw [show "!\"b".toList = ['!', '"', 'b'] from rfl, scan]
    rfl
  have hrest : scan 1 " !\"b".toList = .error (.unexpected 2 "!\"b") :=
    (scan_space (c := ' ') rfl 1).trans hmark
  have h : tokenize halfPair = .error (.unexpected 2 "!\"b") := by
    rw [tokenize, scan_lexeme hname]
    change (scan 1 " !\"b".toList).map (⟨.ident, .text "a", some 0, "a"⟩ :: ·) = _
    rw [hrest]
    rfl
  obtain ⟨hiff, -, hrefused, -⟩ := tokenize_error halfPair
  obtain ⟨hbefore, hmore⟩ := hrefused 2 ((hiff 2 _).1 h).1
  exact ⟨h, hbefore, hmore (by decide) (by decide)⟩

end Lia

import Mathlib.Data.List.Chain
import Lia.Proofs.Token.Segmentation

/-!
# Spellings behind one another

Spellings that are put behind one another, with space wherever the next one might be taken
for more of the one before, are split into the same spellings again. Main statement: each
is a token of its own, at the place where it was put (`tokenize_joined`).
-/

namespace Lia

-- ---------------------------------------------------------------------------
-- Spellings and the space behind them
-- ---------------------------------------------------------------------------

/-- A spelling of one of the classes; an integer is short enough to be read. -/
structure IsLexeme (w : String) : Prop where
  spells : ∃ k : TokenKind, k.spells w.toList = true
  short : ¬ IsTooLong w.toList

/-- A mark that never begins a pair, and that nothing else goes on with. -/
def IsMark (w : String) : Prop := ∃ c, "\x7b\x7d();,".toList.contains c = true ∧ w.toList = [c]

/-- The spellings need no space between them. -/
def Parted (v w : String) : Prop := isStringText v.toList = true ∨ IsMark v ∨ IsMark w

def IsGap (g : String) : Prop := ∀ c ∈ g.toList, isSpace c = true

/-- Spellings in order, each with what stands behind it. -/
def joined (items : List (String × String)) : String := String.join (items.map fun i => i.1 ++ i.2)

/-- Lexemes with gaps behind them; only between two that need none a gap may be empty. -/
structure Joinable (items : List (String × String)) : Prop where
  lexeme : ∀ i ∈ items, IsLexeme i.1
  gap : ∀ i ∈ items, IsGap i.2
  parted : items.IsChain fun i j => i.2 = "" → Parted i.1 j.1

/-- The token has the spelling, with the kind and the value that it has by that, and it
stands at the place. -/
structure Token.Shows (t : Token) (w : String) (p : Nat) : Prop where
  text : t.text = w
  spells : t.kind.spells w.toList = true
  value : t.kind.Reads w.toList t.value
  pos : t.pos = some p

variable {items : List (String × String)} {v w g : String}

theorem toList_joined_cons : (joined ((w, g) :: items)).toList =
    w.toList ++ (g.toList ++ (joined items).toList) := by
  simp [joined]

theorem length_joined_cons : (joined ((w, g) :: items)).length =
    w.length + g.length + (joined items).length := by
  simp only [← String.length_toList, toList_joined_cons, List.length_append, Nat.add_assoc]

theorem Joinable.tail (h : Joinable ((w, g) :: items)) : Joinable items where
  lexeme i hi := h.lexeme i (.tail _ hi)
  gap i hi := h.gap i (.tail _ hi)
  parted := h.parted.tail

/-- Nothing behind a spelling goes on with it. -/
theorem Joinable.broken (h : Joinable ((w, g) :: items)) :
    isStringText w.toList = true ∨ IsMark w ∨ Broken (g.toList ++ (joined items).toList) := by
  cases hg : g.toList with
  | cons c s =>
    have hc : isSpace c = true := h.gap (w, g) (by simp) c (by simp [hg])
    exact .inr (.inr (broken_cons (Bool.or_eq_true_iff.2 (.inl hc))))
  | nil =>
    obtain rfl : g = "" := String.toList_inj.1 hg
    cases items with
    | nil => exact .inr (.inr nofun)
    | cons j items =>
      obtain hw | hw | ⟨c, hc, hj⟩ := (List.isChain_cons_cons.1 h.parted).1 rfl
      · exact .inl hw
      · exact .inr (.inl hw)
      · refine .inr (.inr ?_)
        rw [toList_joined_cons, hj]
        exact broken_cons (Bool.or_eq_true_iff.2 (.inr hc))

theorem Joinable.munch (h : Joinable ((w, g) :: items)) : ∃ k : TokenKind,
    k.spells w.toList = true ∧ munch (joined ((w, g) :: items)).toList =
      some ⟨k, w.toList, g.toList ++ (joined items).toList⟩ := by
  obtain ⟨k, hk⟩ := (h.lexeme (w, g) (by simp)).spells
  rw [toList_joined_cons]
  obtain hw | ⟨c, hc, hw⟩ | hb := h.broken
  · exact ⟨.string, hw, munch_string hw⟩
  · rw [hw]
    have hm := munch_mark (s := g.toList ++ (joined items).toList) hc
    exact ⟨.punct, munch_spells hm, hm⟩
  · exact ⟨k, hk, munch_spelling hk hb⟩

-- ---------------------------------------------------------------------------
-- Scanning
-- ---------------------------------------------------------------------------

theorem scan_gap {s : List Char} (hs : ∀ c ∈ s, isSpace c = true) (offset : Nat) (r : List Char) :
    scan offset (s ++ r) = scan (offset + s.length) r := by
  induction s generalizing offset with
  | nil => rfl
  | cons c s ih =>
    rw [List.cons_append, scan_space (hs c (by simp)), ih fun d hd => hs d (.tail _ hd),
      List.length_cons, Nat.add_right_comm, Nat.add_assoc]

/-- From any offset on, each spelling is found where it was put. -/
theorem Joinable.scan (h : Joinable items) (offset : Nat) :
    ∃ ts, scan offset (joined items).toList =
        .ok (ts ++ [Token.eof (offset + (joined items).length)]) ∧
      ts.length = items.length ∧
      ∀ n i, items[n]? = some i →
        ∃ t : Token, ts[n]? = some t ∧ t.Shows i.1 (offset + (joined (items.take n)).length) := by
  induction items generalizing offset with
  | nil => exact ⟨[], by rw [Lia.scan.eq_def]; rfl, rfl, nofun⟩
  | cons i items ih =>
    obtain ⟨w, g⟩ := i
    obtain ⟨k, hk, hm⟩ := h.munch
    obtain ⟨v, hv⟩ : ∃ v, lexemeValue k w.toList = .ok v := by
      obtain ⟨ht, -⟩ | ⟨-, hv⟩ := lexemeValue_cases hk
      · exact absurd ht (h.lexeme (w, g) (by simp)).short
      · exact hv
    obtain ⟨ts, hts, hlen, hshows⟩ := ih h.tail (offset + w.length + g.length)
    refine ⟨⟨k, v, some offset, w⟩ :: ts, ?_, by simp [hlen], ?_⟩
    · have hrest : Lia.scan (offset + w.toList.length) (g.toList ++ (joined items).toList) =
          .ok (ts ++ [Token.eof (offset + (joined ((w, g) :: items)).length)]) := by
        rw [scan_gap (h.gap (w, g) (by simp)), String.length_toList, String.length_toList, hts,
          length_joined_cons]
        simp only [Nat.add_assoc]
      rw [scan_munch hm hv hrest, String.ofList_toList, List.cons_append]
    · intro n j hj
      cases n with
      | zero =>
        obtain rfl : (w, g) = j := Option.some.inj hj
        exact ⟨_, rfl, rfl, hk, .of_lexemeValue hk hv, rfl⟩
      | succ n =>
        obtain ⟨t, ht, hs⟩ := hshows n j hj
        refine ⟨t, ht, ?_⟩
        rw [List.take_succ_cons, length_joined_cons]
        simpa only [Nat.add_assoc] using hs

/-- Spellings behind one another are the tokens of the text, each at its place. -/
theorem tokenize_joined (hg : IsGap g) (h : Joinable items) :
    ∃ ts, tokenize (g ++ joined items) = .ok (ts ++ [Token.eof (g ++ joined items).length]) ∧
      ts.length = items.length ∧
      ∀ n i, items[n]? = some i →
        ∃ t : Token, ts[n]? = some t ∧ t.Shows i.1 (g ++ joined (items.take n)).length := by
  obtain ⟨ts, hts, hlen, hshows⟩ := h.scan g.length
  refine ⟨ts, ?_, hlen, ?_⟩
  · rw [tokenize, String.toList_append, scan_gap hg, String.length_toList, Nat.zero_add, hts,
      String.length_append]
  · intro n i hi
    rw [String.length_append]
    exact hshows n i hi

/-- `a".b>=1.5 "c d"7 .(` with a tab in front. -/
def comparisonItems : List (String × String) :=
  [("a\".b", "\n"), (">=", " "), ("1.5", " "), ("\"c d\"", ""), ("7", " "), (".", ""), ("(", "")]

theorem comparison_joined : IsGap "\t" ∧ Joinable comparisonItems ∧
    ∃ ts, tokenize ("\t" ++ joined comparisonItems) =
        .ok (ts ++ [Token.eof ("\t" ++ joined comparisonItems).length]) ∧
      ts.length = comparisonItems.length ∧
      ∀ n i, comparisonItems[n]? = some i →
        ∃ t : Token, ts[n]? = some t ∧ t.Shows i.1 ("\t" ++ joined (comparisonItems.take n)).length := by
  have hg : IsGap "\t" := by simp [IsGap, isSpace]
  have hspells : ∀ i ∈ comparisonItems,
      ∃ k ∈ [TokenKind.punct, .ident, .string, .number], k.spells i.1.toList = true := by decide
  have hshort : ∀ i ∈ comparisonItems, i.1.length ≤ maxIntegerDigits := by decide
  have h : Joinable comparisonItems := by
    refine ⟨fun i hi => ?_, ?_, ?_⟩
    · obtain ⟨k, -, hk⟩ := hspells i hi
      exact ⟨⟨k, hk⟩, fun ht => absurd (hshort i hi) (Nat.not_le.2 ht.2)⟩
    · simp [comparisonItems, IsGap, isSpace]
    · have hparen : IsMark "(" := ⟨'(', rfl, rfl⟩
      simp only [comparisonItems, List.isChain_cons_cons, List.isChain_singleton]
      refine ⟨?_, ?_, ?_, fun _ => .inl rfl, ?_, fun _ => .inr (.inr hparen), trivial⟩
      all_goals exact fun hgap => absurd hgap (by decide)
  exact ⟨hg, h, tokenize_joined hg h⟩

end Lia

import Lia.Proofs.Number.Exact
import Lia.Proofs.Stmt.Reprint
import Lia.Proofs.Value

/-!
# Programs that come back equal

The text of a number that a source spells is a number token of an equal number just if the
number is faithful (`Number.Unsigned.readsBack_iff`): infinities and most values of 10^16 or
more are not. Main statement: this is all that stands between a parsed program without
infinities and a text that is parsed as an equal program (`readsBack_iff_faithful`).
-/

namespace Lia

-- Powers of natural numbers are those of core, whatever else is in scope.
attribute [local instance (high)] instPowNat instNatPowNat

-- ---------------------------------------------------------------------------
-- Texts of numbers
-- ---------------------------------------------------------------------------

theorem tokenize_number {w : String} {n : Number} (hw : isNumberText w.toList = true)
    (hn : numberValue w.toList = .ok n) :
    tokenize w = .ok [⟨.number, .number n, some 0, w⟩, .eof w.length] := by
  have hm : munch w.toList = some ⟨.number, w.toList, []⟩ := by
    have hbroken : Broken [] := nofun
    rw [← munch_number hw hbroken, List.append_nil]
  have hv : lexemeValue .number w.toList = .ok (.number n) := by
    rw [lexemeValue, hn]
    rfl
  have hend : scan (0 + w.toList.length) [] = .ok [.eof (0 + w.toList.length)] := by rw [scan]
  have h := scan_munch hm hv hend
  rwa [String.ofList_toList, Nat.zero_add, String.length_toList] at h

/-- Printed, the number is a single token, of a number equal to it. -/
def Number.ReadsBack (n : Number) : Prop :=
  ∃ t, tokenize (Value.number n).spelling = .ok [t, .eof (Value.number n).spelling.length] ∧
    t.kind = .number ∧ t.value.same (.number n) = true

namespace Number

variable {n : Number}

theorem Unsigned.tokenize_plain (h : n.Unsigned) (hf : n.isInfinite = false) :
    tokenize n.plain = .ok [⟨.number, .number n.reread, some 0, n.plain⟩, .eof n.plain.length] := by
  obtain ⟨hw, hp⟩ := h.reread hf
  rw [← hp]
  exact tokenize_number (isNumberText_plain hw) (numberValue_plain hw)

/-- Infinity is printed as a word. -/
theorem infinite_not_readsBack : ¬ (float (.infinite false)).ReadsBack := by
  rintro ⟨t, ht, hk, -⟩
  have hend : scan 8 [] = .ok [.eof 8] := by rw [scan]
  have hword : tokenize "Infinity" = .ok [⟨.ident, "Infinity", some 0, "Infinity"⟩, .eof 8] :=
    scan_munch (s := "Infinity".toList) (m := ⟨.ident, _, []⟩) rfl rfl hend
  rw [show (Value.number (float (.infinite false))).spelling = "Infinity" from rfl, hword] at ht
  obtain ⟨rfl, -⟩ := List.cons.inj (Except.ok.inj ht)
  cases hk

theorem Unsigned.readsBack_iff (h : n.Unsigned) : n.ReadsBack ↔ n.Faithful := by
  cases hf : n.isInfinite with
  | false =>
    rw [← h.same_reread_iff hf]
    have hplain := h.tokenize_plain hf
    constructor
    · rintro ⟨t, ht, -, hs⟩
      obtain ⟨rfl, -⟩ := List.cons.inj (Except.ok.inj (hplain.symm.trans ht))
      exact hs
    · intro hs
      exact ⟨_, hplain, rfl, hs⟩
  | true =>
    have hn : n = .float (.infinite false) := by
      cases h with
      | int => cases hf
      | @float x hx =>
        cases x with
        | finite => cases hf
        | infinite s =>
          obtain rfl : s = false := hx
          rfl
    rw [hn]
    exact iff_of_false infinite_not_readsBack nofun

end Number

-- ---------------------------------------------------------------------------
-- Programs
-- ---------------------------------------------------------------------------

/-- All the numbers are faithful. -/
def AllFaithful (ns : List Number) : Prop := ∀ n ∈ ns, n.Faithful

theorem allFaithful_append {ns ms : List Number} :
    AllFaithful (ns ++ ms) ↔ AllFaithful ns ∧ AllFaithful ms := List.forall_mem_append

theorem allFaithful_nil : AllFaithful [] := nofun

theorem allFaithful_singleton {n : Number} : AllFaithful [n] ↔ n.Faithful :=
  List.forall_mem_singleton

theorem Value.text_same_self (s : String) : (Value.text s).same (.text s) = true :=
  same_text_iff.2 rfl

theorem Number.Unsigned.value_same_iff {n : Number} (h : n.Unsigned)
    (hf : AllFinite (Value.number n).numbers) :
    (Value.number n).reread.same (.number n) = true ↔ AllFaithful (Value.number n).numbers := by
  have hn := h.same_reread_iff (hf n (List.mem_singleton_self n))
  exact hn.trans allFaithful_singleton.symm

theorem Value.WellFormedArg.isNaN {v : Value} (h : v.WellFormedArg) : v.isNaN = false := by
  cases h with
  | text => rfl
  | number h => cases h <;> rfl

theorem Value.WellFormedArg.same_iff {v : Value} (h : v.WellFormedArg) (hf : AllFinite v.numbers) :
    v.reread.same v = true ↔ AllFaithful v.numbers := by
  cases h with
  | text => exact iff_of_true (Value.text_same_self _) allFaithful_nil
  | number h => exact h.value_same_iff hf

theorem Value.WellFormedDuration.same_iff {d : Value} (h : d.WellFormedDuration)
    (hf : AllFinite d.numbers) : d.reread.same d = true ↔ AllFaithful d.numbers := by
  cases h with
  | null => exact iff_of_true rfl allFaithful_nil
  | number h => exact h.value_same_iff hf

theorem sameItems_reread_iff {args : List Value} (h : ∀ a ∈ args, a.WellFormedArg)
    (hf : AllFinite (args.flatMap Value.numbers)) :
    Value.sameItems (args.map Value.reread) args = true ↔
      AllFaithful (args.flatMap Value.numbers) := by
  induction args with
  | nil => exact iff_of_true rfl allFaithful_nil
  | cons a args ih =>
    obtain ⟨ha, h⟩ := List.forall_mem_cons.1 h
    obtain ⟨hfa, hf⟩ := allFinite_append.1 hf
    rw [List.map_cons, List.flatMap_cons, Value.sameItems_cons,
      Value.sameItem_eq_same_right ha.isNaN, Bool.and_eq_true, allFaithful_append,
      ha.same_iff hfa, ih h hf]

theorem Trigger.Writable.same_self {t : Trigger} (h : t.Writable) : t.same t = true := by
  cases h with
  | start | click => rfl
  | key | backdrop => exact Value.text_same_self _

mutual
/-- A statement comes back equal if all its numbers do. -/
theorem Stmt.WellFormed.same_iff {s : Stmt} : s.WellFormed → AllFinite s.numbers →
    (s.reread.same s = true ↔ AllFaithful s.numbers)
  | .event h, _ => iff_of_true h.same_self allFaithful_nil
  | .repeatTimes hn hb, hf => by
    obtain ⟨hfn, hfb⟩ := allFinite_append.1 hf
    rw [Stmt.numbers, allFaithful_append, Stmt.reread, Stmt.same, Bool.and_eq_true,
      hn.value_same_iff hfn, hb.same_iff hfb]
  | .forever hb, hf => hb.same_iff hf
  | .branch hc hb, hf => by
    rw [Stmt.numbers, Stmt.reread, Stmt.same, Bool.and_eq_true,
      and_iff_right (Value.text_same_self _)]
    exact hb.same_iff hf
  | .branchElse hc hb ha, hf => by
    obtain ⟨hfb, hfa⟩ := allFinite_append.1 hf
    rw [Stmt.numbers, allFaithful_append, Stmt.reread, Stmt.same, Bool.and_eq_true,
      Bool.and_eq_true, and_iff_right (Value.text_same_self _), hb.same_iff hfb, ha.same_iff hfa]
  | .awaitUntil hc, _ => iff_of_true (Value.text_same_self _) allFaithful_nil
  | .call hn hk ha hd, hf => by
    obtain ⟨hfa, hfd⟩ := allFinite_append.1 hf
    rw [Stmt.numbers, allFaithful_append, Stmt.reread, Stmt.same, Bool.and_eq_true,
      Bool.and_eq_true, and_iff_right (Value.text_same_self _), sameItems_reread_iff ha hfa,
      hd.same_iff hfd]
  | .empty, _ => iff_of_true rfl allFaithful_nil
theorem Stmt.AllWellFormed.same_iff {ss : List Stmt} : Stmt.AllWellFormed ss →
    AllFinite (Stmt.numbersAll ss) →
    (Stmt.sameAll (Stmt.rereadAll ss) ss = true ↔ AllFaithful (Stmt.numbersAll ss))
  | .nil, _ => iff_of_true rfl allFaithful_nil
  | .cons hs hss _, hf => by
    obtain ⟨hfs, hfss⟩ := allFinite_append.1 hf
    rw [Stmt.numbersAll, allFaithful_append, Stmt.rereadAll, Stmt.sameAll, Bool.and_eq_true,
      hs.same_iff hfs, hss.same_iff hfss]
end

-- ---------------------------------------------------------------------------
-- Main statement
-- ---------------------------------------------------------------------------

variable {source indent : String} {p : Program}

theorem Program.reparse_iff (h : parseSource source = .ok p) (hf : AllFinite p.numbers)
    (hi : ∀ c ∈ indent.toList, isSpace c = true) :
    ∃ text q, p.format indent = .ok text ∧ parseSource text = .ok q ∧
      (q.same p = true ↔ AllFaithful p.numbers) := by
  obtain ⟨text, htext, hparse, -⟩ := Program.exists_reparse h hf hi
  exact ⟨text, p.reread, htext, hparse, (Program.WellFormed.of_parseSource h).same_iff hf⟩

/-- A number that a source spells is read back from its text just if it is faithful, and a
parsed program without infinities is read back just if all its numbers are. -/
theorem readsBack_iff_faithful {ts : List Token} (hts : tokenize source = .ok ts) :
    (∀ t ∈ ts, t.kind = .number →
      ∃ n, t.value = .number n ∧ (n.ReadsBack ↔ n.Faithful)) ∧
    ∀ p indent, parseSource source = .ok p → AllFinite p.numbers →
      (∀ c ∈ indent.toList, isSpace c = true) →
      ∃ text q, p.format indent = .ok text ∧ parseSource text = .ok q ∧
        (q.same p = true ↔ AllFaithful p.numbers) := by
  constructor
  · intro t ht hk
    obtain ⟨us, rfl, hus⟩ := tokenize_spelt hts
    obtain ht | ht := List.mem_append.1 ht
    · obtain ⟨n, hv, hn⟩ := (hus t ht).number hk
      exact ⟨n, hv, hn.readsBack_iff⟩
    · rw [List.mem_singleton.1 ht] at hk
      cases hk
  · intro p indent h hf hi
    exact Program.reparse_iff h hf hi

theorem large_faithful : large.Faithful := by
  rw [large_eq]
  exact .exact (by decide +kernel)

/-- 10^16 is not below the bound, but its decimal is exact. -/
theorem rest_readsBack : tokenize restSource = .ok restTokens ∧ large.ReadsBack ∧
    parseSource restSource = .ok rest ∧ AllFinite rest.numbers ∧
    ∃ text q, rest.format = .ok text ∧ parseSource text = .ok q ∧ q.same rest = true := by
  have hmem : ⟨.number, .number large, some 5, "10000000000000000.0"⟩ ∈ restTokens := by
    simp [restTokens]
  obtain ⟨n, hn, hiff⟩ := (readsBack_iff_faithful rest_tokens).1 _ hmem rfl
  obtain rfl : large = n := Value.number.inj hn
  have hindent : ∀ c ∈ defaultIndent.toList, isSpace c = true := List.all_eq_true.1 rfl
  have hall : AllFaithful rest.numbers := by
    rw [rest_numbers]
    exact allFaithful_singleton.2 large_faithful
  obtain ⟨text, q, htext, hq, hsame⟩ :=
    (readsBack_iff_faithful rest_tokens).2 _ _ rest_parsed rest_finite hindent
  exact ⟨rest_tokens, hiff.2 large_faithful, rest_parsed, rest_finite, text, q, htext, hq,
    hsame.2 hall⟩

/-- Units of the value nearest to 10^23, which is less than 10^23. -/
def roundedUnits : Nat := 99999999999999991611392 * Binary64.unitsPerOne

theorem representable_roundedUnits : Representable roundedUnits :=
  ⟨5960464477539062, 24 + Binary64.unitBits, by decide, by decide, by decide +kernel⟩

/-- 10^23, as a value. -/
def rounded : Number := .float ((Decimal.mk 1000000000000000000000000 (-1)).toBinary64 false)

theorem rounded_eq : rounded = .float (.finite false roundedUnits representable_roundedUnits) := by
  decide +kernel

/-- The shortest decimal of the value is 10^23 itself. -/
theorem rounded_not_faithful : ¬ rounded.Faithful := by
  rw [rounded_eq, Number.faithful_finite_iff]
  decide +kernel

def roundedSource : String := "wait(100000000000000000000000.0);"

def roundedTokens : List Token :=
  let punct (s : String) (pos : Nat) : Token := ⟨.punct, s, some pos, s⟩
  [⟨.ident, "wait", some 0, "wait"⟩, punct "(" 4,
    ⟨.number, .number rounded, some 5, "100000000000000000000000.0"⟩, punct ")" 31, punct ";" 32,
    .eof 33]

def roundedProgram : Program := ⟨[.call "wait" [.number rounded] .null]⟩

theorem rounded_tokens : tokenize roundedSource = .ok roundedTokens := by
  have hend : scan 33 [] = .ok [.eof 33] := by rw [scan]
  have hnumber : scan 5 "100000000000000000000000.0);".toList = .ok _ :=
    scan_munch rfl rfl (scan_munch rfl rfl (scan_munch rfl rfl hend))
  exact scan_munch (s := roundedSource.toList) (m := ⟨.ident, _, _⟩) rfl rfl
    (scan_munch (m := ⟨.punct, _, _⟩) rfl rfl hnumber)

theorem rounded_parsed : parseSource roundedSource = .ok roundedProgram :=
  parseSource_ok_iff.2 ⟨_, rounded_tokens,
    (parse_ok_iff (tokenize_tokenized rounded_tokens) none roundedProgram).1 rfl⟩

/-- The text has the integer 10^23, which is another number. -/
theorem rounded_not_readsBack : tokenize roundedSource = .ok roundedTokens ∧
    ¬ rounded.ReadsBack ∧ parseSource roundedSource = .ok roundedProgram ∧
    ∃ text q, roundedProgram.format = .ok text ∧ parseSource text = .ok q ∧
      q.same roundedProgram = false := by
  have hnumbers : roundedProgram.numbers = [rounded] := rfl
  have hunsigned : rounded.Unsigned := .float (Decimal.negative_toBinary64 _ _)
  have hfinite : AllFinite roundedProgram.numbers := by
    rw [hnumbers, rounded_eq]
    exact List.forall_mem_singleton.2 rfl
  have hindent : ∀ c ∈ defaultIndent.toList, isSpace c = true := List.all_eq_true.1 rfl
  have hreads : ¬ rounded.ReadsBack := by
    rw [hunsigned.readsBack_iff]
    exact rounded_not_faithful
  obtain ⟨text, q, htext, hq, hsame⟩ := Program.reparse_iff rounded_parsed hfinite hindent
  refine ⟨rounded_tokens, hreads, rounded_parsed, text, q, htext, hq, Bool.eq_false_iff.2 ?_⟩
  rw [Ne, hsame, hnumbers]
  intro h
  exact rounded_not_faithful (allFaithful_singleton.1 h)

end Lia

import Lia.Proofs.Stmt.WellFormed

/-!
# Printed text is stable

A parsed program is printed, parsed and printed again with the same text
(`parseSource_format_stable`). The program in between is not always the first one: a value
of 10^16 or more has come back as an integer.
-/

namespace Lia

-- Powers of natural numbers are those of core, whatever else is in scope.
attribute [local instance (high)] instPowNat instNatPowNat

-- ---------------------------------------------------------------------------
-- Numbers of programs
-- ---------------------------------------------------------------------------

namespace Value

def numbers : Value → List Number
  | .number n => [n]
  | _ => []

def reread : Value → Value
  | .number n => .number n.reread
  | v => v

end Value

namespace Stmt

mutual
/-- The counts, arguments and durations that are numbers. -/
def numbers : Stmt → List Number
  | .repeatTimes count body => count.numbers ++ numbersAll body
  | .forever body | .program body => numbersAll body
  | .branch _ consequent none => numbersAll consequent
  | .branch _ consequent (some alternate) => numbersAll consequent ++ numbersAll alternate
  | .call _ args duration => args.flatMap Value.numbers ++ duration.numbers
  | .event _ | .awaitUntil _ | .empty => []
termination_by structural s => s
def numbersAll : List Stmt → List Number
  | [] => []
  | s :: ss => s.numbers ++ numbersAll ss
termination_by structural ss => ss
end

mutual
/-- The statement with each number as its text reads. -/
def reread : Stmt → Stmt
  | .repeatTimes count body => .repeatTimes count.reread (rereadAll body)
  | .forever body => .forever (rereadAll body)
  | .branch condition consequent none => .branch condition (rereadAll consequent) none
  | .branch condition consequent (some alternate) =>
    .branch condition (rereadAll consequent) (some (rereadAll alternate))
  | .call name args duration => .call name (args.map Value.reread) duration.reread
  | .program body => .program (rereadAll body)
  | .event t => .event t
  | .awaitUntil condition => .awaitUntil condition
  | .empty => .empty
termination_by structural s => s
def rereadAll : List Stmt → List Stmt
  | [] => []
  | s :: ss => s.reread :: rereadAll ss
termination_by structural ss => ss
end

end Stmt

def Program.numbers (p : Program) : List Number := Stmt.numbersAll p.body

def Program.reread (p : Program) : Program := ⟨Stmt.rereadAll p.body⟩

/-- None of the numbers is an infinity. -/
def AllFinite (ns : List Number) : Prop := ∀ n ∈ ns, n.isInfinite = false

theorem allFinite_append {ns ms : List Number} :
    AllFinite (ns ++ ms) ↔ AllFinite ns ∧ AllFinite ms := List.forall_mem_append

-- ---------------------------------------------------------------------------
-- Conditions
-- ---------------------------------------------------------------------------

theorem Token.Spelt.isConditionWord {t : Token} (h : t.unplaced.Spelt) (hp : t.isPunct ")" = false) :
    IsConditionWord t.text := by
  have hs : t.kind.spells t.text.toList = true := h.spells
  have hv : lexemeValue t.kind t.text.toList = .ok t.value := h.value
  refine ⟨⟨t.kind, hs⟩, fun htext => ?_, fun hdigits => ?_⟩
  · rw [htext] at hs hv
    have hk : t.kind = .punct := TokenKind.spells_unique hs rfl
    rw [hk] at hv
    have hvalue : Value.text ")" = t.value := Except.ok.inj hv
    rw [Token.isPunct_iff.2 ⟨hk, hvalue.symm⟩] at hp
    cases hp
  · by_cases hne : t.text.toList = []
    · rw [← String.length_toList, hne]
      decide
    · have hk : t.kind = .number := TokenKind.spells_unique hs (isNumberText_digits hne hdigits)
      rw [hk] at hv
      obtain ⟨n, hn, -⟩ := lexemeValue_number hv
      rw [← String.length_toList]
      by_contra hlen
      rw [numberValue_of_tooLong ⟨hdigits, Nat.not_le.1 hlen⟩] at hn
      cases hn

theorem IsConditionText.writable {c : String} (h : IsConditionText c) :
    (Value.text c).WritableCondition := by
  obtain ⟨ts, hts, hin, hc⟩ := h
  obtain ⟨us, hus, hspelt⟩ := tokenize_spelt hts
  obtain rfl := (List.append_inj' hus rfl).1
  rw [← hc]
  refine .mk fun w hw => ?_
  obtain ⟨t, ht, rfl⟩ := List.mem_map.1 hw
  exact (hspelt t ht).isConditionWord (hin t ht).1

-- ---------------------------------------------------------------------------
-- Values
-- ---------------------------------------------------------------------------

theorem Value.WellFormedArg.reread {v : Value} (h : v.WellFormedArg) (hf : AllFinite v.numbers) :
    v.reread.WritableArg ∧ v.reread.spelling = v.spelling := by
  cases h with
  | text h => exact ⟨.text h, rfl⟩
  | @number n h =>
    obtain ⟨hw, hp⟩ := h.reread (hf n (by simp [Value.numbers]))
    exact ⟨.number hw, hp⟩

theorem Value.WellFormedDuration.reread {d : Value} (h : d.WellFormedDuration)
    (hf : AllFinite d.numbers) :
    d.reread.WritableDuration ∧ d.reread.isNull = d.isNull ∧ d.reread.spelling = d.spelling := by
  cases h with
  | null => exact ⟨.null, rfl, rfl⟩
  | @number n h =>
    obtain ⟨hw, hp⟩ := h.reread (hf n (by simp [Value.numbers]))
    exact ⟨.number hw, rfl, hp⟩

theorem reread_arguments {args : List Value} (h : ∀ a ∈ args, a.WellFormedArg)
    (hf : AllFinite (args.flatMap Value.numbers)) :
    (∀ a ∈ args.map Value.reread, a.WritableArg) ∧
      (args.map Value.reread).map Value.spelling = args.map Value.spelling := by
  have hreread (a) (ha : a ∈ args) := (h a ha).reread fun n hn => hf n (List.mem_flatMap.2 ⟨a, ha, hn⟩)
  constructor
  · simpa using fun a ha => (hreread a ha).1
  · simpa using fun a ha => (hreread a ha).2

-- ---------------------------------------------------------------------------
-- Statements
-- ---------------------------------------------------------------------------

theorem Stmt.isOpen_reread (s : Stmt) : s.reread.isOpen = s.isOpen := by
  cases s with
  | branch _ _ alternate => cases alternate <;> rfl
  | _ => rfl

theorem Stmt.reread_eq_call {s : Stmt} (h : s.reread = .call name args d) :
    ∃ args' d', s = .call name args' d' := by
  cases s with
  | call => exact ⟨_, _, by rw [(Stmt.call.inj h).1]⟩
  | branch _ _ alternate => cases alternate <;> cases h
  | _ => cases h

theorem Stmt.call_not_mem_head {ss : List Stmt} (h : ∀ args d, Stmt.call name args d ∉ ss.head?)
    (args : List Value) (d : Value) : Stmt.call name args d ∉ (Stmt.rereadAll ss).head? := by
  intro hs
  cases ss with
  | nil => cases hs
  | cons s ss =>
    obtain ⟨args', d', rfl⟩ := Stmt.reread_eq_call (Option.some.inj hs)
    exact h args' d' rfl

theorem reread_call {name : String} {args : List Value} {d : Value} (hn : isIdentText name.toList)
    (hk : name ∉ Grammar.constructWords) (ha : ∀ a ∈ args, a.WellFormedArg)
    (hd : d.WellFormedDuration) (hf : AllFinite (Stmt.call (.text name) args d).numbers) :
    (Stmt.call (.text name) args d).reread.Writable ∧ ∀ indent depth,
      (Stmt.call (.text name) args d).reread.print indent depth =
        (Stmt.call (.text name) args d).print indent depth := by
  obtain ⟨hfa, hfd⟩ := allFinite_append.1 hf
  obtain ⟨hwa, hpa⟩ := reread_arguments ha hfa
  obtain ⟨hwd, hnull, hpd⟩ := hd.reread hfd
  refine ⟨.call hn hk hwa hwd, fun indent depth => ?_⟩
  have hempty : (args.map Value.reread).isEmpty = args.isEmpty := by simp
  rw [Stmt.reread, Stmt.print, Stmt.print, callSpelling, callSpelling, hempty, hpa, hnull, hpd]

mutual
/-- The statement that is read back can be written, and is printed alike. -/
theorem Stmt.WellFormed.reread {s : Stmt} : s.WellFormed → AllFinite s.numbers →
    s.reread.Writable ∧ ∀ indent depth, s.reread.print indent depth = s.print indent depth
  | .event h, _ => ⟨.event h, fun _ _ => rfl⟩
  | .repeatTimes (n := n) hn hb, hf => by
    obtain ⟨hfn, hfb⟩ := allFinite_append.1 hf
    obtain ⟨hw, hp⟩ := hn.reread (hfn n (by simp [Value.numbers]))
    obtain ⟨hwb, hpb⟩ := hb.reread hfb
    refine ⟨.repeatTimes hw hwb, fun indent depth => ?_⟩
    rw [Stmt.reread, Stmt.print, Stmt.print, hpb, Value.reread, Value.spelling, Value.spelling, hp]
  | .forever hb, hf => by
    obtain ⟨hwb, hpb⟩ := hb.reread hf
    refine ⟨.forever hwb, fun indent depth => ?_⟩
    rw [Stmt.reread, Stmt.print, Stmt.print, hpb]
  | .branch hc hb, hf => by
    obtain ⟨hwb, hpb⟩ := hb.reread hf
    refine ⟨.branch hc.writable hwb, fun indent depth => ?_⟩
    rw [Stmt.reread, Stmt.print, Stmt.print, hpb]
  | .branchElse hc hb ha, hf => by
    obtain ⟨hfb, hfa⟩ := allFinite_append.1 hf
    obtain ⟨hwb, hpb⟩ := hb.reread hfb
    obtain ⟨hwa, hpa⟩ := ha.reread hfa
    refine ⟨.branchElse hc.writable hwb hwa, fun indent depth => ?_⟩
    rw [Stmt.reread, Stmt.print, Stmt.print, hpb, hpa]
  | .awaitUntil hc, _ => ⟨.awaitUntil hc.writable, fun _ _ => rfl⟩
  | .call hn hk ha hd, hf => reread_call hn hk ha hd hf
  | .empty, _ => ⟨.empty, fun _ _ => rfl⟩
theorem Stmt.AllWellFormed.reread {ss : List Stmt} : Stmt.AllWellFormed ss →
    AllFinite (Stmt.numbersAll ss) → Stmt.AllWritable (Stmt.rereadAll ss) ∧ ∀ indent depth,
      Stmt.printAll indent depth (Stmt.rereadAll ss) = Stmt.printAll indent depth ss
  | .nil, _ => ⟨.nil, fun _ _ => rfl⟩
  | .cons (s := s) hs hss he, hf => by
    obtain ⟨hfs, hfss⟩ := allFinite_append.1 hf
    obtain ⟨hw, hp⟩ := hs.reread hfs
    obtain ⟨hws, hps⟩ := hss.reread hfss
    refine ⟨.cons hw hws fun ho => ?_, fun indent depth => ?_⟩
    · rw [Stmt.isOpen_reread] at ho
      exact Stmt.call_not_mem_head (he ho)
    · rw [Stmt.rereadAll, Stmt.printAll, Stmt.printAll, hp, hps]
end

-- ---------------------------------------------------------------------------
-- Parsed programs
-- ---------------------------------------------------------------------------

theorem Program.exists_reparse {source : String} {p : Program} (h : parseSource source = .ok p)
    (hf : AllFinite p.numbers) {indent : String} (hi : ∀ c ∈ indent.toList, isSpace c = true) :
    ∃ text, p.format indent = .ok text ∧ parseSource text = .ok p.reread ∧
      p.reread.format indent = .ok text := by
  obtain ⟨hw, hp⟩ := Stmt.AllWellFormed.reread (Program.WellFormed.of_parseSource h) hf
  obtain ⟨ts, hts, hl⟩ := hw.spells hi 0
  obtain ⟨text, htext, hspelled⟩ := hl.text
  have hformat : p.reread.format indent = .ok text := htext
  have hsame : p.format indent = p.reread.format indent := by
    rw [Program.format, Program.format, Program.reread, hp]
  exact ⟨text, hsame.trans hformat, parseSource_of_spelled hspelled hts, hformat⟩

/-- A parsed program without infinities is printed as a text that is parsed and printed as
the same text, even if large values have lost their points and are integers then. -/
theorem parseSource_format_stable {source : String} {p : Program} (h : parseSource source = .ok p)
    (hf : AllFinite p.numbers) {indent : String} (hi : ∀ c ∈ indent.toList, isSpace c = true) :
    (∃ text, p.format indent = .ok text ∧ parseSource text = .ok p.reread ∧
      p.reread.format indent = .ok text) ∧
    ∀ n ∈ p.numbers, n.IsLarge → '.' ∉ n.plain.toList ∧ ∃ m : Nat, n.reread = .int m := by
  refine ⟨Program.exists_reparse h hf hi, ?_⟩
  intro n _ hn
  obtain ⟨m, -, hm, -⟩ := hn.reread_eq
  exact ⟨hn.point_not_mem, m, hm⟩

def restSource : String := "wait(10000000000000000.0);"

/-- 10^16, as a value. -/
def large : Number := .float ((Decimal.mk 100000000000000000 (-1)).toBinary64 false)

def restTokens : List Token :=
  let punct (s : String) (pos : Nat) : Token := ⟨.punct, s, some pos, s⟩
  [⟨.ident, "wait", some 0, "wait"⟩, punct "(" 4,
    ⟨.number, .number large, some 5, "10000000000000000.0"⟩, punct ")" 24, punct ";" 25, .eof 26]

def rest : Program := ⟨[.call "wait" [.number large] .null]⟩

theorem large_eq : large = .float (.finite false _ Decimal.representable_bound) := by
  have hn : (Decimal.mk 100000000000000000 (-1)).numerator = 10 ^ (16 : Nat) * 10 := by decide
  have hd : (Decimal.mk 100000000000000000 (-1)).denominator = 10 := by decide
  rw [large, Decimal.toBinary64, Binary64.ofRatio, hn, hd, Nat.mul_right_comm,
    Binary64.ofUnits_of_representable false Decimal.representable_bound 10 (by decide)]

theorem rest_tokens : tokenize restSource = .ok restTokens := by
  have hend : scan 26 [] = .ok [.eof 26] := by rw [scan]
  have hnumber : scan 5 "10000000000000000.0);".toList = .ok _ :=
    scan_munch rfl rfl (scan_munch rfl rfl (scan_munch rfl rfl hend))
  exact scan_munch (s := restSource.toList) (m := ⟨.ident, _, _⟩) rfl rfl
    (scan_munch (m := ⟨.punct, _, _⟩) rfl rfl hnumber)

theorem rest_parsed : parseSource restSource = .ok rest :=
  parseSource_ok_iff.2
    ⟨_, rest_tokens, (parse_ok_iff (tokenize_tokenized rest_tokens) none rest).1 rfl⟩

theorem rest_numbers : rest.numbers = [large] := rfl

theorem rest_finite : AllFinite rest.numbers := by
  rw [rest_numbers, large_eq]
  exact List.forall_mem_singleton.2 rfl

theorem rest_stable : parseSource restSource = .ok rest ∧ AllFinite rest.numbers ∧ large.IsLarge ∧
    (∃ text, rest.format = .ok text ∧ parseSource text = .ok rest.reread ∧
      rest.reread.format = .ok text) ∧
    '.' ∉ large.plain.toList ∧ ∃ m : Nat, large.reread = .int m := by
  have hlarge : large.IsLarge := large_eq ▸ .mk (Nat.le_refl _)
  have hindent : ∀ c ∈ defaultIndent.toList, isSpace c = true := List.all_eq_true.1 rfl
  obtain ⟨htext, hreread⟩ := parseSource_format_stable rest_parsed rest_finite hindent
  have hmem : large ∈ rest.numbers := rest_numbers ▸ List.mem_singleton_self _
  exact ⟨rest_parsed, rest_finite, hlarge, htext, hreread large hmem hlarge⟩

end Lia

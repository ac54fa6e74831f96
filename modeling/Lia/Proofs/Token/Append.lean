import Lia.Proofs.Token.Segmentation

/-!
# Texts behind one another

No lexeme goes on over a stop, and every break is one, so what stands behind it makes no
difference to the tokens before it. Main statement: a text that spells tokens up to a final
mark spells them before any other text (`Spelled.append`).
-/

namespace Lia

variable {k : TokenKind} {v w r s : List Char}

-- ---------------------------------------------------------------------------
-- Lexemes
-- ---------------------------------------------------------------------------

theorem isNumberText_mem (hw : isNumberText w = true) :
    ∀ c ∈ w, c.isDigit = true ∨ c = '.' := by
  obtain ⟨ds, -, hd, rfl | ⟨fs, -, hf, rfl⟩⟩ := isNumberText_cases hw
  · exact fun c hc => .inl (hd c hc)
  · intro c hc
    simp only [List.mem_append, List.mem_cons] at hc
    rcases hc with hc | rfl | hc
    · exact .inl (hd c hc)
    · exact .inr rfl
    · exact .inl (hf c hc)

/-- The characters that no lexeme goes on with. -/
def isStop (c : Char) : Bool := !isIdentChar c && c != '=' && c != '>'

theorem isStop_of_isBreak {c : Char} (h : isBreak c = true) : isStop c = true :=
  forall_break (by decide) h

theorem isStop_of_isDigit {c : Char} (h : c.isDigit = true) : isStop c = false := by
  simp [isStop, isIdentChar, Char.isAlphanum, h]

/-- A spelling that goes on in its class has no stop where it does. -/
theorem TokenKind.spells_append (hw : k.spells w = true) (hwv : k.spells (w ++ v) = true) :
    ∀ c ∈ v, isStop c = false := by
  intro c hc
  cases k with
  | punct =>
    rcases w with _ | ⟨a, _ | ⟨b, _ | _⟩⟩
    · cases hw
    · rcases v with _ | ⟨b, _ | _⟩
      · cases hc
      · obtain rfl := List.mem_singleton.1 hc
        change isPunctPair a c = true at hwv
        simp only [isPunctPair, Bool.or_eq_true, Bool.and_eq_true, decide_eq_true_eq] at hwv
        rcases hwv with ⟨rfl, -⟩ | ⟨-, rfl⟩ <;> rfl
      · cases hwv
    · cases v with
      | nil => cases hc
      | cons => cases hwv
    · cases hw
  | ident =>
    cases w with
    | nil => cases hw
    | cons a w =>
      simp only [spells, isIdentText, List.cons_append, List.all_append, Bool.and_eq_true,
        List.all_eq_true] at hwv
      simp [isStop, hwv.2.2 c hc]
  | string =>
    have h := munch_string (s := []) hwv
    rw [List.append_nil, munch_string hw] at h
    obtain rfl : v = [] := by simpa using h
    cases hc
  | number =>
    rcases isNumberText_mem hwv c (List.mem_append_right _ hc) with h | rfl
    · exact isStop_of_isDigit h
    · rfl
  | eof | other => cases hw

/-- A lexeme is the same if more follows behind a stop. -/
theorem munch_append_right (hm : munch (w ++ s) = some ⟨k, w, s⟩)
    (hs : ∃ c ∈ s, isStop c = true) (r : List Char) :
    munch (w ++ (s ++ r)) = some ⟨k, w, s ++ r⟩ := by
  have hw := munch_spells hm
  obtain ⟨v, s', hm'⟩ := munch_spells_append hw (s ++ r)
  have hwv := munch_spells hm'
  have happend : v ++ s' = s ++ r := by simpa using munch_append hm'
  rcases List.append_eq_append_iff.1 happend with ⟨u, rfl, rfl⟩ | ⟨u, rfl, -⟩
  · -- A lexeme that goes on inside `s` would have been taken there as well.
    obtain ⟨v', _, hu⟩ := munch_spells_append hwv u
    rw [List.append_assoc, hm] at hu
    obtain rfl : v = [] := by
      have h := (Munch.mk.inj (Option.some.inj hu)).2.1
      simp at h
      exact h.1
    simpa using hm'
  · obtain ⟨c, hc, hb⟩ := hs
    have h := TokenKind.spells_append hw hwv c (List.mem_append_left _ hc)
    rw [hb] at h
    cases h

-- ---------------------------------------------------------------------------
-- Texts
-- ---------------------------------------------------------------------------

/-- The last token of a statement. -/
def Token.IsEnd (t : Token) : Prop := t.isPunct ";" = true ∨ t.isPunct "\x7d" = true

theorem Token.IsEnd.lexeme {value : Value} {text : String}
    (h : Token.IsEnd ⟨k, value, none, text⟩) (hv : lexemeValue k w = .ok value) :
    k = .punct ∧ ∃ c, w = [c] ∧ "\x7b\x7d();,".toList.contains c = true := by
  have hmark {m : String} (hp : Token.isPunct ⟨k, value, none, text⟩ m = true) :
      k = .punct ∧ w = m.toList := by
    obtain ⟨hk, hvalue⟩ := isPunct_iff.1 hp
    dsimp only at hk hvalue
    subst hk hvalue
    have hw : String.ofList w = m := by simpa [lexemeValue] using hv
    simp [← hw]
  rcases h with h | h
  · exact ⟨(hmark h).1, ';', (hmark h).2, by decide⟩
  · exact ⟨(hmark h).1, '\x7d', (hmark h).2, by decide⟩

namespace Spelled

variable {ts us : List Token} {t : Token}

theorem exists_stop (h : Spelled ts s) (ht : t ∈ ts) (he : t.IsEnd) :
    ∃ c ∈ s, isStop c = true := by
  induction h with
  | nil => cases ht
  | space _ _ ih =>
    obtain ⟨c, hc, hb⟩ := ih ht
    exact ⟨c, .tail _ hc, hb⟩
  | lexeme _ hv _ ih =>
    rcases List.mem_cons.1 ht with rfl | ht
    · obtain ⟨-, c, rfl, hc⟩ := he.lexeme hv
      exact ⟨c, by simp, isStop_of_isBreak (Bool.or_eq_true_iff.2 (.inr hc))⟩
    · obtain ⟨c, hc, hb⟩ := ih ht
      exact ⟨c, List.mem_append_right _ hc, hb⟩

theorem append (h : Spelled ts s) (he : ∀ t ∈ ts.getLast?, t.IsEnd) (hr : Spelled us r) :
    Spelled (ts ++ us) (s ++ r) := by
  induction h with
  | nil => exact hr
  | space hc _ ih => exact .space hc (ih he)
  | @lexeme w s ts k v hm hv h ih =>
    rw [List.append_assoc]
    -- The last lexeme is a mark that never goes on; the others have that mark behind them.
    cases ts with
    | nil =>
      obtain ⟨rfl, c, rfl, hc⟩ := (he _ rfl).lexeme hv
      exact .lexeme (munch_mark hc) hv (ih nofun)
    | cons t ts =>
      have hlast : ∀ t' ∈ (t :: ts).getLast?, t'.IsEnd := by simpa using he
      obtain ⟨t', ht'⟩ : ∃ t', t' ∈ (t :: ts).getLast? := ⟨_, List.getLast?_cons⟩
      have hstop := h.exists_stop (List.mem_of_getLast? ht') (hlast t' ht')
      exact .lexeme (munch_append_right hm hstop r) hv (ih hlast)

end Spelled

end Lia

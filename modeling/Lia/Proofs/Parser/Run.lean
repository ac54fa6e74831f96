import Lia.Parser

/-!
# Runs to any goal

Whatever is to be read, and whatever has been read of it, the reader never takes an end of
the source (`State.step_eof_stays`). So a run over tokens that have one stops at a token
(`run_ne_outOfTokens`), at the first end at the latest (`run_taken_le`), and what stands
behind that makes no difference (`run_congr`).
-/

namespace Lia

/-- Where the first end of the source stands; the number of tokens if there is none. -/
def endIndex (ts : List Token) : Nat := ts.findIdx Token.isEof

/-- The same tokens up to the first end of the source. -/
inductive AlikeToEnd : List Token → List Token → Prop
  | here {e : Token} (he : e.isEof = true) : AlikeToEnd (e :: ts) (e :: us)
  | later {t : Token} (ht : t.isEof = false) (h : AlikeToEnd ts us) :
      AlikeToEnd (t :: ts) (t :: us)

section
variable {t : Token} {ts us : List Token} {i : Nat}

theorem endIndex_cons_of_eof (h : t.isEof = true) : endIndex (t :: ts) = 0 := by
  simp [endIndex, List.findIdx_cons, h]

theorem endIndex_cons (h : t.isEof = false) : endIndex (t :: ts) = endIndex ts + 1 := by
  simp [endIndex, List.findIdx_cons, h]

theorem endIndex_drop (h : i ≤ endIndex ts) : endIndex (ts.drop i) = endIndex ts - i := by
  induction i generalizing ts with
  | zero => rfl
  | succ i ih =>
    cases ts with
    | nil => cases h
    | cons t ts =>
      cases ht : t.isEof with
      | true =>
        rw [endIndex_cons_of_eof ht] at h
        cases h
      | false =>
        rw [endIndex_cons ht] at h ⊢
        rw [List.drop_succ_cons, ih (by omega)]
        omega

namespace AlikeToEnd

theorem of_take (h : endIndex ts < ts.length)
    (ht : us.take (endIndex ts + 1) = ts.take (endIndex ts + 1)) : AlikeToEnd ts us := by
  induction ts generalizing us with
  | nil => cases h
  | cons t ts ih =>
    cases us with
    | nil => simp at ht
    | cons u us =>
      obtain ⟨rfl, ht⟩ := List.cons.inj (by simpa only [List.take_succ_cons] using ht)
      cases he : u.isEof with
      | true => exact .here he
      | false =>
        rw [endIndex_cons he] at h ht
        exact .later he (ih (Nat.lt_of_succ_lt_succ h) ht)

theorem endIndex_lt (h : AlikeToEnd ts us) : endIndex us < us.length := by
  induction h with
  | here he => simp [endIndex_cons_of_eof he]
  | later ht _ ih => simpa [endIndex_cons ht] using ih

theorem drop (h : AlikeToEnd ts us) (hi : i ≤ endIndex ts) : AlikeToEnd (ts.drop i) (us.drop i) := by
  induction h generalizing i with
  | here he =>
    rw [endIndex_cons_of_eof he] at hi
    obtain rfl := Nat.le_zero.1 hi
    exact .here he
  | later ht h ih =>
    cases i with
    | zero => exact .later ht h
    | succ i =>
      rw [endIndex_cons ht] at hi
      exact ih (Nat.le_of_succ_le_succ hi)

end AlikeToEnd

end

namespace Parser

variable {g : Goal} {t : Token}

-- ---------------------------------------------------------------------------
-- The end of the source
-- ---------------------------------------------------------------------------

/-- The token is left where it is, by a goal that was reached before it or by an error. -/
def Step.stays : Step g → Bool
  | .before .. | .refuse .. => true
  | .next .. | .done _ => false

namespace State

variable (σ : State g)

section
variable (hk : t.kind = .eof)
include hk

theorem begin_eof : σ.begin t = .refuse "statement" := by
  simp [begin, Token.isIdent, Token.isPunct, hk]

theorem beginOr_eof (closed : Step g) : (σ.beginOr t closed).stays := by
  simp [beginOr, Token.isEof, Token.isPunct, hk, Step.stays]

theorem atStatement_eof : (σ.atStatement t).stays := by
  obtain ⟨phase, body, outer⟩ := σ
  cases outer with
  | cons l outer => exact beginOr_eof _ hk _
  | nil =>
    cases g with
    | program => simp [atStatement, Token.isEof, hk, Step.stays]
    | block => exact beginOr_eof _ hk _
    | statement | condition =>
      simp only [atStatement]
      rw [begin_eof _ hk]
      rfl

theorem atElse_eof (c : String) (inner : List Stmt) : (σ.atElse c inner t).stays := by
  have hw : t.isWord "else" = false := Token.isWord_of_kind (by simp [hk])
  simp only [atElse, hw]
  cases σ.asGoal? g (.branch (.text c) inner none) with
  | some r => rfl
  | none => exact atStatement_eof _ hk

end

/-- The end of the source is never taken, whatever the goal. -/
theorem step_eof_stays (ht : t.isEof = true) : (σ.step t).stays := by
  have hk := Token.isEof_iff.1 ht
  have hi : t.isIdent = false := Token.isIdent_of_kind (by simp [hk])
  have hw : ∀ s, t.isWord s = false := fun s => Token.isWord_of_kind (by simp [hk])
  have hp : ∀ s, t.isPunct s = false := fun s => Token.isPunct_of_kind (by simp [hk])
  obtain ⟨phase, body, outer⟩ := σ
  cases phase with
  | statement => exact atStatement_eof _ hk
  | afterConsequent c inner => exact atElse_eof _ hk c inner
  | brace opener => cases opener <;> simp [step, mark, hp, Step.stays]
  | _ =>
    simp [step, mark, atEventKind, atCondition, atArg, atFor, atCallEnd, hi, hw, hp, ht, hk,
      Step.stays]

end State

-- ---------------------------------------------------------------------------
-- Where a run stops
-- ---------------------------------------------------------------------------

variable {σ : State g} {ts us : List Token}

theorem run_of_stays (h : (σ.step t).stays) : (run σ (t :: ts)).taken = 0 ∧
    (run σ (t :: ts)).result ≠ .error .outOfTokens := by
  cases hs : σ.step t with
  | before r note => exact ⟨by simp [run, hs], by simp [run, hs]⟩
  | refuse expected note => exact ⟨by simp [run, hs], by simp [run, hs]⟩
  | _ => simp [hs, Step.stays] at h

theorem run_taken_le (h : endIndex ts < ts.length) : (run σ ts).taken ≤ endIndex ts := by
  induction ts generalizing σ with
  | nil => cases h
  | cons t ts ih =>
    cases ht : t.isEof with
    | true =>
      rw [(run_of_stays (σ.step_eof_stays ht)).1]
      exact Nat.zero_le _
    | false =>
      rw [endIndex_cons ht] at h ⊢
      cases hs : σ.step t with
      | next σ' note =>
        simp only [run, hs]
        exact Nat.succ_le_succ (ih (Nat.lt_of_succ_lt_succ h))
      | _ => simp [run, hs]

theorem run_ne_outOfTokens (h : endIndex ts < ts.length) :
    (run σ ts).result ≠ .error .outOfTokens := by
  induction ts generalizing σ with
  | nil => cases h
  | cons t ts ih =>
    cases ht : t.isEof with
    | true => exact (run_of_stays (σ.step_eof_stays ht)).2
    | false =>
      rw [endIndex_cons ht] at h
      cases hs : σ.step t with
      | next σ' note =>
        simp only [run, hs]
        exact ih (Nat.lt_of_succ_lt_succ h)
      | _ => simp [run, hs]

/-- What is refused is the token that the run stops at. -/
theorem run_refused (h : (run σ ts).result = .error (.refused expected t)) :
    ts[(run σ ts).taken]? = some t := by
  induction ts generalizing σ with
  | nil => cases h
  | cons u us ih =>
    cases hs : σ.step u with
    | next σ' note =>
      simp only [run, hs] at h ⊢
      simpa using ih h
    | refuse expected' note =>
      simp only [run, hs] at h ⊢
      cases h
      rfl
    | _ =>
      simp only [run, hs] at h
      cases h

/-- Nothing depends on what stands behind the first end of the source. -/
theorem run_congr (h : AlikeToEnd ts us) : run σ ts = run σ us := by
  induction h generalizing σ with
  | @here ts us e he =>
    have hstays := σ.step_eof_stays he
    cases hs : σ.step e with
    | before r note => simp [run, hs]
    | refuse expected note => simp [run, hs]
    | _ => simp [hs, Step.stays] at hstays
  | @later ts us t ht h ih =>
    cases hs : σ.step t with
    | next σ' note => simp only [run, hs, ih]
    | _ => simp [run, hs]

end Parser

end Lia

import Mathlib.Data.List.TakeWhile
import Lia.Text.Lines

/-!
# Places in a text

An offset lies in a line, so many characters from its beginning, and the newline behind a line
lies in it too. `LiesIn` says so by the lengths of the lines. Main statement: every offset of a
text lies in one line at one distance, in the line that `lineAt` counts and at the distance that
`columnAt` measures (`liesIn_iff`).
-/

namespace Lia.Text

-- ---------------------------------------------------------------------------
-- Lines
-- ---------------------------------------------------------------------------

section
variable {s l r : List Char}

theorem splitLines_eq_splitOn (s : List Char) : splitLines s = s.splitOn '\n' := by
  induction s with
  | nil => rfl
  | cons c s ih =>
    rw [List.splitOn_cons_eq_if_modifyHead, ← ih, splitLines]
    by_cases hc : c = '\n'
    · simp [hc]
    · rw [if_neg hc, if_neg (by simpa using hc)]
      cases h : splitLines s with
      | nil => exact absurd (ih.symm.trans h) (List.splitOn_ne_nil _ _)
      | cons => rfl

theorem splitLines_line (hl : '\n' ∉ l) : splitLines l = [l] := by
  rw [splitLines_eq_splitOn, List.splitOn_eq_singleton hl]

theorem splitLines_append (hl : '\n' ∉ l) (r : List Char) :
    splitLines (l ++ '\n' :: r) = l :: splitLines r := by
  simp only [splitLines_eq_splitOn, List.splitOn_append_cons_self_of_not_mem hl]

/-- A text is a line, or a line with a newline and a text behind it. -/
theorem lines_induction {motive : List Char → Prop} (last : ∀ l, '\n' ∉ l → motive l)
    (next : ∀ l r, '\n' ∉ l → motive r → motive (l ++ '\n' :: r)) (s : List Char) : motive s := by
  induction hn : s.length using Nat.strongRecOn generalizing s with
  | ind n ih =>
    by_cases hs : '\n' ∈ s
    · obtain ⟨l, r, rfl, hl⟩ := List.eq_append_cons_of_mem hs
      refine next l r hl (ih r.length ?_ r rfl)
      rw [← hn, List.length_append, List.length_cons]
      omega
    · exact last s hs

end

-- ---------------------------------------------------------------------------
-- Where an offset lies
-- ---------------------------------------------------------------------------

/-- An offset lies in a line of a number, behind so many of its characters. Before the line stand
the lines above it, each with a newline. -/
structure LiesIn (lines : List (List Char)) (offset number : Nat) (line : List Char)
    (before : Nat) : Prop where
  number_pos : 1 ≤ number
  number_le : number ≤ lines.length
  line_eq : lines[number - 1]? = some line
  before_le : before ≤ line.length
  offset_eq : offset = (lines.take (number - 1)).flatten.length + (number - 1) + before

section
variable {l line : List Char} {ls : List (List Char)} {o n d : Nat}

theorem LiesIn.head (h : d ≤ l.length) : LiesIn (l :: ls) d 1 l d where
  number_pos := Nat.le_refl 1
  number_le := by simp
  line_eq := rfl
  before_le := h
  offset_eq := by simp

theorem LiesIn.tail (h : LiesIn ls o n line d) :
    LiesIn (l :: ls) (l.length + 1 + o) (n + 1) line d := by
  obtain ⟨hpos, hle, hline, hd, ho⟩ := h
  obtain ⟨n, rfl⟩ := Nat.exists_eq_add_of_le' hpos
  refine ⟨by omega, by simpa using hle, hline, hd, ?_⟩
  simp only [Nat.add_sub_cancel] at ho ⊢
  rw [List.take_succ_cons, List.flatten_cons, List.length_append]
  omega

theorem not_liesIn_nil : ¬ LiesIn [] o n line d := by
  rintro ⟨hpos, hle, -⟩
  exact absurd hle (Nat.not_le.2 hpos)

theorem liesIn_cons_iff : LiesIn (l :: ls) o n line d ↔
    (n = 1 ∧ line = l ∧ d = o ∧ o ≤ l.length) ∨
      ∃ o' n', o = l.length + 1 + o' ∧ n = n' + 1 ∧ LiesIn ls o' n' line d := by
  constructor
  · rintro ⟨hpos, hle, hline, hd, ho⟩
    obtain ⟨n, rfl⟩ := Nat.exists_eq_add_of_le' hpos
    simp only [Nat.add_sub_cancel] at hline ho
    cases n with
    | zero =>
      obtain rfl : l = line := Option.some.inj hline
      simp only [List.take_zero, List.flatten_nil, List.length_nil] at ho
      exact .inl ⟨rfl, rfl, by omega, by omega⟩
    | succ n =>
      rw [List.take_succ_cons, List.flatten_cons, List.length_append] at ho
      refine .inr ⟨_, n + 1, ?_, rfl, by omega, by simpa using hle, hline, hd, rfl⟩
      simp only [Nat.add_sub_cancel]
      omega
  · rintro (⟨rfl, rfl, rfl, ho⟩ | ⟨o', n', rfl, rfl, h⟩)
    · exact .head ho
    · exact h.tail

end

-- ---------------------------------------------------------------------------
-- Counting and measuring
-- ---------------------------------------------------------------------------

section
variable {l r : List Char} {o : Nat}

theorem take_next (l r : List Char) (o : Nat) :
    (l ++ '\n' :: r).take (l.length + 1 + o) = l ++ '\n' :: r.take o := by
  rw [Nat.add_assoc, List.take_length_add_append, Nat.add_comm 1, List.take_succ_cons]

theorem not_mem_take (hl : '\n' ∉ l) (ho : o ≤ l.length) (r : List Char) :
    '\n' ∉ (l ++ r).take o := by
  rw [List.take_append_of_le_length ho]
  exact fun h => hl (List.mem_of_mem_take h)

theorem lineAt_line (hl : '\n' ∉ l) (ho : o ≤ l.length) (r : List Char) :
    lineAt (String.ofList (l ++ r)) o = 1 := by
  rw [lineAt, String.toList_ofList, List.count_eq_zero.2 (not_mem_take hl ho r)]

theorem lineAt_next (hl : '\n' ∉ l) (r : List Char) (o : Nat) :
    lineAt (String.ofList (l ++ '\n' :: r)) (l.length + 1 + o) = lineAt (String.ofList r) o + 1 := by
  simp only [lineAt, String.toList_ofList, take_next, List.count_append, List.count_cons_self,
    List.count_eq_zero.2 hl, Nat.zero_add]

theorem takeWhile_of_not_mem (hl : '\n' ∉ l) : l.takeWhile (· ≠ '\n') = l :=
  List.takeWhile_eq_self_iff.2 fun c hc => decide_eq_true (by rintro rfl; exact hl hc)

theorem columnAt_line (hl : '\n' ∉ l) (ho : o ≤ l.length) (r : List Char) :
    columnAt (String.ofList (l ++ r)) o = o + 1 := by
  have hrev : '\n' ∉ ((l ++ r).take o).reverse := by
    rw [List.mem_reverse]
    exact not_mem_take hl ho r
  simp only [columnAt, lineStart, String.toList_ofList, takeWhile_of_not_mem hrev,
    List.length_reverse, Nat.sub_self, Nat.sub_zero]

/-- The last line of what stands before an offset begins behind the last newline. -/
theorem lineStart_next (l r : List Char) (o : Nat) :
    lineStart (String.ofList (l ++ '\n' :: r)) (l.length + 1 + o) =
      l.length + 1 + lineStart (String.ofList r) o := by
  have hlast : (l ++ '\n' :: r.take o).reverse.takeWhile (· ≠ '\n') =
      (r.take o).reverse.takeWhile (· ≠ '\n') := by
    rw [List.reverse_append, List.reverse_cons, List.append_assoc, List.takeWhile_append]
    split
    next h => rw [(List.takeWhile_sublist _).eq_of_length h]; simp
    next => rfl
  have hle := (List.takeWhile_sublist (· ≠ '\n') (l := (r.take o).reverse)).length_le
  rw [List.length_reverse] at hle
  simp only [lineStart, String.toList_ofList, take_next, hlast, List.length_append,
    List.length_cons]
  omega

theorem columnAt_next (l r : List Char) (o : Nat) :
    columnAt (String.ofList (l ++ '\n' :: r)) (l.length + 1 + o) =
      columnAt (String.ofList r) o := by
  simp only [columnAt, lineStart_next]
  omega

end

-- ---------------------------------------------------------------------------
-- Main statement
-- ---------------------------------------------------------------------------

variable {s : String} {cs line : List Char} {o n d : Nat}

theorem exists_liesIn (ho : o ≤ cs.length) : ∃ n line d, LiesIn (splitLines cs) o n line d := by
  induction cs using lines_induction generalizing o with
  | last l hl =>
    rw [splitLines_line hl]
    exact ⟨1, l, o, .head ho⟩
  | next l r hl ih =>
    rw [splitLines_append hl]
    rcases Nat.lt_or_ge l.length o with hlt | hle
    · obtain ⟨o, rfl⟩ := Nat.exists_eq_add_of_le hlt
      rw [List.length_append, List.length_cons] at ho
      obtain ⟨n, line, d, h⟩ := ih (o := o) (by omega)
      exact ⟨n + 1, line, d, h.tail⟩
    · exact ⟨1, l, o, .head hle⟩

theorem LiesIn.measured (h : LiesIn (splitLines cs) o n line d) :
    o ≤ cs.length ∧ n = lineAt (String.ofList cs) o ∧ d + 1 = columnAt (String.ofList cs) o := by
  induction cs using lines_induction generalizing o n d with
  | last l hl =>
    rw [splitLines_line hl, liesIn_cons_iff] at h
    obtain ⟨rfl, -, rfl, ho⟩ | ⟨_, _, -, -, h⟩ := h
    · have hline := lineAt_line hl ho []
      have hcolumn := columnAt_line hl ho []
      rw [List.append_nil] at hline hcolumn
      exact ⟨ho, hline.symm, hcolumn.symm⟩
    · exact absurd h not_liesIn_nil
  | next l r hl ih =>
    rw [splitLines_append hl, liesIn_cons_iff] at h
    obtain ⟨rfl, -, rfl, ho⟩ | ⟨o, n, rfl, rfl, h⟩ := h
    · refine ⟨?_, (lineAt_line hl ho _).symm, (columnAt_line hl ho _).symm⟩
      rw [List.length_append]
      omega
    · obtain ⟨ho, hline, hcolumn⟩ := ih h
      rw [lineAt_next hl, columnAt_next, List.length_append, List.length_cons]
      exact ⟨by omega, by rw [hline], hcolumn⟩

theorem liesIn_iff : (∃ line, LiesIn (splitLines s.toList) o n line d) ↔
    o ≤ s.length ∧ n = lineAt s o ∧ d + 1 = columnAt s o := by
  constructor
  · rintro ⟨line, h⟩
    have hm := h.measured
    rwa [String.ofList_toList, String.length_toList] at hm
  · rintro ⟨ho, rfl, hd⟩
    rw [← String.length_toList] at ho
    obtain ⟨n, line, d', h⟩ := exists_liesIn ho
    obtain ⟨-, hn, hd'⟩ := h.measured
    rw [String.ofList_toList] at hn hd'
    obtain rfl : d = d' := by omega
    exact ⟨line, hn ▸ h⟩

/-- The line is the one that is looked up by its number. -/
theorem LiesIn.lineText_eq (h : LiesIn (splitLines s.toList) o n line d) :
    lineText s n = String.ofList line := by
  rw [lineText, h.line_eq, Option.getD_some]

end Lia.Text

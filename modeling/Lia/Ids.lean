import Lia.Text.Quoted

/-!
# Block ids

A source gives one id after another and may repeat itself, as long as an id that
is not in use comes up in the end. `Supply.draw` takes the first one that is not in
use. Main statements: what is drawn is new (`Supply.draw_not_mem`) and so are all
ids drawn in a row (`Supply.take_nodup`, `Supply.take_not_mem`).
-/

namespace Lia

-- ---------------------------------------------------------------------------
-- The first number with a property
-- ---------------------------------------------------------------------------

/-- A number that is followed by one with the property, or has it. -/
private def Before (p : Nat → Bool) := { n : Nat // ∃ m, n ≤ m ∧ p m = true }

private theorem Before.wf (p : Nat → Bool) :
    WellFounded fun a b : Before p => a.val = b.val + 1 ∧ p b.val = false := by
  refine ⟨fun ⟨n, m, hle, hm⟩ => ?_⟩
  induction hd : m - n generalizing n with
  | zero =>
    obtain rfl : n = m := by omega
    refine ⟨_, fun b hb => ?_⟩
    simp [hm] at hb
  | succ d ih =>
    refine ⟨_, fun ⟨b, _⟩ hb => ?_⟩
    obtain ⟨h1, _⟩ := hb
    simp only at h1
    subst h1
    exact ih (n + 1) (by omega) (by omega)

private instance (p : Nat → Bool) : WellFoundedRelation (Before p) := ⟨_, Before.wf p⟩

private theorem Before.step {p : Nat → Bool} {n : Nat} (h : ∃ m, n ≤ m ∧ p m = true)
    (hn : ¬p n = true) : ∃ m, n + 1 ≤ m ∧ p m = true := by
  obtain ⟨m, hle, hm⟩ := h
  refine ⟨m, ?_, hm⟩
  rcases Nat.lt_or_eq_of_le hle with h' | rfl
  · exact h'
  · exact absurd hm hn

private def Before.first (p : Nat → Bool) (a : Before p) : Nat :=
  if h : p a.val = true then a.val else Before.first p ⟨a.val + 1, Before.step a.property h⟩
termination_by a
decreasing_by simpa [WellFoundedRelation.rel] using h

private theorem Before.first_spec (p : Nat → Bool) (a : Before p) :
    a.val ≤ Before.first p a ∧ p (Before.first p a) = true ∧
      ∀ k, a.val ≤ k → k < Before.first p a → p k = false := by
  fun_induction Before.first p a with
  | case1 a h => exact ⟨Nat.le_refl _, h, fun k hk hk' => absurd hk' (by omega)⟩
  | case2 a h ih =>
    obtain ⟨h1, h2, h3⟩ := ih
    refine ⟨Nat.le_of_succ_le h1, h2, fun k hk hk' => ?_⟩
    rcases Nat.lt_or_eq_of_le hk with hlt | rfl
    · exact h3 k hlt hk'
    · simpa using h

/-- The first number from `n` on with a property that some such number has. -/
def firstFrom (p : Nat → Bool) (n : Nat) (h : ∃ m, n ≤ m ∧ p m = true) : Nat :=
  Before.first p ⟨n, h⟩

theorem firstFrom_spec {p : Nat → Bool} {n : Nat} (h : ∃ m, n ≤ m ∧ p m = true) :
    n ≤ firstFrom p n h ∧ p (firstFrom p n h) = true ∧
      ∀ k, n ≤ k → k < firstFrom p n h → p k = false :=
  Before.first_spec p ⟨n, h⟩

-- ---------------------------------------------------------------------------
-- Sources
-- ---------------------------------------------------------------------------

/-- A sequence of ids in which, from any place on, an id comes up that is not among
any given ones. -/
structure IdSource where
  id : Nat → String
  fresh : ∀ (used : List String) (n : Nat), ∃ m, n ≤ m ∧ id m ∉ used

/-- A sequence without repeats always comes up with something new. -/
theorem exists_fresh {f : Nat → String} (hf : ∀ a b, f a = f b → a = b) (used : List String)
    (n : Nat) : ∃ m, n ≤ m ∧ f m ∉ used := by
  induction used generalizing n with
  | nil => exact ⟨n, Nat.le_refl _, by simp⟩
  | cons u us ih =>
    obtain ⟨m, hm, hu⟩ := ih n
    by_cases h : f m = u
    · obtain ⟨m', hm', hu'⟩ := ih (m + 1)
      refine ⟨m', by omega, ?_⟩
      rintro (_ | ⟨_, hmem⟩)
      · have := hf m m' (by simpa using h)
        omega
      · exact hu' hmem
    · exact ⟨m, hm, by simp [h, hu]⟩

namespace IdSource

def numbered (n : Nat) : String := "b" ++ toString (n + 1)

theorem numbered_injective (a b : Nat) (h : numbered a = numbered b) : a = b := by
  have hl := congrArg String.toList h
  simp only [numbered, String.toList_append] at hl
  have hd := congrArg (fun ds => Nat.ofDigitChars 10 ds 0) (List.append_cancel_left hl)
  simpa [Nat.toString_eq_ofList_toDigits] using hd

/-- The given ids, then `b1`, `b2` and so on. -/
def ofList (ids : List String) : IdSource where
  id n := (ids[n]?).getD (numbered (n - ids.length))
  fresh used n := by
    obtain ⟨m, hm, hu⟩ := exists_fresh numbered_injective used n
    refine ⟨m + ids.length, by omega, ?_⟩
    rwa [List.getElem?_eq_none (by omega), Option.getD_none, Nat.add_sub_cancel]

theorem ofList_ne_empty {ids : List String} (h : "" ∉ ids) (n : Nat) : (ofList ids).id n ≠ "" := by
  simp only [ofList]
  cases hn : ids[n]? with
  | some id => exact fun he => h (he ▸ List.mem_of_getElem? hn)
  | none =>
    intro he
    have hl := congrArg String.toList he
    simp [numbered] at hl

private def hexValue (s : List Char) : Nat :=
  s.foldl (fun n c => 16 * n + if c.isDigit then c.toNat - 48 else c.toNat - 87) 0

private theorem hexValue_append_digit (s : List Char) {d : Nat} (hd : d < 16) :
    hexValue (s ++ [d.digitChar]) = 16 * hexValue s + d := by
  have h : ∀ d : Fin 16, (if d.val.digitChar.isDigit then d.val.digitChar.toNat - 48
      else d.val.digitChar.toNat - 87) = d.val := by decide
  simp only [hexValue, List.foldl_append, List.foldl_cons, List.foldl_nil]
  rw [h ⟨d, hd⟩]

private theorem hexValue_toDigits (zeros n : Nat) :
    hexValue (List.replicate zeros '0' ++ Nat.toDigits 16 n) = n := by
  induction n using Nat.strongRecOn with
  | ind n ih =>
    rcases Nat.lt_or_ge n 16 with h | h
    · have hz : hexValue (List.replicate zeros '0') = 0 := by
        clear ih
        induction zeros with
        | zero => rfl
        | succ z ihz => simpa [hexValue, List.replicate_succ] using ihz
      rw [Nat.toDigits_of_lt_base h, hexValue_append_digit _ h, hz, Nat.mul_zero, Nat.zero_add]
    · rw [Nat.toDigits_of_base_le (by decide) h, ← List.append_assoc,
        hexValue_append_digit _ (Nat.mod_lt _ (by decide)), ih _ (Nat.div_lt_self (by omega) (by decide))]
      exact Nat.div_add_mod n 16

/-- Hexadecimal numbers of 32 digits, or more beyond them, counted from a start. -/
def hexadecimal (start : Nat) : IdSource where
  id n := Text.hex 32 (start + n)
  fresh := exists_fresh fun a b h => by
    have hl := congrArg (fun s => hexValue s.toList) h
    simp only [Text.hex, Text.hexDigits, String.toList_ofList, hexValue_toDigits] at hl
    omega

end IdSource

-- ---------------------------------------------------------------------------
-- Drawing ids
-- ---------------------------------------------------------------------------

/-- A source and how far it has been read. -/
structure Supply where
  source : IdSource
  position : Nat := 0

namespace Supply

private theorem exists_unused (s : Supply) (used : List String) :
    ∃ m, s.position ≤ m ∧ (!used.contains (s.source.id m)) = true := by
  obtain ⟨m, hm, hu⟩ := s.source.fresh used s.position
  exact ⟨m, hm, by simpa using hu⟩

/-- Where the first id stands that is not in use. -/
def drawIndex (s : Supply) (used : List String) : Nat :=
  firstFrom (fun m => !used.contains (s.source.id m)) s.position (s.exists_unused used)

def draw (s : Supply) (used : List String) : String × Supply :=
  (s.source.id (s.drawIndex used), { s with position := s.drawIndex used + 1 })

theorem draw_not_mem (s : Supply) (used : List String) : (s.draw used).1 ∉ used := by
  have h := (firstFrom_spec (s.exists_unused used)).2.1
  rw [Bool.not_eq_true', List.contains_eq_mem, decide_eq_false_iff_not] at h
  exact h

def take (s : Supply) (used : List String) : Nat → List String × Supply
  | 0 => ([], s)
  | n + 1 =>
    let d := s.draw used
    let r := d.2.take (used ++ [d.1]) n
    (d.1 :: r.1, r.2)

@[simp] theorem take_length (s : Supply) (used : List String) (n : Nat) :
    (s.take used n).1.length = n := by
  induction n generalizing s used with
  | zero => rfl
  | succ n ih => simp [take, ih]

theorem take_not_mem (s : Supply) (used : List String) (n : Nat) {id : String}
    (h : id ∈ (s.take used n).1) : id ∉ used := by
  induction n generalizing s used with
  | zero => simp [take] at h
  | succ n ih =>
    simp only [take, List.mem_cons] at h
    rcases h with rfl | h
    · exact s.draw_not_mem used
    · intro hu
      exact ih _ _ h (by simp [hu])

theorem take_nodup (s : Supply) (used : List String) (n : Nat) : (s.take used n).1.Nodup := by
  induction n generalizing s used with
  | zero => simp [take]
  | succ n ih =>
    simp only [take, List.nodup_cons]
    exact ⟨fun h => take_not_mem _ _ _ h (by simp), ih _ _⟩

theorem take_source (s : Supply) (used : List String) (n : Nat) {id : String}
    (h : id ∈ (s.take used n).1) : ∃ m, id = s.source.id m := by
  induction n generalizing s used with
  | zero => simp [take] at h
  | succ n ih =>
    simp only [take, List.mem_cons] at h
    rcases h with rfl | h
    · exact ⟨_, rfl⟩
    · obtain ⟨m, hm⟩ := ih _ _ h
      exact ⟨m, hm⟩

end Supply

end Lia

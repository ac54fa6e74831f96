import Mathlib.Data.List.Perm.Basic
import Lia.Value.Json

/-!
# JSON texts

`Json.Spells` is the grammar of JSON, with spellings for infinities and NaN: blanks may stand
between brackets, items and commas, fields stand in any order, and a character of a string may
be escaped. Main statement: a value is written as a text that spells it, whatever the style
(`Json.write_spells`).
-/

namespace Lia.Json

-- ---------------------------------------------------------------------------
-- The grammar
-- ---------------------------------------------------------------------------

/-- Characters that have a letter or themselves behind a backslash. -/
def shortEscapes : List (Char × Char) := [
  ('"', '"'), ('\\', '\\'), ('\n', 'n'), ('\r', 'r'), ('\t', 't'), (Char.ofNat 0x08, 'b'),
  (Char.ofNat 0x0C, 'f')]

inductive SpellsChar : Char → List Char → Prop
  | plain {c : Char} (hc : 0x20 ≤ c.toNat) (hq : c ≠ '"') (hb : c ≠ '\\') : SpellsChar c [c]
  | short {c e : Char} (h : (c, e) ∈ shortEscapes) : SpellsChar c ['\\', e]
  | unit {c : Char} (h : c.toNat < 0x10000) :
    SpellsChar c ('\\' :: 'u' :: Text.hexDigits 4 c.toNat)
  /-- Ten bits in each of two units. -/
  | pair {c : Char} {high low : Nat} (hl : low < 0x400)
      (h : c.toNat = 0x10000 + 0x400 * high + low) :
    SpellsChar c ('\\' :: 'u' :: Text.hexDigits 4 (0xD800 + high) ++
      '\\' :: 'u' :: Text.hexDigits 4 (0xDC00 + low))

def SpellsText (s text : String) : Prop :=
  ∃ pieces, List.Forall₂ SpellsChar s.toList pieces ∧ text.toList = '"' :: pieces.flatten ++ ['"']

def IsBlank (s : String) : Prop := ∀ c ∈ s.toList, c = ' ' ∨ c = '\n'

/-- Items in brackets, with commas between them and blanks around. -/
inductive Bracketed (left right : String) : List String → String → Prop
  | nil {blank : String} (hb : IsBlank blank) : Bracketed left right [] (left ++ blank ++ right)
  | mk {items : List String} {before between behind : String} (hb : IsBlank before)
      (hm : IsBlank between) (ha : IsBlank behind) : Bracketed left right items
        (left ++ before ++ ("," ++ between).intercalate items ++ behind ++ right)

mutual
inductive Spells : Value → String → Prop
  | null : Spells .null "null"
  | true : Spells (.flag true) "true"
  | false : Spells (.flag false) "false"
  | number (n : Number) : Spells (.number n) (number n)
  | text {s text : String} (h : SpellsText s text) : Spells (.text s) text
  | list {items : List Value} {pieces : List String} {text : String}
      (hi : List.Forall₂ Spells items pieces) (h : Bracketed "[" "]" pieces text) :
    Spells (.list items) text
  | record {fields fields' : List (String × Value)} {pieces : List String} {text : String}
      (hp : fields'.Perm fields) (hf : List.Forall₂ SpellsField fields' pieces)
      (h : Bracketed "\x7b" "\x7d" pieces text) : Spells (.record fields) text
inductive SpellsField : String × Value → String → Prop
  | mk {key : String} {v : Value} {name blank text : String} (hk : SpellsText key name)
      (hb : IsBlank blank) (hv : Spells v text) : SpellsField (key, v) (name ++ ":" ++ blank ++ text)
end

-- ---------------------------------------------------------------------------
-- Strings
-- ---------------------------------------------------------------------------

theorem unit_eq (n : Nat) : unit n = '\\' :: 'u' :: Text.hexDigits 4 n := by
  rw [unit, Text.hex, String.toList_ofList]

theorem units_spells (c : Char) : SpellsChar c (units c) := by
  unfold units
  split
  next h =>
    rw [unit_eq]
    exact .unit h
  next h =>
    simp only [unit_eq]
    exact .pair (Nat.mod_lt _ (by decide)) (by omega)

theorem escape_spells (ascii : Bool) (c : Char) : SpellsChar c (escape ascii c) := by
  unfold escape
  split
  next h => obtain rfl | rfl := h <;> exact .short (by decide)
  next hquote =>
    obtain ⟨hq, hb⟩ := not_or.1 hquote
    split
    next h => exact h ▸ .short (by decide)
    split
    next h => exact h ▸ .short (by decide)
    split
    next h => exact h ▸ .short (by decide)
    split
    next h =>
      obtain rfl : c = Char.ofNat 0x08 := h ▸ (Char.ofNat_toNat c).symm
      exact .short (by decide)
    split
    next h =>
      obtain rfl : c = Char.ofNat 0x0C := h ▸ (Char.ofNat_toNat c).symm
      exact .short (by decide)
    split
    next => exact units_spells c
    next hc =>
      split
      next => exact units_spells c
      next => exact .plain (Nat.le_of_not_lt hc) hq hb

theorem string_spells (ascii : Bool) (s : String) : SpellsText s (string ascii s) := by
  refine ⟨s.toList.map (escape ascii), ?_, ?_⟩
  · rw [List.forall₂_map_right_iff]
    exact List.forall₂_same.2 fun c _ => escape_spells ascii c
  · rw [string, String.toList_ofList, List.flatMap]

-- ---------------------------------------------------------------------------
-- Layout
-- ---------------------------------------------------------------------------

theorem isBlank_lineBreak (width level : Nat) : IsBlank (lineBreak width level) := by
  intro c hc
  simp only [lineBreak, String.toList_append, String.toList_ofList, List.mem_append,
    List.mem_replicate] at hc
  obtain hc | ⟨-, rfl⟩ := hc
  · exact .inr (List.mem_singleton.1 hc)
  · exact .inl rfl

theorem isBlank_empty : IsBlank "" := nofun

theorem isBlank_space : IsBlank " " := by simp [IsBlank]

theorem enclose_bracketed (style : Style) (level : Nat) (left right : String) (items : List String) :
    Bracketed left right items (enclose style level left right items) := by
  unfold enclose
  split
  next h =>
    obtain rfl := List.isEmpty_iff.1 h
    have hempty : Bracketed left right [] (left ++ "" ++ right) := .nil isBlank_empty
    rwa [String.append_empty] at hempty
  next =>
    cases style.indent with
    | none =>
      have hline : Bracketed left right items
          (left ++ "" ++ ("," ++ " ").intercalate items ++ "" ++ right) :=
        .mk isBlank_empty isBlank_space isBlank_empty
      rwa [String.append_empty, String.append_empty] at hline
    | some width => exact .mk (isBlank_lineBreak _ _) (isBlank_lineBreak _ _) (isBlank_lineBreak _ _)

theorem arrange_perm (style : Style) (fields : List (String × String)) :
    (arrange style fields).Perm fields := by
  unfold arrange
  split
  · exact List.mergeSort_perm _ _
  · exact .refl _

-- ---------------------------------------------------------------------------
-- Values
-- ---------------------------------------------------------------------------

/-- The rendering of a field, its name still without quotes. -/
def RendersField (f : String × Value) (r : String × String) : Prop := r.1 = f.1 ∧ Spells f.2 r.2

theorem RendersField.spells {f : String × Value} {r : String × String} (h : RendersField f r)
    (ascii : Bool) : SpellsField f (string ascii r.1 ++ ": " ++ r.2) := by
  obtain ⟨key, v⟩ := f
  obtain ⟨rfl, hv⟩ := h
  have hcolon : string ascii r.1 ++ ": " = string ascii r.1 ++ ":" ++ " " := by
    rw [String.append_assoc]
    rfl
  rw [hcolon]
  exact .mk (string_spells ascii r.1) isBlank_space hv

theorem record_spells (style : Style) (level : Nat) {fields : List (String × Value)}
    {rendered : List (String × String)} (h : List.Forall₂ RendersField fields rendered) :
    Spells (.record fields) (enclose style level "\x7b" "\x7d"
      ((arrange style rendered).map fun f => string style.ascii f.1 ++ ": " ++ f.2)) := by
  -- The fields in the order in which they are written.
  obtain ⟨fields', hf, hp⟩ :=
    List.perm_comp_forall₂ (arrange_perm style rendered) (List.Forall₂.flip h)
  refine .record hp ?_ (enclose_bracketed ..)
  rw [List.forall₂_map_right_iff]
  exact (List.Forall₂.flip hf).imp fun _ _ h => RendersField.spells h style.ascii

mutual
theorem render_spells (style : Style) (level : Nat) : (v : Value) → Spells v (render style level v)
  | .null => .null
  | .flag Bool.true => .true
  | .flag Bool.false => .false
  | .number n => .number n
  | .text s => .text (string_spells style.ascii s)
  | .list items => .list (renderItems_spells style (level + 1) items) (enclose_bracketed ..)
  | .record fields => record_spells style level (renderFields_spells style (level + 1) fields)
theorem renderItems_spells (style : Style) (level : Nat) :
    (vs : List Value) → List.Forall₂ Spells vs (renderItems style level vs)
  | [] => .nil
  | v :: vs => .cons (render_spells style level v) (renderItems_spells style level vs)
theorem renderFields_spells (style : Style) (level : Nat) :
    (fields : List (String × Value)) → List.Forall₂ RendersField fields (renderFields style level fields)
  | [] => .nil
  | (_, v) :: rest => .cons ⟨rfl, render_spells style level v⟩ (renderFields_spells style level rest)
end

theorem write_spells (style : Style) (v : Value) : Spells v (write style v) :=
  render_spells style 0 v

end Lia.Json

import Lia.Proofs.Parser.Step

/-!
# What is due next

The shape of a state of the reader is what the next tokens can be, without what has been
read: two states of one shape make the same of a token. Main statement: states of one
shape and tokens that are alike lead to states of one shape again (`State.step_congr`).
-/

namespace Lia

-- ---------------------------------------------------------------------------
-- Tokens that are alike
-- ---------------------------------------------------------------------------

/-- Of one kind, and the same name or mark. The value of a number or of a string makes no
difference. -/
structure Token.Alike (t u : Token) : Prop where
  kind : t.kind = u.kind
  value : t.kind = .ident ∨ t.kind = .punct → t.value = u.value

namespace Token.Alike

variable {t u : Token}

theorem refl (t : Token) : t.Alike t := ⟨rfl, fun _ => rfl⟩

theorem isIdent (h : t.Alike u) : u.isIdent = t.isIdent := by
  simp [Token.isIdent, h.kind]

theorem isEof (h : t.Alike u) : u.isEof = t.isEof := by
  simp [Token.isEof, h.kind]

theorem isPunct (h : t.Alike u) (s : String) : u.isPunct s = t.isPunct s := by
  by_cases hk : t.kind = .punct
  · simp [Token.isPunct, ← h.kind, ← h.value (.inr hk)]
  · simp [Token.isPunct, ← h.kind, hk]

theorem isWord (h : t.Alike u) (s : String) : u.isWord s = t.isWord s := by
  by_cases hk : t.kind = .ident
  · simp [Token.isWord, h.isIdent, ← h.value (.inl hk)]
  · simp [Token.isWord, Token.isIdent, ← h.kind, hk]

theorem name (h : t.Alike u) (hi : t.isIdent = true) : u.value = t.value :=
  (h.value (.inl (Token.isIdent_iff.1 hi))).symm

end Token.Alike

namespace Parser

-- ---------------------------------------------------------------------------
-- Shapes
-- ---------------------------------------------------------------------------

/-- An opener without what has been read of it. -/
def Opener.shape : Opener → Opener
  | .repeatTimes _ => .repeatTimes .null
  | .forever => .forever
  | .consequent _ => .consequent ""
  | .alternate _ _ => .alternate "" []

/-- Only the name of a call shows in what is expected of it. -/
def CallHead.shape (c : CallHead) : CallHead := ⟨c.name, []⟩

def Phase.shape : Phase → Phase
  | .eventClose _ => .eventClose .start
  | .eventEnd _ => .eventEnd .start
  | .repeatClose _ => .repeatClose .null
  | .brace opener => .brace (opener.map Opener.shape)
  | .condition use _ => .condition use []
  | .afterConsequent _ _ => .afterConsequent "" []
  | .awaitEnd _ => .awaitEnd ""
  | .callWords c => .callWords c.shape
  | .callArgs c => .callArgs c.shape
  | .callComma c => .callComma c.shape
  | .callFor c => .callFor c.shape
  | .forOpen c => .forOpen c.shape
  | .forCount c => .forCount c.shape
  | .forClose c _ => .forClose c.shape .null
  | .callEnd c _ => .callEnd c.shape .null
  | phase => phase

/-- What may stand next, and in which lists. -/
def State.shape (σ : State .program) : State .program :=
  ⟨σ.phase.shape, [], σ.outer.map fun l => (l.1.shape, [])⟩

def Step.shape : Step .program → Step .program
  | .next σ _ => .next σ.shape
  | .done _ => .done ⟨[]⟩
  | .before _ _ => .before ⟨[]⟩
  | .refuse expected _ => .refuse expected

variable {σ σ' : State .program} {t u : Token}

@[simp] theorem Opener.shape_shape (o : Opener) : o.shape.shape = o.shape := by cases o <;> rfl

@[simp] theorem CallHead.shape_shape (c : CallHead) : c.shape.shape = c.shape := rfl

@[simp] theorem CallHead.shape_name (c : CallHead) : c.shape.name = c.name := rfl

@[simp] theorem CallHead.shape_add (c : CallHead) (v : Value) : (c.add v).shape = c.shape := rfl

@[simp] theorem Phase.shape_shape (p : Phase) : p.shape.shape = p.shape := by
  cases p with
  | brace o => cases o <;> simp [Phase.shape]
  | _ => rfl

@[simp] theorem State.shape_shape (σ : State .program) : σ.shape.shape = σ.shape := by
  simp [State.shape]

namespace Step

@[simp] theorem shape_next (note : Option Note) : (next σ note).shape = .next σ.shape := rfl

@[simp] theorem shape_before (p : Program) (note : Option Note) :
    (before p note : Step .program).shape = .before ⟨[]⟩ := rfl

@[simp] theorem shape_refuse (expected : String) (note : Option Note) :
    (refuse expected note : Step .program).shape = .refuse expected := rfl

@[simp] theorem shape_ite {b : Prop} [Decidable b] (x y : Step .program) :
    (if b then x else y).shape = if b then x.shape else y.shape := by
  split <;> rfl

theorem shape_eq_refuse {s : Step .program} (h : s.shape = .refuse expected) :
    ∃ note, s = .refuse expected note := by
  cases s <;> cases h
  exact ⟨_, rfl⟩

theorem shape_eq_next {s : Step .program} (h : s.shape = .next σ) :
    ∃ σ' note, s = .next σ' note ∧ σ'.shape = σ := by
  cases s <;> cases h
  exact ⟨_, _, rfl, rfl⟩

end Step

namespace State

@[simp] theorem shape_goto (σ : State .program) (phase : Phase) :
    (σ.goto phase).shape = ⟨phase.shape, [], σ.shape.outer⟩ := rfl

@[simp] theorem shape_push (σ : State .program) (s : Stmt) :
    (σ.push s).shape = ⟨.statement, [], σ.shape.outer⟩ := rfl

@[simp] theorem shape_open (opener : Opener) (before : List Stmt) :
    (⟨.statement, [], (opener, before) :: σ.outer⟩ : State .program).shape =
      ⟨.statement, [], (opener.shape, []) :: σ.shape.outer⟩ := rfl

@[simp] theorem shape_phase (σ : State .program) : σ.shape.phase = σ.phase.shape := rfl

theorem shape_begin (σ : State .program) (t : Token) :
    (σ.shape.begin t).shape = (σ.begin t).shape := by
  simp only [begin, Step.shape_ite]
  congr 1
  · cases Keyword.ofValue? t.value <;> simp
  · simp [finish_eq]

theorem shape_closed (σ : State .program) (inner : List Stmt) (opener : Opener) :
    (σ.shape.closed [] opener.shape).shape = (σ.closed inner opener).shape := by
  cases opener <;> simp [Opener.shape, closed, Phase.shape]

theorem atStatement_top (ho : σ.outer = []) (t : Token) :
    σ.atStatement t =
      if t.isEof then .before ⟨σ.body⟩ (some (.parsed σ.body.length)) else σ.begin t := by
  simp only [atStatement, ho]

theorem atStatement_inner (ho : σ.outer = (opener, before) :: around) (t : Token) :
    σ.atStatement t =
      if t.isPunct "\x7d" then .next (closed ⟨.statement, before, around⟩ σ.body opener)
      else if t.isEof then .refuse "'\x7d' (unclosed block)" else σ.begin t := by
  simp only [atStatement, ho, beginOr, close_eq]

theorem shape_atStatement (σ : State .program) (t : Token) :
    (σ.shape.atStatement t).shape = (σ.atStatement t).shape := by
  have hb := shape_begin σ t
  cases ho : σ.outer with
  | nil =>
    have hs : σ.shape.outer = [] := by simp [shape, ho]
    rw [atStatement_top ho, atStatement_top hs]
    simp [hb]
  | cons l around =>
    have hs : σ.shape.outer = (l.1.shape, []) :: around.map fun l => (l.1.shape, []) := by
      simp [shape, ho]
    have hc := shape_closed ⟨.statement, l.2, around⟩ σ.body l.1
    rw [atStatement_inner ho, atStatement_inner hs]
    simp only [Step.shape_ite, Step.shape_next, ← hb, ← hc]
    rfl

theorem shape_atFor (σ : State .program) (c : CallHead) (t : Token) :
    (σ.shape.atFor c.shape t).shape = (σ.atFor c t).shape := by
  simp [atFor, atCallEnd, finish_eq, Phase.shape]

theorem shape_atArg (σ : State .program) (c : CallHead) (t : Token) :
    (σ.shape.atArg c.shape t).shape = (σ.atArg c t).shape := by
  simp [atArg, Phase.shape]

/-- A step makes the same of a state as of its shape. -/
theorem shape_step (σ : State .program) (t : Token) : (σ.shape.step t).shape = (σ.step t).shape := by
  have hs := shape_atStatement σ t
  cases hp : σ.phase with
  | statement => simpa [step, hp, Phase.shape] using hs
  | brace opener => cases opener <;> simp [step, hp, mark, Phase.shape]
  | eventKind =>
    simp only [step, hp, shape_phase, Phase.shape, atEventKind]
    split <;> simp
  | condition use words =>
    cases use <;> simp [step, hp, atCondition, endCondition, Phase.shape, Opener.shape]
  | repeatClose count => simp [step, hp, mark, Phase.shape, Opener.shape]
  | afterConsequent c inner =>
    have h₁ := shape_atStatement (σ.push (.branch (.text c) inner none)) t
    have h₂ := shape_atStatement (σ.shape.push (.branch (.text "") [] none)) t
    simp only [shape_push] at h₁ h₂
    simp [step, hp, atElse, asGoal?, Phase.shape, Opener.shape, ← h₁, ← h₂]
  | callWords c =>
    simp only [step, hp, shape_phase, Phase.shape, Step.shape_ite, shape_atFor]
    simp [Phase.shape]
  | callArgs c => simp [step, hp, Phase.shape, shape_atArg]
  | callComma c => simp [step, hp, Phase.shape, shape_atArg]
  | callFor c => simp [step, hp, Phase.shape, shape_atFor]
  | _ =>
    simp [step, hp, mark, atCallEnd, finish_eq, Phase.shape]

theorem begin_alike (σ : State .program) (h : t.Alike u) : σ.begin u = σ.begin t := by
  by_cases hi : t.isIdent = true
  · simp [begin, h.isIdent, hi, h.name hi]
  · simp [begin, h.isIdent, h.isPunct, hi]

theorem atStatement_alike (σ : State .program) (h : t.Alike u) :
    σ.atStatement u = σ.atStatement t := by
  cases ho : σ.outer with
  | nil => rw [atStatement_top ho, atStatement_top ho, h.isEof, begin_alike σ h]
  | cons l around =>
    rw [atStatement_inner ho, atStatement_inner ho, h.isPunct, h.isEof, begin_alike σ h]

theorem atEventKind_alike (σ : State .program) (h : t.Alike u) :
    σ.atEventKind u = σ.atEventKind t := by
  by_cases hi : t.isIdent = true
  · rw [atEventKind, atEventKind, h.isIdent, h.name hi]
  · simp [atEventKind, h.isIdent, hi]

/-- Tokens that are alike lead from a state to states of one shape. -/
theorem step_alike (hσ : σ.phase ≠ .callName) (h : t.Alike u) :
    (σ.step t).shape = (σ.step u).shape := by
  have hk := h.kind.symm
  have hp := h.isPunct
  have hw := h.isWord
  cases hphase : σ.phase with
  | callName => exact absurd hphase hσ
  | statement => simp only [step, hphase, atStatement_alike σ h]
  | eventKind => simp only [step, hphase, atEventKind_alike σ h]
  | brace opener => cases opener <;> simp [step, hphase, mark, hp]
  | condition use words =>
    simp [step, hphase, atCondition, hp, h.isEof, Phase.shape]
  | afterConsequent c inner => simp [step, hphase, atElse, asGoal?, hw, atStatement_alike _ h]
  | _ =>
    simp [step, hphase, mark, atCallEnd, atFor, atArg, hp, hw, hk, h.isIdent, Phase.shape]

theorem step_congr (hs : σ.shape = σ'.shape) (hσ : σ.phase ≠ .callName) (h : t.Alike u) :
    (σ'.step u).shape = (σ.step t).shape := by
  rw [step_alike hσ h, ← shape_step σ, hs, shape_step]

end State

end Parser

end Lia

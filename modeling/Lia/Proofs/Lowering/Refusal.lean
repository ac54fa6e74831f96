import Mathlib.Data.List.TakeWhile
import Lia.Proofs.Lowering.Scripts
import Lia.Stmt.Record

/-!
# What lowering refuses

Lowering comes to the leading events first, then to the whole program, and to what stands
in a body before what stands behind it (`Program.visits`). It stops at the first statement
that it refuses, a program in place of a statement or an event of an unknown kind. Main
statement: a program is lowered exactly if none is met, and the first one says how it fails
(`compile_refusal`).
-/

namespace Lia

open Lowering

namespace Stmt

mutual
/-- The same statement, with no alternate in it. -/
def withoutAlternates : Stmt → Stmt
  | .repeatTimes count body => .repeatTimes count (withoutAlternatesAll body)
  | .forever body => .forever (withoutAlternatesAll body)
  | .branch condition consequent _ => .branch condition (withoutAlternatesAll consequent) none
  | s => s
termination_by structural s => s
def withoutAlternatesAll : List Stmt → List Stmt
  | [] => []
  | s :: ss => s.withoutAlternates :: withoutAlternatesAll ss
termination_by structural ss => ss
end

end Stmt

/-- The statements of a program in the order of lowering. -/
def Program.visits (p : Program) : List Stmt := visitsFrom p.body p.body

def Program.withoutAlternates (p : Program) : Program := ⟨Stmt.withoutAlternatesAll p.body⟩

-- ---------------------------------------------------------------------------
-- Visited statements
-- ---------------------------------------------------------------------------

namespace Stmt

theorem visitsAll_of_events {ss : List Stmt} (h : ss.all isEvent = true) : visitsAll ss = ss := by
  induction ss with
  | nil => rfl
  | cons s ss ih =>
    obtain ⟨hs, hss⟩ := Bool.and_eq_true_iff.1 h
    obtain ⟨t, rfl⟩ := isEvent_iff.1 hs
    rw [visitsAll, ih hss]
    rfl

end Stmt

/-- The leading events are come to a second time with the whole program. -/
theorem Program.mem_visits_iff {p : Program} {s : Stmt} :
    s ∈ p.visits ↔ s ∈ Stmt.visitsAll p.body := by
  constructor
  · intro h
    obtain h | h := mem_visitsFrom h
    · exact Stmt.mem_visitsAll h
    · exact h
  · intro h
    rw [visits, visitsFrom, List.mem_append]
    split
    next hall =>
      rw [Stmt.visitsAll_of_events hall] at h
      left
      rwa [List.takeWhile_eq_self_iff.2 fun s hs => List.all_eq_true.1 hall s hs]
    next => exact .inr h

-- ---------------------------------------------------------------------------
-- Alternates
-- ---------------------------------------------------------------------------

namespace Stmt

@[simp] theorem refusal?_withoutAlternates (s : Stmt) :
    s.withoutAlternates.refusal? = s.refusal? := by
  cases s <;> rfl

@[simp] theorem isEvent_withoutAlternates (s : Stmt) :
    s.withoutAlternates.isEvent = s.isEvent := by
  cases s <;> rfl

theorem withoutAlternatesAll_eq_map (ss : List Stmt) :
    withoutAlternatesAll ss = ss.map withoutAlternates := by
  induction ss with
  | nil => rfl
  | cons s ss ih => rw [withoutAlternatesAll, ih, List.map_cons]

mutual
theorem visits_withoutAlternates :
    (s : Stmt) → s.withoutAlternates.visits = s.visits.map withoutAlternates
  | .repeatTimes _ body | .forever body | .branch _ body _ => by
    simp only [withoutAlternates, visits, List.map_cons, visitsAll_withoutAlternates body]
  | .event _ | .awaitUntil _ | .call .. | .empty | .program _ => rfl
theorem visitsAll_withoutAlternates : (ss : List Stmt) →
    visitsAll (withoutAlternatesAll ss) = (visitsAll ss).map withoutAlternates
  | [] => rfl
  | s :: ss => by
    rw [withoutAlternatesAll, visitsAll, visits_withoutAlternates s, visitsAll_withoutAlternates ss,
      visitsAll, List.map_append]
end

end Stmt

theorem Program.visits_withoutAlternates (p : Program) :
    p.withoutAlternates.visits = p.visits.map Stmt.withoutAlternates := by
  have hall : (p.body.map Stmt.withoutAlternates).all Stmt.isEvent = p.body.all Stmt.isEvent := by
    simp [Function.comp_def]
  have hlead : (p.body.map Stmt.withoutAlternates).takeWhile Stmt.isEvent =
      (p.body.takeWhile Stmt.isEvent).map Stmt.withoutAlternates := by
    simp [List.takeWhile_map, Function.comp_def]
  rw [visits, visits, visitsFrom, visitsFrom, withoutAlternates, Stmt.visitsAll_withoutAlternates,
    Stmt.withoutAlternatesAll_eq_map, hall, hlead, List.map_append]
  split <;> rfl

-- ---------------------------------------------------------------------------
-- Without columns
-- ---------------------------------------------------------------------------

namespace Lowering

variable {grid : Grid} {whole : List Stmt}

theorem placing_error (hz : grid.maxColumns = 0) (root : Nat) (hat : Block Nat)
    (following : Block Nat → Draft) :
    (Draft.placing grid root hat following).error = some .noColumns := by
  simp [Draft.placing, Grid.place?, hz]

/-- Without columns the first script root has no place. -/
theorem lowerScripts_noColumns {grid' : Grid} (hg : grid.maxColumns ≠ 0)
    (hz : grid'.maxColumns = 0) (ss : List Stmt) (n root : Nat)
    (h : (lowerScripts grid whole n root ss).error = none) :
    (lowerScripts grid' whole n root ss).error =
      if (lowerScripts grid whole n root ss).roots = [] then none else some .noColumns := by
  induction ss generalizing n root with
  | nil => rfl
  | cons s rest ih =>
    cases hs : s.isEvent with
    | true =>
      obtain ⟨t, rfl⟩ := isEvent_iff.1 hs
      obtain ⟨f, hf, ht, -⟩ | ⟨note, ht, -⟩ | ⟨e, ht⟩ := lowerTrigger_cases n t
      · obtain ⟨x, y, hp⟩ := placing_of_columns hg root (f.block n [] none none) fun hat =>
          (lowerScripts grid whole (n + 1) (root + 1) rest).withHat hat
        rw [lowerScripts_hat hf ht, placing_error hz, lowerScripts_hat hf ht, hp]
        rfl
      · rw [lowerScripts_skip ht] at h ⊢
        rw [lowerScripts_skip ht]
        exact ih n root h
      · simp [lowerScripts, ht] at h
    | false =>
      rw [lowerScripts_main hs, placing_error hz, lowerScripts_main hs]
      obtain ⟨x, y, hp⟩ := placing_of_columns hg root _ _
      rw [hp]
      rfl

end Lowering

-- ---------------------------------------------------------------------------
-- Main statement
-- ---------------------------------------------------------------------------

namespace Stmt

/-- What lowering looks up at a statement: the kind of an event, the key of a call. -/
def key? : Stmt → Option Value
  | .event t => some t.kind
  | .call name args _ => some (callKey args name)
  | _ => none

theorem isHashable_of_isEventKind {v : Value} (h : isEventKind v = true) : v.isHashable = true := by
  cases v with
  | text _ => rfl
  | _ => cases h

theorem lookupRefusal?_of_isHashable {v : Value} (h : v.isHashable = true) :
    lookupRefusal? v = none := if_pos h

theorem lookupRefusal?_eq_some_iff {v : Value} {e : LoweringError} :
    lookupRefusal? v = some e ↔ v.isHashable = false ∧ e = .unhashable v := by
  cases h : v.isHashable <;> simp [lookupRefusal?, h, eq_comm]

theorem refusal?_eq_none_iff {s : Stmt} : s.refusal? = none ↔
    (∀ body, s ≠ .program body) ∧ (∀ t, s = .event t → isEventKind t.kind = true) ∧
      ∀ name args duration, s = .call name args duration →
        (callKey args name).isHashable = true := by
  cases s <;> simp [refusal?, lookupRefusal?_eq_none_iff]

theorem refusal?_eq_some_iff {s : Stmt} {e : LoweringError} : s.refusal? = some e ↔
    (∃ body, s = .program body ∧ e = .nestedProgram) ∨
      (∃ t, s = .event t ∧ isEventKind t.kind = false ∧ t.kind.isHashable = true ∧
        e = .unknownEvent t.kind) ∨
      ∃ v, s.key? = some v ∧ v.isHashable = false ∧ e = .unhashable v := by
  cases s with
  | program => simpa [refusal?, key?] using eq_comm
  | event t =>
    cases hk : isEventKind t.kind with
    | true => simp [refusal?, key?, hk, isHashable_of_isEventKind hk]
    | false =>
      cases hh : t.kind.isHashable with
      | true => simpa [refusal?, key?, hk, hh, lookupRefusal?_of_isHashable hh] using eq_comm
      | false => simpa [refusal?, key?, hk, hh, lookupRefusal?] using eq_comm
  | call name args duration => simp [refusal?, key?, lookupRefusal?_eq_some_iff]
  | _ => simp [refusal?, key?]

end Stmt

variable {p : Program} {grid : Grid}

theorem lowerProgram_error (hg : grid.maxColumns ≠ 0) :
    (lowerProgram grid 0 p).error = p.visits.findSome? Stmt.refusal? :=
  lowerScripts_refusal hg p.body 0 0

/-- A program is lowered if no statement is refused, whatever stands in alternates, and it
fails at the first one that is: a program in place of a statement, an event of an unknown
kind, or a kind or a key of a call that cannot be looked up at all. Without columns it fails
if it has a script root. -/
theorem compile_refusal (hg : grid.maxColumns ≠ 0) (stageName : String) (source : IdSource) :
    ((compile p grid stageName source).result = .ok () ↔ ∀ s ∈ Stmt.visitsAll p.body,
      (∀ body, s ≠ .program body) ∧ (∀ t, s = .event t → isEventKind t.kind = true) ∧
        ∀ name args duration, s = .call name args duration →
          (callKey args name).isHashable = true) ∧
    (∀ e, (compile p grid stageName source).result = .error e ↔
      ∃ before s after, p.visits = before ++ s :: after ∧ (∀ u ∈ before, u.refusal? = none) ∧
        ((∃ body, s = .program body ∧ e = .nestedProgram ∧
            e.message = "Unhandled statement type LIAProgram") ∨
          (∃ t, s = .event t ∧ isEventKind t.kind = false ∧ t.kind.isHashable = true ∧
            e = .unknownEvent t.kind ∧ e.message = t.kind.literal) ∨
          ∃ v, s.key? = some v ∧ v.isHashable = false ∧ e = .unhashable v)) ∧
    (compile p.withoutAlternates grid stageName source).result =
      (compile p grid stageName source).result ∧
    ∀ grid', grid'.maxColumns = 0 → (compile p grid stageName source).result = .ok () →
      (compile p grid' stageName source).result =
        if (compile p grid stageName source).state.roots = [] then .ok () else .error .noColumns := by
  have herror := lowerProgram_error hg (p := p)
  refine ⟨?_, fun e => ?_, ?_, fun grid' hz hok => ?_⟩
  · rw [compile_result_ok_iff, herror, List.findSome?_eq_none_iff]
    simp only [Program.mem_visits_iff, Stmt.refusal?_eq_none_iff]
  · rw [compile_result_error_iff, herror, List.findSome?_eq_some_iff]
    constructor
    · rintro ⟨before, s, after, hp, hs, hbefore⟩
      refine ⟨before, s, after, hp, hbefore, ?_⟩
      obtain ⟨body, rfl, rfl⟩ | ⟨t, rfl, hk, hh, rfl⟩ | hv := Stmt.refusal?_eq_some_iff.1 hs
      · exact .inl ⟨body, rfl, rfl, rfl⟩
      · exact .inr (.inl ⟨t, rfl, hk, hh, rfl, rfl⟩)
      · exact .inr (.inr hv)
    · rintro ⟨before, s, after, hp, hbefore, hs⟩
      refine ⟨before, s, after, hp, Stmt.refusal?_eq_some_iff.2 ?_, hbefore⟩
      obtain ⟨body, hs, he, -⟩ | ⟨t, hs, hk, hh, he, -⟩ | hv := hs
      · exact .inl ⟨body, hs, he⟩
      · exact .inr (.inl ⟨t, hs, hk, hh, he⟩)
      · exact .inr (.inr hv)
  · rw [compile_result, compile_result, herror, lowerProgram_error hg,
      Program.visits_withoutAlternates, List.findSome?_map]
    simp only [Function.comp_def, Stmt.refusal?_withoutAlternates]
  · have hnone := (compile_result_ok_iff p grid stageName source).1 hok
    rw [compile_result, compile_roots]
    simp only [lowerProgram, List.map_eq_nil_iff] at hnone ⊢
    rw [lowerScripts_noColumns hg hz p.body 0 0 hnone]
    by_cases hroots : (lowerScripts grid p.body 0 0 p.body).roots = [] <;> simp [hroots]

/-- A program stands in place of a statement, before an event of no kind and beside another
program that is never come to. -/
def misplaced : Program :=
  ⟨[.event .click, .branch "x" [.program []] (some [.program []]), .event (.unknown "jump" rfl)]⟩

theorem misplaced_refused :
    ({} : Grid).maxColumns ≠ 0 ∧
    (compile misplaced {} "Stage" (.ofList [])).result = .error .nestedProgram ∧
    (compile patrol {} "Stage" (.ofList [])).result = .ok () ∧
    (compile patrol { maxColumns := 0 } "Stage" (.ofList [])).result = .error .noColumns := by
  have hg : ({} : Grid).maxColumns ≠ 0 := by decide
  obtain ⟨-, herror, -, -⟩ := compile_refusal (p := misplaced) hg "Stage" (.ofList [])
  obtain ⟨hok, -, -, hcolumns⟩ := compile_refusal (p := patrol) hg "Stage" (.ofList [])
  have hvisits : misplaced.visits = [.event .click, .event .click,
      .branch "x" [.program []] (some [.program []])] ++ .program [] ::
        [.event (.unknown "jump" rfl)] := rfl
  have hbefore : ∀ u ∈ [.event .click, .event .click,
      .branch "x" [.program []] (some [.program []])], Stmt.refusal? u = none := by
    simp [Stmt.refusal?, Trigger.kind, isEventKind]
  have hpatrol : (compile patrol {} "Stage" (.ofList [])).result = .ok () :=
    hok.2 fun s hs => Stmt.refusal?_eq_none_iff.1 (List.findSome?_eq_none_iff.1 rfl s hs)
  have hroots : (compile patrol {} "Stage" (.ofList [])).state.roots ≠ [] := by
    rw [compile_roots]
    exact List.cons_ne_nil _ _
  refine ⟨hg, (herror _).2 ⟨_, _, _, hvisits, hbefore, .inl ⟨_, rfl, rfl, rfl⟩⟩, hpatrol, ?_⟩
  rw [hcolumns _ rfl hpatrol, if_neg hroots]

/-- An event whose kind is a list. -/
def listEvent : Program := ⟨[.event (.unknown (.list []) rfl)]⟩

/-- Nothing stands out of place in a call by a list, and a kind that is a list is an unknown
one, yet both fail as neither can be looked up. -/
theorem lists_unhashable :
    Program.ofRecord? listCall.toRecord = .ok listCall ∧
    (∀ s ∈ Stmt.visitsAll listCall.body, ∃ name duration, s = .call name [] duration) ∧
    (compile listCall {} "Stage" (.ofList [])).result = .error (.unhashable (.list [])) ∧
    Program.ofRecord? listEvent.toRecord = .ok listEvent ∧
    (∀ s ∈ Stmt.visitsAll listEvent.body, ∃ t, s = .event t ∧ isEventKind t.kind = false) ∧
    (compile listEvent {} "Stage" (.ofList [])).result = .error (.unhashable (.list [])) := by
  refine ⟨rfl, ?_, (compile_result_error_iff ..).2 rfl, rfl, ?_, (compile_result_error_iff ..).2 rfl⟩
  · simp [listCall, Stmt.visitsAll, Stmt.visits]
  · simp [listEvent, Stmt.visitsAll, Stmt.visits, Trigger.kind, isEventKind]

end Lia

import Mathlib.Data.List.Forall2
import Lia.Proofs.Lowering.Scripts
import Lia.Stmt.Record

/-!
# Compiled blocks read as the program

`compile_reads`: a program of known events is compiled, and from the records of its
blocks every script root reads as its script by the table, and as nothing else.
-/

namespace Lia

open Lia.Tree Lowering

/-- A link in a record. -/
def linkValue (link : Option String) : Value := (link.map Value.text).getD .null

/-- The records hold those of blocks under their ids. -/
def Recorded (records : List (String × Value)) (bs : List (Block String)) : Prop :=
  ∀ b ∈ bs, ∃ top, records.lookup b.id = some (b.toValue top)

theorem recorded_append {records : List (String × Value)} {as bs : List (Block String)} :
    Recorded records (as ++ bs) ↔ Recorded records as ∧ Recorded records bs := List.forall_mem_append

-- ---------------------------------------------------------------------------
-- Records of blocks
-- ---------------------------------------------------------------------------

section
variable (b : Block String) (top : Bool)

theorem toValue_opcode : (b.toValue top).get? "opcode" = some (linkValue b.opcode) := rfl

theorem toValue_inputs : (b.toValue top).get? "inputs" =
    some (.ofFields (b.inputs.map fun i => (i.name, i.toValue))) := rfl

theorem toValue_fields : (b.toValue top).get? "fields" =
    some (.ofFields (b.fields.map fun f => (f.name, f.toValue))) := rfl

theorem toValue_next : (b.toValue top).get? "next" = some (linkValue b.next) := rfl

end

namespace Face

variable (f : Face)

theorem fields_toValue : Value.ofFields (f.fields.map fun f => (f.name, f.toValue)) =
    .record (f.fields.map Field.field) := by
  refine Value.ofFields_of_nodup ?_
  rw [List.map_map]
  exact f.fields_nodup

theorem values_map_fst : (f.values.map Shadow.field).map Prod.fst = f.values.map Shadow.name := by
  rw [List.map_map]
  rfl

theorem leaf_inputs (id : String) (parent next : Option String) :
    Value.ofFields ((f.block id [] parent next).inputs.map fun i => (i.name, i.toValue)) =
      .record (f.values.map Shadow.field) := by
  have h : (f.block id [] parent next).inputs.map (fun i => (i.name, i.toValue)) =
      f.values.map Shadow.field := by
    simp [Face.block, Shadow.input, Shadow.field, Input.toValue]
  rw [h, Value.ofFields_of_nodup]
  rw [values_map_fst]
  exact f.values_nodup

theorem container_inputs (id : String) (first parent next : Option String) :
    Value.ofFields ((f.block id [.substack "SUBSTACK" first] parent next).inputs.map
        fun i => (i.name, i.toValue)) =
      .record (f.values.map Shadow.field ++ [("SUBSTACK", .list [2, linkValue first])]) := by
  have h : (f.block id [.substack "SUBSTACK" first] parent next).inputs.map
      (fun i => (i.name, i.toValue)) =
        f.values.map Shadow.field ++ [("SUBSTACK", .list [2, linkValue first])] := by
    simp [Face.block, Shadow.input, Shadow.field, Input.toValue, Input.substack, linkValue]
  rw [h, Value.ofFields_of_nodup]
  rw [List.map_append, values_map_fst, List.nodup_append]
  refine ⟨f.values_nodup, by simp, ?_⟩
  simp only [List.map_singleton, List.mem_singleton]
  rintro name hm _ rfl rfl
  obtain ⟨v, -, hv⟩ := List.mem_map.1 hm
  exact v.named hv

theorem values_lookup : (f.values.map Shadow.field).lookup "SUBSTACK" = none := by
  rw [List.lookup_eq_none_iff]
  intro p hp
  obtain ⟨v, -, rfl⟩ := List.mem_map.1 hp
  simpa [Shadow.field] using Ne.symm v.named

end Face

-- ---------------------------------------------------------------------------
-- Reading trees
-- ---------------------------------------------------------------------------

namespace Tree

variable {records : List (String × Value)}

mutual
theorem layout_reads (parent next : Option String) {rest : List Node}
    (hn : Reads records (linkValue next) rest) :
    (t : Tree String) → Recorded records (t.layout parent next) →
      Reads records (.text t.id) (t.node :: rest)
  | .leaf id face, h => by
    obtain ⟨top, hr⟩ := h _ (List.mem_singleton.2 rfl)
    refine .plain hr (toValue_opcode _ _) ?_ face.values_lookup ?_ (toValue_next _ _) hn
    · rw [toValue_inputs, face.leaf_inputs]
    · rw [toValue_fields]
      exact congrArg some face.fields_toValue
  | .container id face inside, h => by
    obtain ⟨hin, hown⟩ := recorded_append.1 h
    obtain ⟨top, hr⟩ := hown _ (List.mem_singleton.2 rfl)
    refine .container hr (toValue_opcode _ _) ?_ ?_ (layoutAll_reads (some id) inside hin)
      (toValue_next _ _) hn
    · rw [toValue_inputs, face.container_inputs]
    · rw [toValue_fields]
      exact congrArg some face.fields_toValue
/-- A chain reads as the nodes of its trees. -/
theorem layoutAll_reads (parent : Option String) :
    (ts : List (Tree String)) → Recorded records (layoutAll parent ts) →
      Reads records (linkValue (first? ts)) (nodes ts)
  | [], _ => .nil
  | t :: ts, h => by
    obtain ⟨ht, hts⟩ := recorded_append.1 h
    exact layout_reads parent (first? ts) (layoutAll_reads none ts hts) t ht
end

end Tree

-- ---------------------------------------------------------------------------
-- Compiled programs
-- ---------------------------------------------------------------------------

theorem lookup_of_nodup {bs : List (Block String)} (h : (bs.map Block.id).Nodup) {b : Block String}
    (hb : b ∈ bs) (f : Block String → Value) :
    (bs.map fun b => (b.id, f b)).lookup b.id = some (f b) := by
  induction bs with
  | nil => cases hb
  | cons a bs ih =>
    obtain ⟨ha, hbs⟩ := List.nodup_cons.1 h
    rw [List.map_cons, List.lookup_cons]
    rcases List.mem_cons.1 hb with rfl | hb
    · simp
    · have hne : (b.id == a.id) = false :=
        beq_false_of_ne fun he => ha (he ▸ List.mem_map_of_mem hb)
      rw [hne]
      exact ih hbs hb

theorem blockFields_recorded {t : Target} (h : t.ids.Nodup) : Recorded t.blockFields t.blocks :=
  fun _ hb => ⟨_, lookup_of_nodup h hb fun b => b.toValue (!t.linked.contains b.id)⟩

theorem forall₂_scripts {R : String → List Node → Prop} {scripts : List (List (Tree String))}
    {roots : List String} (hr : roots.map some = scripts.map first?)
    (h : ∀ ts ∈ scripts, ∀ root, first? ts = some root → R root (nodes ts)) :
    List.Forall₂ R roots (scripts.map nodes) := by
  induction scripts generalizing roots with
  | nil =>
    obtain rfl := List.map_eq_nil_iff.1 hr
    exact .nil
  | cons ts scripts ih =>
    obtain ⟨root, roots, rfl, hroot, hroots⟩ := List.map_eq_cons_iff.1 hr
    exact .cons (h ts (by simp) root hroot.symm) (ih hroots fun ts hts => h ts (.tail _ hts))

theorem compile_reads {p : Program} {grid : Grid} {stageName : String} {source : IdSource}
    (hp : Stmt.supportedAll p.body = true) (hg : grid.maxColumns ≠ 0) (hid : ∀ n, source.id n ≠ "") :
    (compile p grid stageName source).result = .ok () ∧
      List.Forall₂ (fun root script => ∀ nodes,
          Reads (compile p grid stageName source).state.target.blockFields (.text root) nodes ↔
            nodes = script)
        (compile p grid stageName source).state.roots p.scripts := by
  have hok : (compile p grid stageName source).result = .ok () := by
    rw [compile_result_ok_iff]
    exact lowerScripts_error hg hp p.body 0 0 hp
  refine ⟨hok, ?_⟩
  obtain ⟨scripts, hb, hr, hn, hs⟩ := compile_lays hid hok
  rw [← hs]
  refine forall₂_scripts hr fun ts hts root hroot nodes => ?_
  have hrec := blockFields_recorded hn
  rw [hb] at hrec
  have hread := layoutAll_reads none ts fun b hbm => hrec b (List.mem_flatMap.2 ⟨ts, hts, hbm⟩)
  rw [hroot] at hread
  constructor
  · intro h
    exact h.unique hread
  · rintro rfl
    exact hread

theorem patrol_reads :
    Stmt.supportedAll patrol.body = true ∧ ({} : Grid).maxColumns ≠ 0 ∧
      (∀ n, (IdSource.ofList []).id n ≠ "") ∧
      List.Forall₂ (fun root script => ∀ nodes,
          Reads (compile patrol {} "Stage" (.ofList [])).state.target.blockFields (.text root) nodes ↔
            nodes = script)
        (compile patrol {} "Stage" (.ofList [])).state.roots patrol.scripts := by
  have hid : ∀ n, (IdSource.ofList []).id n ≠ "" := IdSource.ofList_ne_empty (by simp)
  exact ⟨rfl, by decide, hid, (compile_reads rfl (by decide) hid).2⟩

/-- Its one script is never made, as no table of calls can be asked for a list. -/
theorem listCall_unread : Program.ofRecord? listCall.toRecord = .ok listCall ∧
    (∀ s ∈ Stmt.visitsAll listCall.body, ∃ name duration, s = .call name [] duration) ∧
    listCall.scripts = [[.plain "event_whenflagclicked" [] [], .plain "procedures_call" [] []]] ∧
    (compile listCall {} "Stage" (.ofList [])).result = .error (.unhashable (.list [])) := by
  refine ⟨rfl, ?_, rfl, (compile_result_error_iff ..).2 rfl⟩
  simp [listCall, Stmt.visitsAll, Stmt.visits]

end Lia

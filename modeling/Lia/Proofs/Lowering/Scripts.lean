import Lia.Lowering
import Lia.Proofs.Lowering.Statements

/-!
# Programs become scripts

The blocks of a compiled program are what a list of scripts is stored as, each a chain
of trees that begins at a script root (`compile_lays`). It is the scripts of the table
that the trees show.
-/

namespace Lia

open Lia.Tree Lowering

namespace Lowering

-- ---------------------------------------------------------------------------
-- Drafts
-- ---------------------------------------------------------------------------

/-- The blocks of a draft, with the main hat in front of its chain. -/
def Draft.chained (d : Draft) : List (Block Nat) :=
  d.hats ++ match d.main with
    | some (hat, chain) => { hat with next := chain.first } :: chain.blocks
    | none => []

/-- The draft is what scripts are stored as, each behind its root. -/
structure Draft.Lays (d : Draft) (n : Nat) (scripts : List (List (Tree Nat))) : Prop where
  roots : d.roots.map some = scripts.map first?
  blocks : d.chained = scripts.flatMap (layoutAll none)
  ids : d.chained.map Block.id = List.range' n d.size
  main : ∀ hat chain, d.main = some (hat, chain) →
    chain.error = none ∧ ∀ k ∈ chain.first, k ∈ chain.blocks.map Block.id

theorem Chain.Lays.first_mem {c : Chain} (h : c.Lays n ts) :
    ∀ k ∈ c.first, k ∈ c.blocks.map Block.id := by
  rw [h.first, h.blocks]
  cases ts with
  | nil => simp
  | cons t ts =>
    intro k hk
    obtain rfl : t.id = k := Option.some.inj hk
    rw [layoutAll, List.map_append]
    exact List.mem_append_left _ (id_mem_layout none (first? ts) t)

theorem withHat_size (hat : Block Nat) (d : Draft) : (d.withHat hat).size = d.size + 1 := by
  simp only [Draft.withHat, Draft.size, List.length_cons]
  omega

theorem withHat_error (hat : Block Nat) (d : Draft) : (d.withHat hat).error = d.error := rfl

theorem withNotes_error (notes : List Note) (d : Draft) : (d.withNotes notes).error = d.error := rfl

theorem withHat_chained (hat : Block Nat) (d : Draft) :
    (d.withHat hat).chained = hat :: d.chained := rfl

theorem Draft.Lays.withHat {d : Draft} (h : d.Lays (n + 1) scripts) (f : Face) :
    (d.withHat (f.block n [] none none)).Lays n ([.leaf n f] :: scripts) where
  roots := by simpa [Draft.withHat, Tree.id] using h.roots
  blocks := by
    rw [withHat_chained, h.blocks]
    rfl
  ids := by
    rw [withHat_chained, withHat_size, List.range'_succ, ← h.ids]
    rfl
  main := h.main

theorem Draft.Lays.withNotes {d : Draft} (h : d.Lays n scripts) (notes : List Note) :
    (d.withNotes notes).Lays n scripts := ⟨h.roots, h.blocks, h.ids, h.main⟩

theorem main_lays {c : Chain} (h : c.Lays (n + 1) ts) (he : c.error = none) (f : Face)
    (notes : List Note) (error : Option LoweringError) :
    ({ main := some (f.block n [] none none, c), roots := [n], notes, error } : Draft).Lays n
      [.leaf n f :: ts] where
  roots := rfl
  blocks := by
    simp only [Draft.chained, List.nil_append, List.flatMap_singleton, layoutAll, layout,
      ← h.first, ← h.blocks]
    rfl
  ids := by
    simp only [Draft.chained, Draft.size, List.nil_append, List.map_cons, List.length_nil, Nat.zero_add,
      List.range'_succ, h.ids]
    rfl
  main hat chain hm := by
    obtain ⟨-, rfl⟩ := Prod.mk.inj (Option.some.inj hm)
    exact ⟨he, h.first_mem⟩

theorem placing_eq {grid : Grid} {root : Nat} {f : Face} {following : Block Nat → Draft}
    (h : (Draft.placing grid root (f.block n [] none none) following).error = none) :
    ∃ g : Face, g.opcode = f.opcode ∧ g.values = f.values ∧ g.fields = f.fields ∧
      Draft.placing grid root (f.block n [] none none) following =
        following (g.block n [] none none) := by
  unfold Draft.placing at h ⊢
  split at h
  next => cases h
  next x y hp =>
    exact ⟨{ f with place := some (x, y) }, rfl, rfl, rfl, rfl⟩

-- ---------------------------------------------------------------------------
-- Scripts
-- ---------------------------------------------------------------------------

variable {grid : Grid} {whole rest : List Stmt} {n root : Nat}

theorem single_own (n : Nat) (f : Face) (hp : f.place = none) :
    (Segment.single n f.opcode (f.values.map Shadow.input) f.fields).own =
      some (f.block n [] none none) := by
  simp [Segment.single, Face.block, hp]

theorem lowerScripts_hat {t : Trigger} {f : Face} (hp : f.place = none)
    (ht : lowerTrigger n t = .single n f.opcode (f.values.map Shadow.input) f.fields) :
    lowerScripts grid whole n root (.event t :: rest) =
      .placing grid root (f.block n [] none none)
        fun hat => (lowerScripts grid whole (n + 1) (root + 1) rest).withHat hat := by
  simp only [lowerScripts, ht, single_own n f hp]
  rfl

theorem lowerScripts_main {s : Stmt} (hs : s.isEvent = false) :
    lowerScripts grid whole n root (s :: rest) =
      .placing grid root
        ((Face.mk "event_whenflagclicked" [] [] none (by simp) (by simp)).block n [] none none)
        fun hat =>
          { main := some (hat, lowerAll (n + 1) whole), roots := [n]
            notes := (lowerAll (n + 1) whole).notes, error := (lowerAll (n + 1) whole).error } := by
  cases s with
  | event => cases hs
  | _ => rfl

theorem isEvent_iff {s : Stmt} : s.isEvent = true ↔ ∃ t, s = .event t := by
  cases s <;> simp [Stmt.isEvent]

theorem scriptsFrom_event (t : Trigger) :
    scriptsFrom whole (.event t :: rest) =
      (t.image?.map fun hat => [hat]).toList ++ scriptsFrom whole rest := by
  have he : (Stmt.event t).isEvent = true := rfl
  cases hi : t.image? <;> simp [scriptsFrom, he, Stmt.image?, hi]

theorem scriptsFrom_main {s : Stmt} (hs : s.isEvent = false) :
    scriptsFrom whole (s :: rest) = [.plain "event_whenflagclicked" [] [] :: Stmt.images whole] := by
  simp [scriptsFrom, hs]

/-- The statements that lowering comes to until the leading events are over, and in the
whole program if something else follows them. -/
def visitsFrom (whole ss : List Stmt) : List Stmt :=
  ss.takeWhile Stmt.isEvent ++ if ss.all Stmt.isEvent then [] else Stmt.visitsAll whole

theorem visitsFrom_event (t : Trigger) :
    visitsFrom whole (.event t :: rest) = .event t :: visitsFrom whole rest := by
  have he : (Stmt.event t).isEvent = true := rfl
  simp [visitsFrom, he]

theorem visitsFrom_main {s : Stmt} (hs : s.isEvent = false) :
    visitsFrom whole (s :: rest) = Stmt.visitsAll whole := by
  simp [visitsFrom, hs]

theorem mem_visitsFrom {s : Stmt} {ss : List Stmt} (h : s ∈ visitsFrom whole ss) :
    s ∈ ss ∨ s ∈ Stmt.visitsAll whole := by
  rw [visitsFrom, List.mem_append] at h
  obtain h | h := h
  · exact .inl ((List.takeWhile_sublist _).subset h)
  · split at h
    · cases h
    · exact .inr h

theorem lowerScripts_skip {t : Trigger} (ht : lowerTrigger n t = .skip note) :
    lowerScripts grid whole n root (.event t :: rest) =
      (lowerScripts grid whole n root rest).withNotes [note] := by
  simp only [lowerScripts, ht]
  rfl

/-- Scripts that are lowered without an error are laid out as trees that show them. -/
theorem lowerScripts_lays (grid : Grid) (whole ss : List Stmt) (n root : Nat)
    (h : (lowerScripts grid whole n root ss).error = none) :
    ∃ scripts, (lowerScripts grid whole n root ss).Lays n scripts ∧
      scripts.map Tree.nodes = scriptsFrom whole ss := by
  induction ss generalizing n root with
  | nil => exact ⟨[], ⟨rfl, rfl, rfl, by simp [lowerScripts]⟩, rfl⟩
  | cons s rest ih =>
    cases hs : s.isEvent with
    | true =>
      obtain ⟨t, rfl⟩ := isEvent_iff.1 hs
      rw [scriptsFrom_event]
      obtain ⟨f, hp, ht, hi⟩ | ⟨note, ht, hi⟩ | ⟨e, ht⟩ := lowerTrigger_cases n t
      · rw [lowerScripts_hat hp ht] at h ⊢
        obtain ⟨g, ho, hv, hf, hg⟩ := placing_eq h
        rw [hg] at h ⊢
        rw [withHat_error] at h
        obtain ⟨scripts, hl, hn⟩ := ih (n + 1) (root + 1) h
        exact ⟨_, hl.withHat g, by simp [hi, Tree.nodes, Tree.node, ho, hv, hf, hn]⟩
      · rw [lowerScripts_skip ht] at h ⊢
        rw [withNotes_error] at h
        obtain ⟨scripts, hl, hn⟩ := ih n root h
        exact ⟨scripts, hl.withNotes _, by simp [hi, hn]⟩
      · simp [lowerScripts, ht] at h
    | false =>
      rw [lowerScripts_main hs] at h ⊢
      obtain ⟨g, ho, hv, hf, hg⟩ := placing_eq h
      rw [hg] at h ⊢
      obtain ⟨ts, hts, hn⟩ := lowerAll_lays (n + 1) whole h
      refine ⟨_, main_lays hts h g _ _, ?_⟩
      rw [scriptsFrom_main hs]
      simp [Tree.nodes, Tree.node, ho, hv, hf, hn]

theorem placing_of_columns (hg : grid.maxColumns ≠ 0) (root : Nat) (hat : Block Nat)
    (following : Block Nat → Draft) :
    ∃ x y, Draft.placing grid root hat following = following (hat.moveTo x y) := by
  unfold Draft.placing
  rw [Grid.place?, if_neg hg]
  exact ⟨_, _, rfl⟩

/-- Where there are columns, lowering fails at the first statement that is refused. -/
theorem lowerScripts_refusal (hg : grid.maxColumns ≠ 0) (ss : List Stmt) (n root : Nat) :
    (lowerScripts grid whole n root ss).error =
      (visitsFrom whole ss).findSome? Stmt.refusal? := by
  induction ss generalizing n root with
  | nil => rfl
  | cons s rest ih =>
    cases hs : s.isEvent with
    | true =>
      obtain ⟨t, rfl⟩ := isEvent_iff.1 hs
      rw [visitsFrom_event, List.findSome?_cons, ← lowerTrigger_error n t]
      cases he : (lowerTrigger n t).error with
      | some e => simp only [lowerScripts, he]
      | none =>
        simp only [lowerScripts, he]
        cases (lowerTrigger n t).own with
        | none => exact ih n root
        | some hat =>
          obtain ⟨x, y, hp⟩ := placing_of_columns hg root hat fun hat =>
            (lowerScripts grid whole (n + 1) (root + 1) rest).withHat hat
          simp only [hp]
          exact ih (n + 1) (root + 1)
    | false =>
      rw [lowerScripts_main hs, visitsFrom_main hs]
      obtain ⟨x, y, hp⟩ := placing_of_columns hg root _ _
      rw [hp]
      exact lowerAll_error (n + 1) whole

theorem lowerScripts_error (hg : grid.maxColumns ≠ 0) (hw : Stmt.supportedAll whole = true)
    (ss : List Stmt) (n root : Nat) (h : Stmt.supportedAll ss = true) :
    (lowerScripts grid whole n root ss).error = none := by
  rw [lowerScripts_refusal hg, List.findSome?_eq_none_iff]
  intro s hs
  obtain hs | hs := mem_visitsFrom hs
  · exact (Stmt.supportedAll_iff ss).1 h s (Stmt.mem_visitsAll hs)
  · exact (Stmt.supportedAll_iff whole).1 hw s hs

-- ---------------------------------------------------------------------------
-- Ids
-- ---------------------------------------------------------------------------

end Lowering

mutual
def Tree.map (f : ι → κ) : Tree ι → Tree κ
  | .leaf id face => .leaf (f id) face
  | .container id face inside => .container (f id) face (Tree.mapAll f inside)
termination_by structural t => t
def Tree.mapAll (f : ι → κ) : List (Tree ι) → List (Tree κ)
  | [] => []
  | t :: ts => t.map f :: Tree.mapAll f ts
termination_by structural ts => ts
end

namespace Tree

theorem map_id (f : ι → κ) (t : Tree ι) : (t.map f).id = f t.id := by cases t <;> rfl

theorem first?_mapAll (f : ι → κ) (ts : List (Tree ι)) : first? (mapAll f ts) = (first? ts).map f := by
  cases ts with
  | nil => rfl
  | cons t ts => simp [mapAll, map_id]

mutual
theorem node_map (f : ι → κ) : (t : Tree ι) → (t.map f).node = t.node
  | .leaf _ _ => rfl
  | .container _ _ inside => by simp [Tree.map, Tree.node, nodes_mapAll f inside]
theorem nodes_mapAll (f : ι → κ) : (ts : List (Tree ι)) → nodes (mapAll f ts) = nodes ts
  | [] => rfl
  | t :: ts => by simp [mapAll, nodes, node_map f t, nodes_mapAll f ts]
end

/-- Numbers that have an id. -/
def Named (ids : List String) (bs : List (Block Nat)) : Prop := ∀ b ∈ bs, idOf ids b.id ≠ ""

theorem named_append {ids : List String} {as bs : List (Block Nat)} :
    Named ids (as ++ bs) ↔ Named ids as ∧ Named ids bs := List.forall_mem_append

theorem assignBlock_face (ids : List String) (f : Face) {id : Nat} (hid : idOf ids id ≠ "")
    (mouth : List (Input Nat)) (parent next : Option Nat) :
    assignBlock ids (f.block id mouth parent next) =
      f.block (idOf ids id) (mouth.map (assignInput ids)) (parent.map (idOf ids))
        (next.map (idOf ids)) := by
  unfold assignBlock
  rw [block_id, if_neg hid]
  simp only [Face.block, List.map_append, List.map_map]
  rfl

mutual
theorem layout_assign {ids : List String} (parent next : Option Nat) :
    (t : Tree Nat) → Named ids (t.layout parent next) →
      (t.layout parent next).map (assignBlock ids) =
        (t.map (idOf ids)).layout (parent.map (idOf ids)) (next.map (idOf ids))
  | .leaf id face, h => by
    have hid : idOf ids id ≠ "" := h _ (List.mem_singleton.2 rfl)
    simp only [layout, Tree.map, List.map_singleton]
    rw [assignBlock_face ids face hid]
    rfl
  | .container id face inside, h => by
    obtain ⟨hin, hown⟩ := named_append.1 h
    have hid : idOf ids id ≠ "" := hown _ (List.mem_singleton.2 rfl)
    simp only [layout, Tree.map, List.map_append, List.map_singleton]
    rw [layoutAll_assign (some id) inside hin, assignBlock_face ids face hid, first?_mapAll]
    rfl
/-- Blocks that get ids for numbers are those of trees that do. -/
theorem layoutAll_assign {ids : List String} (parent : Option Nat) :
    (ts : List (Tree Nat)) → Named ids (layoutAll parent ts) →
      (layoutAll parent ts).map (assignBlock ids) =
        layoutAll (parent.map (idOf ids)) (mapAll (idOf ids) ts)
  | [], _ => rfl
  | t :: ts, h => by
    obtain ⟨ht, hts⟩ := named_append.1 h
    simp only [layoutAll, mapAll, List.map_append]
    rw [layout_assign parent (first? ts) t ht, layoutAll_assign none ts hts, first?_mapAll]
    rfl
end

end Tree

-- ---------------------------------------------------------------------------
-- Programs
-- ---------------------------------------------------------------------------

namespace Lowering

theorem getElem?_idOf {ids : List String} {n : Nat} (h : n < ids.length) : idOf ids n ∈ ids := by
  rw [idOf, List.getElem?_eq_getElem h, Option.getD_some]
  exact List.getElem_mem h

theorem map_idOf_range (ids : List String) : (List.range' 0 ids.length).map (idOf ids) = ids := by
  apply List.ext_getElem
  · simp
  · intro i h _
    simp at h
    simp [idOf, h]

theorem assignHat_eq {ids : List String} {hat : Block Nat} {c : Chain} (he : c.error = none)
    (hf : ∀ k ∈ c.first, idOf ids k ≠ "") :
    assignHat ids hat c = assignBlock ids { hat with next := c.first } := by
  have hn : (c.first.map (idOf ids)).filter (· ≠ "") = c.first.map (idOf ids) := by
    cases hc : c.first with
    | none => rfl
    | some k => simp [Option.filter, hf k hc]
  simp only [assignHat, he, hn]
  rfl

/-- The blocks with their ids are stored as the scripts with their ids are. -/
theorem Draft.Lays.assign {d : Draft} {ids : List String} (h : d.Lays 0 scripts)
    (hl : ids.length = d.size) (hid : ∀ id ∈ ids, id ≠ "") :
    d.assign ids = (scripts.map (mapAll (idOf ids))).flatMap (layoutAll none) := by
  have hn : Named ids d.chained := by
    intro b hb
    have hm := List.mem_map_of_mem (f := Block.id) hb
    rw [h.ids, List.mem_range'_1] at hm
    exact hid _ (getElem?_idOf (by omega))
  have hassign : d.assign ids = d.chained.map (assignBlock ids) := by
    unfold Draft.assign Draft.chained
    rw [List.map_append]
    cases hm : d.main with
    | none => rfl
    | some main =>
      obtain ⟨hat, chain⟩ := main
      obtain ⟨he, hf⟩ := h.main hat chain hm
      have hfirst : ∀ k ∈ chain.first, idOf ids k ≠ "" := by
        intro k hk
        obtain ⟨b, hb, rfl⟩ := List.mem_map.1 (hf k hk)
        refine hn b ?_
        simp [Draft.chained, hm, hb]
      simp only [assignHat_eq he hfirst, List.map_cons]
  rw [h.blocks] at hn
  rw [hassign, h.blocks, List.map_flatMap, List.flatMap_map, List.flatMap_def, List.flatMap_def]
  refine congrArg List.flatten (List.map_congr_left fun ts hts => ?_)
  exact layoutAll_assign none ts fun b hb => hn b (List.mem_flatMap.2 ⟨ts, hts, hb⟩)

theorem Draft.ids_length (d : Draft) : d.ids.length = d.size := by
  unfold ids size
  cases d.main <;> simp

theorem Draft.assign_map_id (d : Draft) (ids : List String) :
    (d.assign ids).map Block.id = d.ids.map (idOf ids) := by
  unfold assign Draft.ids
  cases d.main <;> simp [assignBlock, assignHat, Function.comp_def]

/-- Each block gets the id that was drawn for its number. -/
theorem lowerProgram_assign_ids (grid : Grid) (roots : Nat) (p : Program) {ids : List String}
    (hl : ids.length = (lowerProgram grid roots p).size) :
    ((lowerProgram grid roots p).assign ids).map Block.id = ids := by
  have hn : Numbered 0 (lowerProgram grid roots p).ids :=
    lowerScripts_numbered grid p.body p.body 0 roots
  rw [Draft.assign_map_id, hn, Draft.ids_length, ← hl, map_idOf_range]

end Lowering

-- ---------------------------------------------------------------------------
-- Compiling
-- ---------------------------------------------------------------------------

/-- The ids that a program takes from a source. -/
def programIds (p : Program) (grid : Grid) (source : IdSource) : List String :=
  (Supply.take { source } [] (lowerProgram grid 0 p).size).1

section
variable (p : Program) (grid : Grid) (stageName : String) (source : IdSource)

theorem compile_result :
    (compile p grid stageName source).result = match (lowerProgram grid 0 p).error with
      | some e => .error e
      | none => .ok () := by
  unfold compile Compilation.program
  cases he : (lowerProgram grid 0 p).error <;> simp [Compilation.start, he]

theorem compile_result_ok_iff :
    (compile p grid stageName source).result = .ok () ↔ (lowerProgram grid 0 p).error = none := by
  rw [compile_result]
  cases (lowerProgram grid 0 p).error <;> simp

theorem compile_result_error_iff {e : LoweringError} :
    (compile p grid stageName source).result = .error e ↔
      (lowerProgram grid 0 p).error = some e := by
  rw [compile_result]
  cases (lowerProgram grid 0 p).error <;> simp

/-- The compilation when the program is lowered, or when it has stopped at an error. -/
theorem compile_state :
    (compile p grid stageName source).state = {
      grid
      target := { name := stageName, blocks := (lowerProgram grid 0 p).assign (programIds p grid source) }
      supply := (Supply.take { source } [] (lowerProgram grid 0 p).size).2
      roots := (lowerProgram grid 0 p).roots.map (idOf (programIds p grid source)) } := by
  unfold compile Compilation.program
  simp only
  split <;> rfl

theorem compile_blocks :
    (compile p grid stageName source).state.target.blocks =
      (lowerProgram grid 0 p).assign (programIds p grid source) := by
  rw [compile_state]

theorem compile_roots :
    (compile p grid stageName source).state.roots =
      (lowerProgram grid 0 p).roots.map (idOf (programIds p grid source)) := by
  rw [compile_state]

end

/-- A compiled target is what scripts are stored as, one for each root, and the scripts
show the program. -/
theorem compile_lays {p : Program} {grid : Grid} {stageName : String} {source : IdSource}
    (hid : ∀ n, source.id n ≠ "") (h : (compile p grid stageName source).result = .ok ()) :
    ∃ scripts : List (List (Tree String)),
      (compile p grid stageName source).state.target.blocks = scripts.flatMap (layoutAll none) ∧
      (compile p grid stageName source).state.roots.map some = scripts.map first? ∧
      (compile p grid stageName source).state.target.ids.Nodup ∧
      scripts.map Tree.nodes = p.scripts := by
  rw [compile_result_ok_iff] at h
  obtain ⟨scripts, hl, hn⟩ : ∃ scripts, (lowerProgram grid 0 p).Lays 0 scripts ∧
      scripts.map Tree.nodes = p.scripts := lowerScripts_lays grid p.body p.body 0 0 h
  have hlen : (programIds p grid source).length = (lowerProgram grid 0 p).size := by
    simp [programIds]
  have hne : ∀ id ∈ programIds p grid source, id ≠ "" := by
    intro id hm
    obtain ⟨m, rfl⟩ := Supply.take_source _ _ _ hm
    exact hid m
  refine ⟨scripts.map (mapAll (idOf (programIds p grid source))), ?_, ?_, ?_, ?_⟩
  · rw [compile_blocks]
    exact hl.assign hlen hne
  · have hr := congrArg (List.map (Option.map (idOf (programIds p grid source)))) hl.roots
    rw [List.map_map, List.map_map] at hr
    rw [compile_roots, List.map_map, List.map_map]
    refine Eq.trans hr (List.map_congr_left fun ts _ => ?_)
    exact (first?_mapAll _ ts).symm
  · rw [Target.ids, compile_blocks, lowerProgram_assign_ids grid 0 p hlen]
    exact Supply.take_nodup _ _ _
  · rw [List.map_map, ← hn]
    exact List.map_congr_left fun ts _ => nodes_mapAll _ ts

end Lia

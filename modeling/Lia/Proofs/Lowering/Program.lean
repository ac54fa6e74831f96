import Lia.Proofs.Lowering.Stepwise

/-!
# Building programs

All scripts of a program are lowered at once. Here their blocks are created one at a time: a hat
becomes a script root when it is there, and the hat of the main script is told where its chain
begins when the chain is there. Main statement: this comes to the same compilation, notes and
result, also where it stops half way (`program_eq_build`).
-/

namespace Lia

open Lowering

-- ---------------------------------------------------------------------------
-- Building
-- ---------------------------------------------------------------------------

/-- The main script, a hat above a chain. -/
def Lowering.Draft.script (hat : Block Nat) (chain : Chain) : Draft :=
  { main := some (hat, chain), roots := [hat.id], notes := chain.notes, error := chain.error }

namespace Compilation

/-- Builds the main script: its hat, then the chain of the whole program. The hat leads to the
chain unless the id of the first block is empty. -/
def buildMain (c : Compilation) (whole : List Stmt) : Compiled Unit :=
  let (c, id) := c.create (some "event_whenflagclicked") [] []
  (c.addRoot id).andThen fun c _ =>
    (c.buildAll none none whole).andThen fun c ends =>
      ⟨c.chain (some id) (ends.1.filter (· ≠ "")), [], .ok ()⟩

/-- Builds the hats of the leading events and, from the first other statement on, the main
script. -/
def buildScripts (c : Compilation) (whole : List Stmt) : List Stmt → Compiled Unit
  | [] => ⟨c, [], .ok ()⟩
  | .event t :: rest => (c.buildOwn (lowerTrigger 0 t)).andThen fun c own =>
    match own with
    | none => c.buildScripts whole rest
    | some id => (c.addRoot id).andThen fun c _ => c.buildScripts whole rest
  | _ :: _ => c.buildMain whole

def buildProgram (c : Compilation) (p : Program) : Compiled Unit :=
  (c.buildScripts p.body p.body).andThen fun c _ =>
    ⟨c, [.compiled c.target.size c.roots.length], .ok ()⟩

-- ---------------------------------------------------------------------------
-- Roots
-- ---------------------------------------------------------------------------

variable (c : Compilation)

def withRoots (ids : List String) : Compilation := { c with roots := c.roots ++ ids }

theorem withRoots_nil : c.withRoots [] = c := by
  simp [withRoots]

theorem withRoots_withRoots (ids ids' : List String) :
    (c.withRoots ids).withRoots ids' = c.withRoots (ids ++ ids') := by
  simp [withRoots]

theorem chain_withRoots (ids : List String) (last next : Option String) :
    (c.withRoots ids).chain last next = (c.chain last next).withRoots ids := by
  unfold chain
  split <;> rfl

/-- What comes of adding a draft, where the numbers before it have the given ids. -/
def draftBehind (before : List String) (d : Draft) : Compiled Unit :=
  let ids := before ++ c.nextIds d.size
  ⟨(c.put (d.assign ids) (c.restIds d.size)).withRoots (d.roots.map (idOf ids)), d.notes,
    result d.error ()⟩

/-- A hat that has just been added, as a script root on its place. -/
def hatBehind (before : List String) (hat : Block Nat) : Compilation :=
  (c.addBehind before [hat]).withRoots (c.nextIds 1)

section
variable {c} {before : List String} {hat : Block Nat} (hid : hat.id = before.length)
include hid

theorem hat_numbered : Numbered before.length ([hat].map Block.id) := by
  rw [List.map_singleton, hid]
  rfl

theorem assign_hat_id (id : String) : (assignBlock (before ++ [id]) hat).id = id := by
  rw [assignBlock, hid, idOf_length]

theorem addRoot_hat {id : String} (hnext : c.nextIds 1 = [id]) :
    (c.addBehind before [hat]).addRoot id =
      match c.grid.place? c.roots.length with
      | none => ⟨c.addBehind before [hat], [], .error .noColumns⟩
      | some (x, y) => ⟨c.hatBehind before (hat.moveTo x y), [], .ok ()⟩ := by
  have hnew : id ∉ c.target.ids := c.nextIds_not_mem (n := 1) (by simp [hnext])
  have hmoved (x y : Int) : (c.addBehind before [hat]).change id (·.moveTo x y) =
      c.addBehind before [hat.moveTo x y] := by
    simp only [addBehind_eq, List.length_singleton, hnext, change_put c hnew, List.map_singleton,
      if_pos (assign_hat_id hid id)]
    rfl
  unfold addRoot
  have hgrid : (c.addBehind before [hat]).grid = c.grid := rfl
  have hroots : (c.addBehind before [hat]).roots = c.roots := rfl
  rw [hgrid, hroots]
  cases c.grid.place? c.roots.length with
  | none => rfl
  | some place =>
    have hstate := congrArg (Compilation.withRoots · [id]) (hmoved place.1 place.2)
    simp only [hatBehind, hnext, ← hstate]
    rfl

/-- Where a hat gets a place, the rest is built behind it. -/
theorem placing_eq_build {id : String} (hnext : c.nextIds 1 = [id])
    {following : Block Nat → Draft} {build : Compilation → Compiled Unit}
    (h : ∀ x y, build (c.hatBehind before (hat.moveTo x y)) =
      c.draftBehind before (following (hat.moveTo x y))) :
    ((c.addBehind before [hat]).addRoot id).andThen (fun c _ => build c) =
      c.draftBehind before (.placing c.grid c.roots.length hat following) := by
  rw [addRoot_hat hid hnext, Draft.placing]
  cases c.grid.place? c.roots.length with
  | none =>
    simp only [Compiled.andThen, draftBehind, Draft.size, Draft.assign, List.map_nil, withRoots_nil]
    rfl
  | some place =>
    rw [← h]
    rfl

-- ---------------------------------------------------------------------------
-- Scripts
-- ---------------------------------------------------------------------------

omit hid in
theorem hatBehind_put {id : String} (hnext : c.nextIds 1 = [id]) (bs : List (Block String))
    (supply : Supply) : (c.hatBehind before hat).put bs supply =
      (c.put (assignBlock (before ++ [id]) hat :: bs) supply).withRoots [id] := by
  rw [hatBehind, addBehind_eq, List.length_singleton, hnext]
  exact congrArg (withRoots · [id]) (c.put_put _ bs _ supply)

omit hid in
theorem size_withHat (d : Draft) : (d.withHat hat).size = 1 + d.size := by
  simp only [Draft.size, Draft.withHat, List.length_cons]
  omega

/-- A hat knows no other numbers, so it is the same when more ids are there. -/
theorem assign_hat (hk : hat.known = []) (id : String) (more : List String) :
    assignBlock (before ++ [id] ++ more) hat = assignBlock (before ++ [id]) hat := by
  refine assignBlock_congr fun k hm => idOf_append_left more ?_
  rw [hk, List.mem_singleton] at hm
  simp [hm, hid]

theorem idOf_hat (id : String) (more : List String) :
    idOf (before ++ [id] ++ more) hat.id = id := by
  rw [hid, idOf_append_left more (by simp), idOf_length]

/-- The ids of a hat and of what is added behind it. -/
theorem nextIds_hat {id : String} (hnext : c.nextIds 1 = [id]) (n : Nat) :
    before ++ c.nextIds (1 + n) = before ++ [id] ++ (c.hatBehind before hat).nextIds n ∧
      c.restIds (1 + n) = (c.hatBehind before hat).restIds n := by
  obtain ⟨htake, hrest⟩ := take_behind (c := c) (hat_numbered hid) n
  rw [List.append_assoc, ← hnext]
  exact ⟨congrArg (before ++ ·) htake, hrest⟩

/-- The scripts that follow a hat are added behind it. -/
theorem draftBehind_withHat {id : String} (hnext : c.nextIds 1 = [id]) (hk : hat.known = [])
    (d : Draft) :
    (c.hatBehind before hat).draftBehind (before ++ [id]) d = c.draftBehind before (d.withHat hat) := by
  obtain ⟨hids, hrest⟩ := nextIds_hat hid hnext d.size
  have hassign (more : List String) : (d.withHat hat).assign (before ++ [id] ++ more) =
      assignBlock (before ++ [id]) hat :: d.assign (before ++ [id] ++ more) := by
    rw [← assign_hat hid hk id more]
    rfl
  have hroots : (d.withHat hat).roots = hat.id :: d.roots := rfl
  simp only [draftBehind, size_withHat, hids, hrest, hassign, hroots, hatBehind_put hnext,
    withRoots_withRoots, List.map_cons, idOf_hat hid]
  rfl

/-- The hat of a chain leads to a block. -/
theorem chain_hatBehind {id : String} (hnext : c.nextIds 1 = [id]) (hn : hat.next = none)
    (next : Option String) : (c.hatBehind before hat).chain (some id) next =
      (c.put [{ assignBlock (before ++ [id]) hat with next }] (c.restIds 1)).withRoots [id] := by
  have hchained : chained (some id) next (assignBlock (before ++ [id]) hat) =
      { assignBlock (before ++ [id]) hat with next } := by
    cases next with
    | none => simp [chained, assignBlock, hn]
    | some next => exact if_pos ⟨congrArg some (assign_hat_id hid id).symm, Option.some_ne_none next⟩
  rw [hatBehind, chain_withRoots, addBehind_eq, List.length_singleton, hnext, chain_put_new,
    List.map_singleton, List.map_singleton, hchained]
  rintro _ ⟨⟩
  exact c.nextIds_not_mem (n := 1) (by simp [hnext])

omit hid in
theorem assignHat_of_error {ids : List String} {chain : Chain} {e : LoweringError}
    (he : chain.error = some e) (hn : hat.next = none) :
    assignHat ids hat chain = assignBlock ids hat := by
  simp [assignHat, assignBlock, he, hn]

omit hid in
theorem assignHat_of_ok {ids : List String} {chain : Chain} (he : chain.error = none) :
    assignHat ids hat chain = { assignBlock ids hat with
      next := (chain.first.map (idOf ids)).filter (· ≠ "") } := by
  simp [assignHat, he]

omit hid in
theorem size_script (chain : Chain) : (Draft.script hat chain).size = 1 + chain.blocks.length := by
  simp only [Draft.size, Draft.script, List.length_nil]
  omega

theorem draftBehind_script {id : String} (hnext : c.nextIds 1 = [id]) (chain : Chain) :
    let ids := before ++ [id] ++ (c.hatBehind before hat).nextIds chain.blocks.length
    c.draftBehind before (.script hat chain) =
      ⟨(c.put (assignHat ids hat chain :: chain.blocks.map (assignBlock ids))
          ((c.hatBehind before hat).restIds chain.blocks.length)).withRoots [id],
        chain.notes, result chain.error ()⟩ := by
  intro ids
  obtain ⟨hids, hrest⟩ := nextIds_hat hid hnext chain.blocks.length
  have hroots : (Draft.script hat chain).roots = [hat.id] := rfl
  simp only [draftBehind, size_script, hids, hrest, hroots, List.map_singleton, idOf_hat hid]
  rfl

/-- A hat that is told where its chain begins when that has been added. -/
theorem chain_hatBehind_addBehind {id : String} (hnext : c.nextIds 1 = [id]) (hn : hat.next = none)
    {bs : List (Block Nat)} (hbs : Numbered (before.length + 1) (bs.map Block.id))
    (next : Option String) :
    ((c.hatBehind before hat).addBehind (before ++ [id]) bs).chain (some id) next =
      (c.put ({ assignBlock (before ++ [id]) hat with next } ::
          bs.map (assignBlock (before ++ [id] ++ (c.hatBehind before hat).nextIds bs.length)))
        ((c.hatBehind before hat).restIds bs.length)).withRoots [id] := by
  have hroot : ∀ root ∈ some id, root ∈ (c.hatBehind before hat).target.ids := by
    have hids : (c.hatBehind before hat).target.ids = c.target.ids ++ c.nextIds 1 :=
      addBehind_ids (hat_numbered hid)
    rintro _ ⟨⟩
    simp [hids, hnext]
  have hlen : (before ++ [id]).length = before.length + 1 := by simp
  rw [chain_addBehind _ next (hlen ▸ hbs) hroot, addBehind_eq, chain_nextIds, chain_restIds,
    chain_hatBehind hid hnext hn]
  exact congrArg (withRoots · [id]) (c.put_put _ _ _ _)

/-- The chain of the main script is added behind its hat, which is then told where it begins. -/
theorem script_eq_build {id : String} (hnext : c.nextIds 1 = [id]) (hk : hat.known = [])
    (hn : hat.next = none) (whole : List Stmt) :
    ((c.hatBehind before hat).buildAll none none whole).andThen (fun c ends =>
        ⟨c.chain (some id) (ends.1.filter (· ≠ "")), [], .ok ()⟩) =
      c.draftBehind before (.script hat (lowerAll (before.length + 1) whole)) := by
  have hbuild := buildAll_eq (c.hatBehind before hat) (before ++ [id]) none none
    (fun last hl => (Option.not_mem_none last hl).elim) whole
  have hnumbered := lowerAll_numbered (before.length + 1) whole
  rw [List.length_append, List.length_singleton] at hbuild
  obtain ⟨chain, hchain⟩ : ∃ chain, chain = lowerAll (before.length + 1) whole := ⟨_, rfl⟩
  rw [← hchain] at hbuild hnumbered ⊢
  have hown := assign_hat hid hk id ((c.hatBehind before hat).nextIds chain.blocks.length)
  rw [hbuild, draftBehind_script hid hnext]
  cases he : chain.error with
  | some e =>
    rw [assignHat_of_error he hn, hown, ← hatBehind_put hnext]
    simp only [chainBehind, Compiled.andThen, he, result]
    rfl
  | none =>
    rw [assignHat_of_ok he, hown, ← chain_hatBehind_addBehind hid hnext hn hnumbered]
    simp only [chainBehind, Compiled.andThen, he, result, List.append_nil, Option.none_or]
    rfl

end

-- ---------------------------------------------------------------------------
-- Programs
-- ---------------------------------------------------------------------------

theorem create_hat (before : List String) (opcode : Option String) : c.create opcode [] [] =
    (c.addBehind before [{ id := before.length, opcode }], (c.supply.draw c.target.ids).1) := by
  rw [create_eq, addBehind_eq, List.length_singleton, nextIds_one, restIds_one]
  simp [assignBlock, idOf_length]

theorem segmentBehind_hat {before : List String} {hat : Block Nat} (hid : hat.id = before.length) :
    c.segmentBehind before { own := some hat } =
      ⟨c.addBehind before [hat], [], .ok (some (c.supply.draw c.target.ids).1)⟩ := by
  have hown : idOf (before ++ c.nextIds 1) hat.id = (c.supply.draw c.target.ids).1 := by
    rw [nextIds_one, hid, idOf_length]
  rw [← hown]
  rfl

/-- The hat of an event becomes a script root, and the other scripts follow. -/
theorem hat_eq_build {before : List String} {hat : Block Nat} (hid : hat.id = before.length)
    (hk : hat.known = []) {whole rest : List Stmt}
    (ih : ∀ c before, buildScripts c whole rest =
      c.draftBehind before (lowerScripts c.grid whole before.length c.roots.length rest)) :
    (c.segmentBehind before { own := some hat }).andThen (fun c own =>
        match own with
        | none => c.buildScripts whole rest
        | some id => (c.addRoot id).andThen fun c _ => c.buildScripts whole rest) =
      c.draftBehind before (.placing c.grid c.roots.length hat fun hat =>
        (lowerScripts c.grid whole (before.length + 1) (c.roots.length + 1) rest).withHat hat) := by
  rw [segmentBehind_hat c hid, Compiled.ok_andThen]
  refine placing_eq_build hid rfl fun x y => ?_
  have hid : (hat.moveTo x y).id = before.length := hid
  have hroots : (c.hatBehind before (hat.moveTo x y)).roots.length = c.roots.length + 1 := by
    simp [hatBehind, withRoots, addBehind, put, nextIds_length]
  rw [ih _ (before ++ c.nextIds 1), ← draftBehind_withHat hid rfl hk, List.length_append,
    nextIds_length, hroots]
  rfl

theorem main_eq_build (before : List String) (whole : List Stmt) : c.buildMain whole =
    c.draftBehind before (.placing c.grid c.roots.length
      { id := before.length, opcode := some "event_whenflagclicked" } fun hat =>
        .script hat (lowerAll (before.length + 1) whole)) := by
  rw [buildMain, create_hat c before]
  exact placing_eq_build rfl rfl fun x y => script_eq_build rfl rfl rfl rfl whole

theorem draftBehind_empty (before : List String) (notes : List Note) (error : Option LoweringError) :
    c.draftBehind before { notes, error } = ⟨c, notes, result error ()⟩ :=
  congrArg (Compiled.mk · notes _) ((withRoots_nil _).trans c.put_nil)

/-- What is built comes to the draft of the scripts, behind any numbers that have ids. -/
theorem buildScripts_eq (c : Compilation) (before : List String) (whole ss : List Stmt) :
    c.buildScripts whole ss =
      c.draftBehind before (lowerScripts c.grid whole before.length c.roots.length ss) := by
  -- A hat that is placed is one more number before the rest, and one more root.
  induction ss generalizing c before with
  | nil => exact (c.draftBehind_empty before [] none).symm
  | cons s rest ih =>
    cases s with
    | event t =>
      rw [buildScripts, c.buildOwn_eq (lowerTrigger_isOwn 0 t) before, lowerTrigger_renumber]
      cases t with
      | start | click | backdrop => exact c.hat_eq_build rfl rfl ih
      | key name =>
        have hstate : c.segmentBehind before (lowerTrigger before.length (.key name)) =
            ⟨c, [.keySkipped name], .ok none⟩ :=
          congrArg (Compiled.mk · [.keySkipped name] (.ok none)) (c.addBehind_nil before)
        simp only [hstate, Compiled.andThen, ih c before]
        rfl
      | unknown kind hk =>
        obtain ⟨e, he⟩ := lowerTrigger_unknown before.length hk
        rw [he, lowerScripts_refused c.grid whole rest _ _ he, draftBehind_empty, segmentBehind]
        exact congrArg (Compiled.mk · [] (.error e)) (c.addBehind_nil before)
    | _ => exact c.main_eq_build before whole

/-- Building a program script by script. -/
theorem program_eq_build (p : Program) : c.program p = c.buildProgram p := by
  have h : c.buildScripts p.body p.body = c.draftBehind [] (lowerProgram c.grid c.roots.length p) :=
    buildScripts_eq c [] p.body p.body
  rw [buildProgram, h, program]
  cases he : (lowerProgram c.grid c.roots.length p).error with
  | some e =>
    simp only [Compiled.andThen, draftBehind, result, he]
    rfl
  | none =>
    simp only [Compiled.andThen, draftBehind, result, he]
    rfl

end Compilation

end Lia

import Mathlib.Data.List.Nodup
import Mathlib.Data.Set.Function
import Lia.Proofs.Lowering.Scripts

/-!
# Blocks up to their ids

Whatever ids are drawn, a program becomes the same blocks: the ids of one compilation renamed
to those of another give its blocks, links and script roots (`compile_rename`). What the ids
are is never looked at, but for the empty one, which links nothing.
-/

namespace Lia

open Lowering

-- ---------------------------------------------------------------------------
-- Renaming
-- ---------------------------------------------------------------------------

section
variable (f : String → String)

/-- Only what a mouth holds is an id. -/
def Input.rename (i : Input String) : Input String :=
  ⟨i.name, match i.content with
    | .shadow type value => .shadow type value
    | .mouth first => .mouth (first.map f)⟩

/-- The block with its own id and its links renamed, and all else literally the same. -/
def Block.rename (b : Block String) : Block String :=
  { b with
    id := f b.id
    inputs := b.inputs.map (Input.rename f)
    parent := b.parent.map f
    next := b.next.map f }

theorem Input.mouth?_rename (i : Input String) : (i.rename f).mouth? = i.mouth?.map f := by
  obtain ⟨name, content⟩ := i
  cases content <;> rfl

theorem Block.links_rename (b : Block String) : (b.rename f).links = b.links.map f := by
  have hm : Input.mouth? ∘ Input.rename f = fun i => i.mouth?.map f :=
    funext (Input.mouth?_rename f)
  have hn : (b.next.map f).toList = b.next.toList.map f := by cases b.next <;> rfl
  simp only [links, rename, List.filterMap_map, hm, hn, List.map_append, List.map_filterMap]

theorem Target.linked_rename {t t' : Target} (h : t'.blocks = t.blocks.map (Block.rename f)) :
    t'.linked = t.linked.map f := by
  simp only [linked, h, List.flatMap_map, List.map_flatMap, Block.links_rename]

/-- A block starts a script under one name as under the other, if no link gets the name by
accident. -/
theorem Target.isTopLevel_rename {t t' : Target} (h : t'.blocks = t.blocks.map (Block.rename f))
    {id : String} (hf : ∀ link ∈ t.linked, f link = f id → link = id) :
    t'.isTopLevel (f id) = t.isTopLevel id := by
  have hmem : f id ∈ t.linked.map f ↔ id ∈ t.linked := by
    refine ⟨fun hm => ?_, List.mem_map_of_mem⟩
    obtain ⟨link, hl, he⟩ := List.mem_map.1 hm
    exact hf link hl he ▸ hl
  simp only [isTopLevel, linked_rename f h, List.contains_eq_mem, hmem]

end

namespace Lowering

-- ---------------------------------------------------------------------------
-- From one list of ids to another
-- ---------------------------------------------------------------------------

/-- Sends an id to the one that stands in its place among others. -/
def idMap (ids ids' : List String) (id : String) : String := idOf ids' (ids.idxOf id)

/-- Ids for as many blocks, none of them empty. -/
structure Matching (ids ids' : List String) : Prop where
  length : ids.length = ids'.length
  nodup : ids.Nodup
  nodup' : ids'.Nodup
  nonempty : "" ∉ ids
  nonempty' : "" ∉ ids'

theorem idOf_of_le {ids : List String} {n : Nat} (h : ids.length ≤ n) : idOf ids n = "" := by
  simp [idOf, h]

theorem idOf_eq_empty_iff {ids : List String} (h : "" ∉ ids) {n : Nat} :
    idOf ids n = "" ↔ ids.length ≤ n := by
  refine ⟨fun he => ?_, idOf_of_le⟩
  by_contra hlt
  exact h (he ▸ getElem?_idOf (Nat.not_le.1 hlt))

/-- The link of a main hat. -/
def hatLink (ids : List String) (c : Chain) : Option String :=
  match c.error with
  | some _ => none
  | none => (c.first.map (idOf ids)).filter (· ≠ "")

theorem assignHat_eq_link (ids : List String) (hat : Block Nat) (c : Chain) :
    assignHat ids hat c = { assignBlock ids hat with next := hatLink ids c } := rfl

namespace Matching

variable {ids ids' : List String} (h : Matching ids ids')
include h

theorem idOf_eq_empty_iff {n : Nat} : idOf ids' n = "" ↔ idOf ids n = "" := by
  rw [Lowering.idOf_eq_empty_iff h.nonempty, Lowering.idOf_eq_empty_iff h.nonempty', h.length]

/-- A number that has no id in one list has none in the other either. -/
theorem idMap_idOf (n : Nat) : idMap ids ids' (idOf ids n) = idOf ids' n := by
  rcases Nat.lt_or_ge n ids.length with hn | hn
  · have hi : ids.idxOf (idOf ids n) = n := by
      rw [idOf, List.getElem?_eq_getElem hn, Option.getD_some, h.nodup.idxOf_getElem]
    rw [idMap, hi]
  · rw [idMap, idOf_of_le hn, List.idxOf_eq_length h.nonempty, h.length, idOf_of_le (Nat.le_refl _),
      idOf_of_le (h.length ▸ hn)]

theorem map_idMap (link : Option Nat) :
    link.map (idOf ids') = (link.map (idOf ids)).map (idMap ids ids') := by
  cases link with
  | none => rfl
  | some n => simp [h.idMap_idOf]

/-- Different numbers that have ids have different ids. -/
theorem idMap_injOn {n m : Nat} (he : idMap ids ids' (idOf ids n) = idMap ids ids' (idOf ids m)) :
    idOf ids n = idOf ids m := by
  rw [h.idMap_idOf, h.idMap_idOf] at he
  rcases Nat.lt_or_ge n ids'.length with hn | hn
  · have hm : m < ids'.length := by
      by_contra hm
      rw [idOf_of_le (Nat.not_lt.1 hm), Lowering.idOf_eq_empty_iff h.nonempty'] at he
      omega
    rw [idOf, idOf, List.getElem?_eq_getElem hn, List.getElem?_eq_getElem hm] at he
    rw [h.nodup'.getElem_inj_iff.1 he]
  · rw [idOf_of_le hn] at he
    rw [h.idOf_eq_empty_iff.1 he.symm, h.idOf_eq_empty_iff.1 (idOf_of_le hn)]

-- ---------------------------------------------------------------------------
-- Blocks of a draft
-- ---------------------------------------------------------------------------

theorem assignInput_rename (i : Input Nat) :
    assignInput ids' i = (assignInput ids i).rename (idMap ids ids') := by
  obtain ⟨name, content⟩ := i
  cases content with
  | shadow => rfl
  | mouth first => simp only [assignInput, Input.rename, h.map_idMap]

theorem assignBlock_rename (b : Block Nat) :
    assignBlock ids' b = (assignBlock ids b).rename (idMap ids ids') := by
  have hi : b.inputs.map (assignInput ids') =
      (b.inputs.map (assignInput ids)).map (Input.rename (idMap ids ids')) := by
    rw [List.map_map]
    exact List.map_congr_left fun i _ => h.assignInput_rename i
  have hp : (if idOf ids' b.id = "" then none else b.parent.map (idOf ids')) =
      (if idOf ids b.id = "" then none else b.parent.map (idOf ids)).map (idMap ids ids') := by
    simp only [h.idOf_eq_empty_iff]
    split
    · rfl
    · exact h.map_idMap _
  simp only [assignBlock, Block.rename, hi, hp, h.idMap_idOf, h.map_idMap b.next]

theorem hatLink_rename (c : Chain) : hatLink ids' c = (hatLink ids c).map (idMap ids ids') := by
  unfold hatLink
  cases c.error with
  | some => rfl
  | none =>
    cases c.first with
    | none => rfl
    | some n =>
      by_cases he : idOf ids n = ""
      · simp [Option.filter, he, h.idOf_eq_empty_iff.2 he]
      · simp [Option.filter, he, h.idOf_eq_empty_iff, h.idMap_idOf]

theorem assignHat_rename (hat : Block Nat) (c : Chain) :
    assignHat ids' hat c = (assignHat ids hat c).rename (idMap ids ids') := by
  rw [assignHat_eq_link, assignHat_eq_link, h.assignBlock_rename, h.hatLink_rename]
  rfl

theorem assign_rename (d : Draft) :
    d.assign ids' = (d.assign ids).map (Block.rename (idMap ids ids')) := by
  have hblocks (bs : List (Block Nat)) : bs.map (assignBlock ids') =
      (bs.map (assignBlock ids)).map (Block.rename (idMap ids ids')) := by
    rw [List.map_map]
    exact List.map_congr_left fun b _ => h.assignBlock_rename b
  unfold Draft.assign
  cases d.main with
  | none => simp only [hblocks, List.map_append, List.map_nil]
  | some main =>
    simp only [hblocks, h.assignHat_rename, List.map_append, List.map_cons]

end Matching

theorem assign_mouths {ids : List String} {inputs : List (Input Nat)} {id : String}
    (h : id ∈ (inputs.map (assignInput ids)).filterMap Input.mouth?) : ∃ n, id = idOf ids n := by
  obtain ⟨i, hi, hm⟩ := List.mem_filterMap.1 h
  obtain ⟨⟨name, content⟩, -, rfl⟩ := List.mem_map.1 hi
  cases content with
  | shadow => cases hm
  | mouth first =>
    obtain ⟨n, -, rfl⟩ := Option.map_eq_some_iff.1 hm
    exact ⟨n, rfl⟩

theorem assignBlock_links {ids : List String} {b : Block Nat} {id : String}
    (h : id ∈ (assignBlock ids b).links) : ∃ n, id = idOf ids n := by
  obtain h | h := List.mem_append.1 h
  · obtain ⟨n, -, rfl⟩ := Option.map_eq_some_iff.1 (Option.mem_toList.1 h)
    exact ⟨n, rfl⟩
  · exact assign_mouths h

theorem assignHat_links {ids : List String} {hat : Block Nat} {c : Chain} {id : String}
    (h : id ∈ (assignHat ids hat c).links) : ∃ n, id = idOf ids n := by
  obtain h | h := List.mem_append.1 h
  · have h : hatLink ids c = some id := Option.mem_toList.1 h
    unfold hatLink at h
    split at h
    · cases h
    · obtain ⟨n, -, rfl⟩ := Option.map_eq_some_iff.1 (Option.filter_eq_some_iff.1 h).1
      exact ⟨n, rfl⟩
  · exact assign_mouths h

/-- A link is the id of some number. -/
theorem Draft.assign_links {d : Draft} {ids : List String} {id : String}
    (h : id ∈ (d.assign ids).flatMap Block.links) : ∃ n, id = idOf ids n := by
  obtain ⟨b, hb, hid⟩ := List.mem_flatMap.1 h
  have hblocks {bs : List (Block Nat)} (hb : b ∈ bs.map (assignBlock ids)) :
      ∃ n, id = idOf ids n := by
    obtain ⟨b, -, rfl⟩ := List.mem_map.1 hb
    exact assignBlock_links hid
  unfold Draft.assign at hb
  cases hm : d.main with
  | none =>
    simp only [hm, List.append_nil] at hb
    exact hblocks hb
  | some main =>
    simp only [hm, List.mem_append, List.mem_cons] at hb
    obtain hb | rfl | hb := hb
    · exact hblocks hb
    · exact assignHat_links hid
    · exact hblocks hb

end Lowering

-- ---------------------------------------------------------------------------
-- Compiling
-- ---------------------------------------------------------------------------

theorem programIds_nonempty {p : Program} {grid : Grid} {source : IdSource}
    (hid : ∀ n, source.id n ≠ "") : "" ∉ programIds p grid source := by
  intro h
  obtain ⟨m, hm⟩ := Supply.take_source _ _ _ h
  exact hid m hm.symm

theorem programIds_matching (p : Program) (grid : Grid) {source source' : IdSource}
    (hid : ∀ n, source.id n ≠ "") (hid' : ∀ n, source'.id n ≠ "") :
    Matching (programIds p grid source) (programIds p grid source') where
  length := by simp [programIds]
  nodup := Supply.take_nodup _ _ _
  nodup' := Supply.take_nodup _ _ _
  nonempty := programIds_nonempty hid
  nonempty' := programIds_nonempty hid'

/-- The ids of a compilation, and the links between its blocks, are ids of numbers. -/
theorem compile_ids {p : Program} {grid : Grid} {stageName : String} {source : IdSource} {id : String}
    (h : id ∈ (compile p grid stageName source).state.target.ids ∨
      id ∈ (compile p grid stageName source).state.target.linked) :
    ∃ n, id = idOf (programIds p grid source) n := by
  rw [Target.ids, Target.linked, compile_blocks] at h
  obtain h | h := h
  · rw [Draft.assign_map_id] at h
    obtain ⟨n, -, rfl⟩ := List.mem_map.1 h
    exact ⟨n, rfl⟩
  · exact Draft.assign_links h

/-- Two compilations of a program, refused or not: the n-th block of one is the n-th block of
the other with its ids renamed, and starts a script if that one does. -/
theorem compile_rename (p : Program) (grid : Grid) (stageName : String) {source source' : IdSource}
    (hid : ∀ n, source.id n ≠ "") (hid' : ∀ n, source'.id n ≠ "") :
    let c := compile p grid stageName source
    let c' := compile p grid stageName source'
    c'.result = c.result ∧ ∃ f : String → String,
      Set.InjOn f {id | id ∈ c.state.target.ids} ∧
      c'.state.target.blocks = c.state.target.blocks.map (Block.rename f) ∧
      c'.state.roots = c.state.roots.map f ∧
      ∀ id ∈ c.state.target.ids,
        c'.state.target.isTopLevel (f id) = c.state.target.isTopLevel id := by
  intro c c'
  have h := programIds_matching p grid hid hid'
  have hblocks : c'.state.target.blocks = c.state.target.blocks.map
      (Block.rename (idMap (programIds p grid source) (programIds p grid source'))) := by
    rw [compile_blocks, compile_blocks, h.assign_rename]
  refine ⟨?_, _, ?_, hblocks, ?_, ?_⟩
  · rw [compile_result, compile_result]
  · intro a ha b hb he
    obtain ⟨n, rfl⟩ := compile_ids (.inl ha)
    obtain ⟨m, rfl⟩ := compile_ids (.inl hb)
    exact h.idMap_injOn he
  · rw [compile_roots, compile_roots, List.map_map]
    exact List.map_congr_left fun n _ => (h.idMap_idOf n).symm
  · intro id hid
    obtain ⟨n, rfl⟩ := compile_ids (.inl hid)
    refine Target.isTopLevel_rename _ hblocks fun link hl he => ?_
    obtain ⟨m, rfl⟩ := compile_ids (.inr hl)
    exact h.idMap_injOn he

/-- The second source repeats itself, and gives words of the program as ids. -/
theorem patrol_rename :
    (∀ n, (IdSource.ofList []).id n ≠ "") ∧
      (∀ n, (IdSource.ofList ["left", "left", "move"]).id n ≠ "") ∧
      let c := compile patrol {} "Stage" (.ofList [])
      let c' := compile patrol {} "Stage" (.ofList ["left", "left", "move"])
      c.result = .ok () ∧ c'.result = c.result ∧ ∃ f : String → String,
        Set.InjOn f {id | id ∈ c.state.target.ids} ∧
        c'.state.target.blocks = c.state.target.blocks.map (Block.rename f) ∧
        c'.state.roots = c.state.roots.map f ∧
        ∀ id ∈ c.state.target.ids,
          c'.state.target.isTopLevel (f id) = c.state.target.isTopLevel id := by
  have hid : ∀ n, (IdSource.ofList []).id n ≠ "" := IdSource.ofList_ne_empty (by simp)
  have hid' : ∀ n, (IdSource.ofList ["left", "left", "move"]).id n ≠ "" :=
    IdSource.ofList_ne_empty (by simp)
  have hok : (compile patrol {} "Stage" (.ofList [])).result = .ok () :=
    (compile_result_ok_iff _ _ _ _).2 (lowerScripts_error (by decide) rfl patrol.body 0 0 rfl)
  exact ⟨hid, hid', hok, compile_rename patrol {} "Stage" hid hid'⟩

end Lia

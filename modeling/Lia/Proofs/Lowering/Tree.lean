import Lia.Block

/-!
# Trees of blocks

A `Tree` is a block with what stands in its mouth, and `Tree.layoutAll` the blocks that
a list of trees is stored as: linked to one another, inner blocks before the block
around them. Main statements: every block but the first is linked once
(`Tree.links_perm`), and a parent is the other end of a mouth (`Tree.under_iff`).
-/

namespace Lia

/-- A typed value of a block. None is named as the mouth is. -/
structure Shadow where
  name : String
  type : Nat
  value : Value
  named : name ≠ "SUBSTACK"

/-- What a block has apart from its links. No two values have the same name. -/
structure Face where
  opcode : String
  values : List Shadow := []
  fields : List Field := []
  place : Option (Int × Int) := none
  values_nodup : (values.map Shadow.name).Nodup := by simp
  fields_nodup : (fields.map Field.name).Nodup := by simp

/-- A block with an id, and the trees in its mouth if it has one. -/
inductive Tree (ι : Type)
  | leaf (id : ι) (face : Face)
  | container (id : ι) (face : Face) (inside : List (Tree ι))

def Shadow.input (s : Shadow) : Input ι := ⟨s.name, .shadow s.type s.value⟩

def Face.block (f : Face) (id : ι) (mouth : List (Input ι)) (parent next : Option ι) : Block ι where
  id := id
  opcode := some f.opcode
  inputs := f.values.map Shadow.input ++ mouth
  fields := f.fields
  parent := parent
  next := next
  x := f.place.map (·.1)
  y := f.place.map (·.2)

/-- The first block in the mouth. -/
def Block.substack? (b : Block ι) : Option ι := (b.input? "SUBSTACK").bind Input.mouth?

namespace Tree

open scoped List

variable {ι κ : Type}

def id : Tree ι → ι
  | .leaf id _ => id
  | .container id _ _ => id

def first? (ts : List (Tree ι)) : Option ι := ts.head?.map id

mutual
/-- The blocks of a tree that leads to the next one. -/
def layout (parent next : Option ι) : Tree ι → List (Block ι)
  | .leaf id face => [face.block id [] parent next]
  | .container id face inside =>
    layoutAll (some id) inside ++ [face.block id [.substack "SUBSTACK" (first? inside)] parent next]
termination_by structural t => t
/-- The blocks of trees in a chain; only the first one has a parent. -/
def layoutAll (parent : Option ι) : List (Tree ι) → List (Block ι)
  | [] => []
  | t :: ts => t.layout parent (first? ts) ++ layoutAll none ts
termination_by structural ts => ts
end

@[simp] theorem first?_nil : first? ([] : List (Tree ι)) = none := rfl

@[simp] theorem first?_cons (t : Tree ι) (ts : List (Tree ι)) : first? (t :: ts) = some t.id := rfl

-- ---------------------------------------------------------------------------
-- Links
-- ---------------------------------------------------------------------------

@[simp] theorem block_id (f : Face) (id : ι) (mouth : List (Input ι)) (parent next : Option ι) :
    (f.block id mouth parent next).id = id := rfl

@[simp] theorem block_parent (f : Face) (id : ι) (mouth : List (Input ι)) (parent next : Option ι) :
    (f.block id mouth parent next).parent = parent := rfl

@[simp] theorem block_next (f : Face) (id : ι) (mouth : List (Input ι)) (parent next : Option ι) :
    (f.block id mouth parent next).next = next := rfl

@[simp] theorem mouth?_input (v : Shadow) : (v.input : Input ι).mouth? = none := rfl

theorem block_links (f : Face) (id : ι) (mouth : List (Input ι)) (parent next : Option ι) :
    (f.block id mouth parent next).links = next.toList ++ mouth.filterMap Input.mouth? := by
  simp [Face.block, Block.links]

@[simp] theorem leaf_links (f : Face) (id : ι) (parent next : Option ι) :
    (f.block id [] parent next).links = next.toList := by
  simp [block_links]

@[simp] theorem container_links (f : Face) (id : ι) (first parent next : Option ι) :
    (f.block id [.substack "SUBSTACK" first] parent next).links = next.toList ++ first.toList := by
  rw [block_links]
  cases first <;> rfl

mutual
theorem layout_links_perm (parent next : Option ι) :
    (t : Tree ι) → (t.id :: (t.layout parent next).flatMap Block.links).Perm
      (next.toList ++ (t.layout parent next).map Block.id)
  | .leaf id face => by
    simp only [layout, Tree.id, List.flatMap_singleton, leaf_links, List.map_singleton, block_id]
    exact (List.perm_append_singleton id next.toList).symm
  | .container id face inside => by
    have ih := links_perm (some id) inside
    simp only [layout, Tree.id, List.flatMap_append, List.map_append, List.flatMap_singleton,
      container_links, List.map_singleton, block_id]
    generalize (layoutAll (some id) inside).flatMap Block.links = links at ih
    generalize (layoutAll (some id) inside).map Block.id = ids at ih
    calc id :: (links ++ (next.toList ++ (first? inside).toList))
      _ ~ (id :: (next.toList ++ ((first? inside).toList ++ links))) := by
        rw [← List.append_assoc next.toList]
        exact .cons _ List.perm_append_comm
      _ ~ (id :: (next.toList ++ ids)) := .cons _ (ih.append_left _)
      _ ~ (next.toList ++ (ids ++ [id])) := by
        rw [← List.append_assoc]
        exact (List.perm_append_singleton _ _).symm
/-- Every block is linked once, by its chain or by a mouth, but for the first one. -/
theorem links_perm (parent : Option ι) :
    (ts : List (Tree ι)) → ((first? ts).toList ++ (layoutAll parent ts).flatMap Block.links).Perm
      ((layoutAll parent ts).map Block.id)
  | [] => .nil
  | t :: ts => by
    have iht := layout_links_perm parent (first? ts) t
    have ihs := links_perm none ts
    simp only [layoutAll, List.flatMap_append, List.map_append, first?_cons, Option.toList_some]
    generalize (t.layout parent (first? ts)).flatMap Block.links = links at iht
    generalize (t.layout parent (first? ts)).map Block.id = ids at iht
    calc t.id :: links ++ (layoutAll none ts).flatMap Block.links
      _ ~ ((first? ts).toList ++ ids ++ (layoutAll none ts).flatMap Block.links) :=
        iht.append_right _
      _ ~ (ids ++ (first? ts).toList ++ (layoutAll none ts).flatMap Block.links) :=
        List.perm_append_comm.append_right _
      _ ~ (ids ++ (layoutAll none ts).map Block.id) := by
        rw [List.append_assoc]
        exact ihs.append_left _
end

-- ---------------------------------------------------------------------------
-- Mouths and parents
-- ---------------------------------------------------------------------------

/-- A block of the first id stands in the mouth of one of the second. -/
def Inside (bs : List (Block ι)) (b c : ι) : Prop := ∃ x ∈ bs, x.id = c ∧ x.substack? = some b

/-- A block of the first id has the second as its parent. -/
def Under (bs : List (Block ι)) (b c : ι) : Prop := ∃ x ∈ bs, x.id = b ∧ x.parent = some c

theorem inside_append {as bs : List (Block ι)} {b c : ι} :
    Inside (as ++ bs) b c ↔ Inside as b c ∨ Inside bs b c := by
  simp [Inside, or_and_right, exists_or]

theorem under_append {as bs : List (Block ι)} {b c : ι} :
    Under (as ++ bs) b c ↔ Under as b c ∨ Under bs b c := by
  simp [Under, or_and_right, exists_or]

theorem find?_values (vs : List Shadow) (mouth : List (Input ι)) :
    (vs.map Shadow.input ++ mouth).find? (fun i => i.name = "SUBSTACK") =
      mouth.find? (fun i => i.name = "SUBSTACK") := by
  rw [List.find?_append, List.find?_eq_none.2, Option.none_or]
  intro i hi
  obtain ⟨v, -, rfl⟩ := List.mem_map.1 hi
  exact decide_eq_false v.named ▸ Bool.false_ne_true

@[simp] theorem leaf_substack? (f : Face) (id : ι) (parent next : Option ι) :
    (f.block id [] parent next).substack? = none := by
  rw [Block.substack?, Block.input?, Face.block, find?_values]
  rfl

@[simp] theorem container_substack? (f : Face) (id : ι) (first parent next : Option ι) :
    (f.block id [.substack "SUBSTACK" first] parent next).substack? = first := by
  rw [Block.substack?, Block.input?, Face.block, find?_values]
  rfl

mutual
theorem layout_under_iff (parent next : Option ι) {b c : ι} :
    (t : Tree ι) → (Under (t.layout parent next) b c ↔
      (t.id = b ∧ parent = some c) ∨ Inside (t.layout parent next) b c)
  | .leaf id face => by simp [layout, Under, Inside, Tree.id]
  | .container id face inside => by
    have hown : Under [face.block id [.substack "SUBSTACK" (first? inside)] parent next] b c ↔
        id = b ∧ parent = some c := by
      simp [Under]
    have hmouth : Inside [face.block id [.substack "SUBSTACK" (first? inside)] parent next] b c ↔
        first? inside = some b ∧ some id = some c := by
      simp [Inside, and_comm]
    rw [layout, under_append, inside_append, under_iff, hown, hmouth]
    constructor
    · rintro ((h | h) | h)
      · exact .inr (.inr h)
      · exact .inr (.inl h)
      · exact .inl h
    · rintro (h | h | h)
      · exact .inr h
      · exact .inl (.inr h)
      · exact .inl (.inl h)
/-- Only the first block of a mouth has a parent, the block of the mouth. -/
theorem under_iff (parent : Option ι) {b c : ι} :
    (ts : List (Tree ι)) → (Under (layoutAll parent ts) b c ↔
      (first? ts = some b ∧ parent = some c) ∨ Inside (layoutAll parent ts) b c)
  | [] => by simp [layoutAll, Under, Inside]
  | t :: ts => by
    rw [layoutAll, under_append, inside_append, layout_under_iff, under_iff]
    simp [or_assoc]
end

-- ---------------------------------------------------------------------------
-- Giving a chain a parent
-- ---------------------------------------------------------------------------

theorem id_mem_layout (parent next : Option ι) (t : Tree ι) :
    t.id ∈ (t.layout parent next).map Block.id := by
  cases t <;> simp [layout, Tree.id]

variable [DecidableEq ι]

/-- The parent that a block of an id gets. -/
def hang (id : Option ι) (parent : ι) (b : Block ι) : Block ι :=
  if some b.id = id then { b with parent := some parent } else b

theorem map_hang_of_not_mem {bs : List (Block ι)} {id parent : ι} (h : id ∉ bs.map Block.id) :
    bs.map (hang (some id) parent) = bs := by
  conv => rhs; rw [← List.map_id bs]
  refine List.map_congr_left fun b hb => if_neg fun he => h ?_
  obtain rfl := Option.some.inj he
  exact List.mem_map_of_mem hb

theorem layout_map_hang {parent : ι} {next : Option ι} (t : Tree ι)
    (h : ((t.layout none next).map Block.id).Nodup) :
    (t.layout none next).map (hang (some t.id) parent) = t.layout (some parent) next := by
  cases t with
  | leaf id face => simp [layout, hang, Tree.id, Face.block]
  | container id face inside =>
    simp only [layout, List.map_append, List.map_singleton, block_id] at h ⊢
    have hid : id ∉ (layoutAll (some id) inside).map Block.id := by
      intro hm
      exact (List.nodup_append.1 h).2.2 id hm id (by simp) rfl
    rw [Tree.id, map_hang_of_not_mem hid]
    simp [hang, Face.block]

/-- A chain whose first block has been given a parent is a chain below that parent. -/
theorem layoutAll_map_hang {parent : ι} (ts : List (Tree ι))
    (h : ((layoutAll none ts).map Block.id).Nodup) :
    (layoutAll none ts).map (hang (first? ts) parent) = layoutAll (some parent) ts := by
  cases ts with
  | nil => rfl
  | cons t ts =>
    simp only [layoutAll, List.map_append] at h ⊢
    obtain ⟨ht, -, hd⟩ := List.nodup_append.1 h
    have hid : t.id ∉ (layoutAll none ts).map Block.id := by
      intro hm
      exact hd _ (id_mem_layout none (first? ts) t) _ hm rfl
    rw [first?_cons, layout_map_hang t ht, map_hang_of_not_mem hid]

end Tree

end Lia

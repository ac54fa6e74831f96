import Mathlib.Data.List.Forall2
import Mathlib.Data.Nat.Nth
import Lia.Proofs.Lowering.Ids
import Lia.Proofs.Lowering.Prune
import Lia.Proofs.Lowering.Reading
import Lia.Proofs.Lowering.Refusal

/-!
# The order of creation

The blocks of a statement stand together, those of its body before its own. So a block is
chained to a later one and has an earlier one in its mouth, and every statement that is come to
and has a block has one of them. Main statement: the blocks of a program are the hats of its
leading events, then the green flag and the blocks of its statements in order (`compile_created`).
-/

namespace Lia

open Lia.Tree Lowering

-- ---------------------------------------------------------------------------
-- Ids that are accepted
-- ---------------------------------------------------------------------------

namespace IdSource

/-- The id in this place has not come up before. -/
def IsNew (source : IdSource) (k : Nat) : Prop := ∀ j < k, source.id j ≠ source.id k

/-- The ids of the source in order, without those that repeat earlier ones. -/
noncomputable def accepted (source : IdSource) (n : Nat) : String :=
  source.id (Nat.nth source.IsNew n)

end IdSource

namespace Supply

open Classical in
/-- In use is what has been read of the source, each id once. -/
structure Spent (s : Supply) (used : List String) : Prop where
  mem_iff : ∀ id, id ∈ used ↔ ∃ j < s.position, s.source.id j = id
  length : used.length = Nat.count s.source.IsNew s.position

variable {s : Supply} {used : List String} {m : Nat}

theorem Spent.isNew (h : s.Spent used) (hm : s.FirstUnused used m) : s.source.IsNew m := by
  intro j hj he
  rcases Nat.lt_or_ge j s.position with hlt | hge
  · exact hm.unused ((h.mem_iff _).2 ⟨j, hlt, he⟩)
  · exact hm.unused (he ▸ hm.first j hge hj)

/-- What is passed over on the way to an unused id has come up before. -/
theorem Spent.not_isNew (h : s.Spent used) (hm : s.FirstUnused used m) {k : Nat}
    (hk : s.position ≤ k) (hkm : k < m) : ¬ s.source.IsNew k := by
  intro hnew
  obtain ⟨j, hj, he⟩ := (h.mem_iff _).1 (hm.first k hk hkm)
  exact hnew j (by omega) he

open Classical in
theorem Spent.count (h : s.Spent used) (hm : s.FirstUnused used m) :
    Nat.count s.source.IsNew m = used.length := by
  obtain ⟨d, rfl⟩ := Nat.exists_eq_add_of_le hm.remains
  have hd : Nat.count (fun k => s.source.IsNew (s.position + k)) d = 0 :=
    Nat.count_iff_forall_not.2 fun k hk => h.not_isNew hm (by omega) (by omega)
  rw [Nat.count_add, hd, h.length, Nat.add_zero]

theorem Spent.accepted (h : s.Spent used) (hm : s.FirstUnused used m) :
    s.source.accepted used.length = s.source.id m := by
  classical
  rw [IdSource.accepted, ← h.count hm, Nat.nth_count (h.isNew hm)]

theorem Spent.draw (h : s.Spent used) (hm : s.FirstUnused used m) :
    ({ s with position := m + 1 } : Supply).Spent (used ++ [s.source.id m]) where
  mem_iff id := by
    rw [List.mem_append, List.mem_singleton, h.mem_iff]
    constructor
    · rintro (⟨j, hj, rfl⟩ | rfl)
      · exact ⟨j, Nat.lt_succ_of_lt (Nat.lt_of_lt_of_le hj hm.remains), rfl⟩
      · exact ⟨m, Nat.lt_succ_self m, rfl⟩
    · rintro ⟨j, hj, rfl⟩
      rcases Nat.lt_or_ge j s.position with hlt | hge
      · exact .inl ⟨j, hlt, rfl⟩
      · obtain hlt | rfl := Nat.lt_succ_iff_lt_or_eq.1 hj
        · exact .inl ((h.mem_iff _).1 (hm.first j hge hlt))
        · exact .inr rfl
  length := by
    classical
    rw [Nat.count_succ, if_pos (h.isNew hm), h.count hm, List.length_append, List.length_singleton]

/-- Ids that are drawn in a row are the next accepted ones. -/
theorem Spent.take (h : s.Spent used) (n : Nat) :
    (s.take used n).1 = (List.range' used.length n).map s.source.accepted := by
  induction n generalizing s used with
  | zero => rfl
  | succ n ih =>
    have hm := s.drawIndex_firstUnused used
    have hrest := ih (h.draw hm)
    rw [List.length_append, List.length_singleton] at hrest
    rw [List.range'_succ, List.map_cons, h.accepted hm, ← hrest]
    rfl

theorem spent_start (source : IdSource) : ({ source } : Supply).Spent [] where
  mem_iff id := by simp
  length := by simp

end Supply

-- ---------------------------------------------------------------------------
-- What a block is created for
-- ---------------------------------------------------------------------------

/-- The statements inside that are lowered. An alternate is not. -/
def Stmt.loweredBody : Stmt → List Stmt
  | .repeatTimes _ body | .forever body | .branch _ body _ => body
  | _ => []

def Input.field (i : Input String) : String × Value := (i.name, i.toValue)

/-- The block is that of a node, apart from what its links lead to. -/
def Block.Shows (b : Block String) : Node → Prop
  | .plain opcode inputs fields =>
    b.opcode = some opcode ∧ b.inputs.map Input.field = inputs ∧ b.fields.map Field.field = fields
  | .container opcode inputs fields _ =>
    b.opcode = some opcode ∧
      b.inputs.map Input.field = inputs ++ [("SUBSTACK", .list [2, linkValue b.substack?])] ∧
      b.fields.map Field.field = fields

mutual
/-- The segment of a statement, with the id of the block that it ends in: the segments of its
body, then its own block, with the first own block of the body in its mouth. A statement without
a block has an empty segment. -/
inductive Created : Stmt → Option String → List (Block String) → Prop
  | skipped (h : s.isIgnored = true) : Created s none []
  | own (hs : CreatedAll s.loweredBody b.substack? bs) (hi : s.image? = some image) (hb : b.Shows image) :
      Created s (some b.id) (bs ++ [b])
/-- The segments of statements one after another, with the id of the first own block. -/
inductive CreatedAll : List Stmt → Option String → List (Block String) → Prop
  | nil : CreatedAll [] none []
  | cons (h : Created s own as) (hs : CreatedAll ss first bs) :
      CreatedAll (s :: ss) (own.or first) (as ++ bs)
end

-- ---------------------------------------------------------------------------
-- Own blocks
-- ---------------------------------------------------------------------------

namespace Tree

def inside : Tree ι → List (Tree ι)
  | .leaf .. => []
  | .container _ _ inside => inside

/-- The block of a tree itself, behind those inside. -/
def own (parent next : Option ι) : Tree ι → Block ι
  | .leaf id face => face.block id [] parent next
  | .container id face inside =>
    face.block id [.substack "SUBSTACK" (first? inside)] parent next

variable (parent next : Option ι) (t : Tree ι)

@[simp] theorem own_id : (t.own parent next).id = t.id := by cases t <;> rfl

@[simp] theorem own_next : (t.own parent next).next = next := by cases t <;> rfl

@[simp] theorem own_substack? : (t.own parent next).substack? = first? t.inside := by
  cases t <;> simp [own, inside]

theorem layout_eq :
    t.layout parent next = layoutAll (some t.id) t.inside ++ [t.own parent next] := by
  cases t <;> rfl

theorem nodes_eq_map (ts : List (Tree ι)) : nodes ts = ts.map Tree.node := by
  induction ts with
  | nil => rfl
  | cons t ts ih => rw [nodes, ih, List.map_cons]

end Tree

theorem Tree.own_shows (parent next : Option String) (t : Tree String) :
    (t.own parent next).Shows t.node := by
  cases t with
  | leaf id f =>
    refine ⟨rfl, ?_, rfl⟩
    simp [own, Face.block, Shadow.input, Shadow.field, Input.field, Input.toValue]
  | container id f inside =>
    refine ⟨rfl, ?_, rfl⟩
    rw [own_substack?]
    simp [own, Tree.inside, Face.block, Shadow.input, Shadow.field, Input.field, Input.toValue,
      Input.substack, linkValue]

-- ---------------------------------------------------------------------------
-- The nodes of statements
-- ---------------------------------------------------------------------------

def Node.inside : Node → List Node
  | .plain .. => []
  | .container _ _ _ inside => inside

theorem Tree.node_inside (t : Tree ι) : t.node.inside = nodes t.inside := by cases t <;> rfl

theorem callImage?_inside {name : Value} {args : List Value} {duration : Value} {n : Node}
    (h : callImage? args duration name = some n) : n.inside = [] := by
  unfold callImage? turnImage? sayImage at h
  split at h
  case h_2 => split at h <;> cases h <;> rfl
  case h_3 => split at h <;> cases h <;> rfl
  all_goals cases h; rfl

namespace Stmt

variable {s : Stmt} {ss : List Stmt} {n : Node}

/-- What stands in the node of a statement is what its body shows. -/
theorem image?_inside (h : s.image? = some n) : n.inside = images s.loweredBody := by
  cases s with
  | event t => cases t <;> cases h <;> rfl
  | call name args duration => exact callImage?_inside h
  | repeatTimes | forever | branch | awaitUntil => cases h; rfl
  | empty | program => cases h

theorem error_eq_none_iff (k : Nat) (s : Stmt) :
    (lowerStmt k s).error = none ↔ s.supported = true := by
  rw [lowerStmt_error, List.findSome?_eq_none_iff, supported_iff]

/-- A statement that can be lowered is ignored if it has no node. -/
theorem image?_eq_none_iff (hs : s.supported = true) : s.image? = none ↔ s.isIgnored = true := by
  have he := (error_eq_none_iff 0 s).2 hs
  obtain ⟨t, ht, hi⟩ := lowerStmt_shows 0 s he
  rw [← lowerStmt_ignored_iff 0 s, and_iff_left he, ← hi, Option.map_eq_none_iff,
    ← Option.map_eq_none_iff (f := Block.id), ht.own, Option.map_eq_none_iff]

theorem image?_of_ignored (h : s.isIgnored = true) : s.image? = none := by
  obtain ⟨-, he⟩ := (lowerStmt_ignored_iff 0 s).2 h
  exact (image?_eq_none_iff ((error_eq_none_iff 0 s).1 he)).2 h

theorem loweredBody_of_ignored (h : s.isIgnored = true) : s.loweredBody = [] := by
  cases s with
  | repeatTimes | forever | branch => cases h
  | _ => rfl

theorem visits_eq (s : Stmt) : s.visits = s :: visitsAll s.loweredBody := by
  cases s <;> rfl

/-- The statement has a block. -/
def hasBlock (s : Stmt) : Bool := !s.isIgnored

theorem hasBlock_of_image? (h : s.image? = some n) : s.hasBlock = true := by
  rw [hasBlock, Bool.not_eq_true']
  by_contra hs
  rw [image?_of_ignored (Bool.not_eq_false _ ▸ hs)] at h
  cases h

end Stmt

-- ---------------------------------------------------------------------------
-- Segments
-- ---------------------------------------------------------------------------

theorem Created.of_tree {s : Stmt} {t : Tree String} (parent next : Option String)
    (hs : CreatedAll s.loweredBody (first? t.inside) (layoutAll (some t.id) t.inside))
    (hi : s.image? = some t.node) : Created s (some t.id) (t.layout parent next) := by
  rw [← own_substack? parent next] at hs
  have h := Created.own hs hi (t.own_shows parent next)
  rwa [own_id, ← layout_eq] at h

mutual
theorem Created.of_image : (s : Stmt) → s.supported = true → ∀ (t : Tree String)
    (parent next : Option String), s.image? = some t.node → Created s (some t.id) (t.layout parent next)
  | .repeatTimes _ body, hs, t, parent, next, hi
  | .forever body, hs, t, parent, next, hi
  | .branch _ body _, hs, t, parent, next, hi => by
    have hinside := t.node_inside.symm.trans (Stmt.image?_inside hi)
    exact .of_tree parent next (CreatedAll.of_images body hs t.inside _ hinside) hi
  | .event _, _, t, parent, next, hi
  | .awaitUntil _, _, t, parent, next, hi
  | .call .., _, t, parent, next, hi => by
    have hinside : nodes t.inside = [] := t.node_inside.symm.trans (Stmt.image?_inside hi)
    rw [nodes_eq_map, List.map_eq_nil_iff] at hinside
    refine .of_tree parent next ?_ hi
    rw [hinside]
    exact .nil
  | .empty, _, _, _, _, hi | .program _, _, _, _, _, hi => nomatch hi
/-- Trees that show statements are stored as the segments of the statements. -/
theorem CreatedAll.of_images : (ss : List Stmt) → Stmt.supportedAll ss = true →
    ∀ (ts : List (Tree String)) (parent : Option String), nodes ts = Stmt.images ss →
      CreatedAll ss (first? ts) (layoutAll parent ts)
  | [], _, ts, parent, h => by
    rw [nodes_eq_map, Stmt.images, List.map_eq_nil_iff] at h
    subst h
    exact .nil
  | s :: ss, hs, ts, parent, h => by
    obtain ⟨hs, hss⟩ := Bool.and_eq_true_iff.1 hs
    rw [Stmt.images] at h
    cases hi : s.image? with
    | none =>
      rw [hi] at h
      exact .cons (.skipped ((Stmt.image?_eq_none_iff hs).1 hi)) (CreatedAll.of_images ss hss ts parent h)
    | some image =>
      rw [hi, nodes_eq_map] at h
      obtain ⟨t, ts, rfl, rfl, hts⟩ := List.map_eq_cons_iff.1 h
      rw [← nodes_eq_map] at hts
      exact .cons (Created.of_image s hs t parent (first? ts) hi)
        (CreatedAll.of_images ss hss ts none hts)
end

-- ---------------------------------------------------------------------------
-- Counting
-- ---------------------------------------------------------------------------

mutual
theorem Created.length_eq {s : Stmt} {own : Option String} {bs : List (Block String)} :
    Created s own bs → bs.length = s.visits.countP Stmt.hasBlock
  | .skipped h => by
    rw [Stmt.visits_eq, Stmt.loweredBody_of_ignored h]
    simp [Stmt.visitsAll, Stmt.hasBlock, h]
  | .own hs hi _ => by
    rw [List.length_append, hs.length_eq, Stmt.visits_eq,
      List.countP_cons_of_pos (Stmt.hasBlock_of_image? hi), List.length_singleton]
theorem CreatedAll.length_eq {ss : List Stmt} {first : Option String} {bs : List (Block String)} :
    CreatedAll ss first bs → bs.length = (Stmt.visitsAll ss).countP Stmt.hasBlock
  | .nil => rfl
  | .cons h hs => by
    rw [List.length_append, h.length_eq, hs.length_eq, Stmt.visitsAll, List.countP_append]
end

-- ---------------------------------------------------------------------------
-- Directions of links
-- ---------------------------------------------------------------------------

/-- Blocks that are chained to later ones, or to what comes behind them all, and have earlier
ones in their mouths. -/
def Directed (behind : Option ι) (bs : List (Block ι)) : Prop :=
  ∀ before b after, bs = before ++ b :: after →
    (∀ id, b.next = some id → id ∈ after.map Block.id ∨ behind = some id) ∧
    ∀ id, b.substack? = some id → id ∈ before.map Block.id

theorem directed_nil (behind : Option ι) : Directed behind [] := by
  intro before b after h
  simp at h

theorem Directed.concat {bs : List (Block ι)} {b : Block ι} (h : Directed none bs)
    (hm : ∀ id, b.substack? = some id → id ∈ bs.map Block.id) : Directed b.next (bs ++ [b]) := by
  intro before c after he
  obtain rfl | ⟨rest, d, rfl⟩ := after.eq_nil_or_concat
  · obtain ⟨rfl, hc⟩ := List.append_inj' he rfl
    obtain rfl := List.singleton_inj.1 hc
    exact ⟨fun id hid => .inr hid, hm⟩
  · rw [List.concat_eq_append, ← List.cons_append, ← List.append_assoc] at he
    obtain ⟨rfl, -⟩ := List.append_inj' he rfl
    obtain ⟨hn, hs⟩ := h before c rest rfl
    refine ⟨fun id hid => .inl ?_, hs⟩
    simpa using Or.inl (hn id hid)

theorem Directed.append {as bs : List (Block ι)} {link behind : Option ι} (ha : Directed link as)
    (hb : Directed behind bs)
    (hl : ∀ id, link = some id → id ∈ bs.map Block.id ∨ behind = some id) :
    Directed behind (as ++ bs) := by
  have right {before after : List (Block ι)} {b : Block ι} (he : bs = before ++ b :: after) :
      (∀ id, b.next = some id → id ∈ after.map Block.id ∨ behind = some id) ∧
        ∀ id, b.substack? = some id → id ∈ (as ++ before).map Block.id := by
    obtain ⟨hn, hs⟩ := hb before b after he
    refine ⟨hn, fun id hid => ?_⟩
    rw [List.map_append]
    exact List.mem_append_right _ (hs id hid)
  intro before b after he
  obtain ⟨c, rfl, hc⟩ | ⟨c, rfl, hc⟩ := List.append_eq_append_iff.1 he
  · exact right hc
  · obtain ⟨rfl, hc⟩ | ⟨rest, rfl, rfl⟩ := List.cons_eq_append_iff.1 hc
    · have hc : bs = [] ++ b :: after := hc.symm
      simpa using right hc
    · obtain ⟨hn, hs⟩ := ha before b rest rfl
      refine ⟨fun id hid => ?_, hs⟩
      rw [List.map_append, List.mem_append]
      obtain h | h := hn id hid
      · exact .inl (.inl h)
      · exact (hl id h).imp_left .inr

namespace Tree

theorem first?_mem (parent : Option ι) (ts : List (Tree ι)) :
    ∀ id, first? ts = some id → id ∈ (layoutAll parent ts).map Block.id := by
  intro id h
  cases ts with
  | nil => cases h
  | cons t ts =>
    obtain rfl := Option.some.inj h
    rw [layoutAll, List.map_append]
    exact List.mem_append_left _ (id_mem_layout parent (first? ts) t)

mutual
theorem layout_directed (parent next : Option ι) :
    (t : Tree ι) → Directed next (t.layout parent next)
  | .leaf id face => (directed_nil none).concat (by simp)
  | .container id face inside =>
    (layoutAll_directed (some id) inside).concat (by simpa using first?_mem (some id) inside)
/-- A chain of trees is stored from its first block on, and what stands inside comes first. -/
theorem layoutAll_directed (parent : Option ι) :
    (ts : List (Tree ι)) → Directed none (layoutAll parent ts)
  | [] => directed_nil none
  | t :: ts =>
    (layout_directed parent (first? ts) t).append (layoutAll_directed none ts)
      fun id h => .inl (first?_mem none ts id h)
end

end Tree

theorem scripts_directed (scripts : List (List (Tree ι))) :
    Directed none (scripts.flatMap (layoutAll none)) := by
  induction scripts with
  | nil => exact directed_nil none
  | cons ts scripts ih => exact (layoutAll_directed none ts).append ih nofun

-- ---------------------------------------------------------------------------
-- Programs
-- ---------------------------------------------------------------------------

/-- The blocks of a program in order: the hats of the leading events, then, if anything else
stands among its statements, the green flag and the segments of all of them. -/
def Program.Creates (p : Program) (bs : List (Block String)) : Prop :=
  ∃ hats main, bs = hats ++ main ∧
    List.Forall₂ (fun s hat => ∃ image, s.image? = some image ∧ hat.Shows image)
      ((p.body.takeWhile Stmt.isEvent).filter Stmt.hasBlock) hats ∧
    if p.body.all Stmt.isEvent then main = []
    else ∃ flag segments, main = flag :: segments ∧
      flag.Shows (.plain "event_whenflagclicked" [] []) ∧ CreatedAll p.body flag.next segments

theorem Stmt.supportedAll_eq_all (ss : List Stmt) : supportedAll ss = ss.all Stmt.supported := by
  induction ss with
  | nil => rfl
  | cons s ss ih => rw [supportedAll, ih, List.all_cons]

theorem Tree.layout_of_inside {t : Tree ι} (h : t.node.inside = []) (parent next : Option ι) :
    t.layout parent next = [t.own parent next] := by
  rw [node_inside, nodes_eq_map, List.map_eq_nil_iff] at h
  rw [layout_eq, h]
  rfl

theorem Block.shows_of_nodes {ts : List (Tree String)} {image : Node} (h : nodes ts = [image])
    (hi : image.inside = []) : ∃ b : Block String, layoutAll none ts = [b] ∧ b.Shows image := by
  rw [nodes_eq_map, List.map_eq_singleton_iff] at h
  obtain ⟨t, rfl, rfl⟩ := h
  refine ⟨t.own none none, ?_, t.own_shows none none⟩
  rw [layoutAll, layout_of_inside hi]
  rfl

theorem hats_created {events : List Stmt} {scripts : List (List (Tree String))}
    (he : events.all Stmt.isEvent = true) (hs : Stmt.supportedAll events = true)
    (h : scripts.map nodes = (events.filterMap Stmt.image?).map fun hat => [hat]) :
    List.Forall₂ (fun s hat => ∃ image, s.image? = some image ∧ hat.Shows image)
      (events.filter Stmt.hasBlock) (scripts.flatMap (layoutAll none)) := by
  induction events generalizing scripts with
  | nil =>
    obtain rfl := List.map_eq_nil_iff.1 h
    exact .nil
  | cons s events ih =>
    obtain ⟨hse, hevents⟩ := Bool.and_eq_true_iff.1 he
    obtain ⟨hss, hsupported⟩ := Bool.and_eq_true_iff.1 hs
    cases hi : s.image? with
    | none =>
      rw [List.filterMap_cons_none hi] at h
      rw [List.filter_cons_of_neg]
      · exact ih hevents hsupported h
      · simp [Stmt.hasBlock, (Stmt.image?_eq_none_iff hss).1 hi]
    | some image =>
      rw [List.filterMap_cons_some hi, List.map_cons] at h
      obtain ⟨ts, scripts, rfl, hts, hrest⟩ := List.map_eq_cons_iff.1 h
      obtain ⟨t, rfl⟩ := isEvent_iff.1 hse
      obtain ⟨b, hb, hshows⟩ := Block.shows_of_nodes hts (Stmt.image?_inside hi)
      rw [List.filter_cons_of_pos (Stmt.hasBlock_of_image? hi), List.flatMap_cons, hb]
      exact .cons ⟨image, hi, hshows⟩ (ih hevents hsupported hrest)

/-- Trees that show the scripts of a program are stored as the program creates its blocks. -/
theorem Program.creates_of_scripts {p : Program} {scripts : List (List (Tree String))}
    (hp : Stmt.supportedAll p.body = true) (h : scripts.map nodes = p.scripts) :
    p.Creates (scripts.flatMap (layoutAll none)) := by
  obtain ⟨hats, main, rfl, hhats, hmain⟩ := List.map_eq_append_iff.1 h
  have hlead : Stmt.supportedAll (p.body.takeWhile Stmt.isEvent) = true := by
    rw [Stmt.supportedAll_eq_all, List.all_eq_true] at hp ⊢
    exact fun s hs => hp s ((List.takeWhile_sublist _).subset hs)
  refine ⟨_, _, List.flatMap_append, hats_created List.all_takeWhile hlead hhats, ?_⟩
  split at hmain
  next hall =>
    rw [List.map_eq_nil_iff] at hmain
    rw [if_pos hall, hmain]
    rfl
  next hall =>
    obtain ⟨ts, rfl, hts⟩ := List.map_eq_singleton_iff.1 hmain
    rw [nodes_eq_map] at hts
    obtain ⟨flag, ts, rfl, hflag, hts⟩ := List.map_eq_cons_iff.1 hts
    rw [← nodes_eq_map] at hts
    have hinside : flag.node.inside = [] := by rw [hflag]; rfl
    rw [if_neg hall, List.flatMap_singleton, layoutAll, layout_of_inside hinside]
    refine ⟨_, _, rfl, ?_, ?_⟩
    · rw [← hflag]
      exact flag.own_shows none (first? ts)
    · rw [own_next]
      exact .of_images p.body hp ts none hts

theorem Program.Creates.length_eq {p : Program} {bs : List (Block String)} (h : p.Creates bs) :
    bs.length = (p.body.takeWhile Stmt.isEvent).countP Stmt.hasBlock +
      if p.body.all Stmt.isEvent then 0
      else 1 + (Stmt.visitsAll p.body).countP Stmt.hasBlock := by
  obtain ⟨hats, main, rfl, hhats, hmain⟩ := h
  rw [List.length_append, ← hhats.length_eq, ← List.countP_eq_length_filter]
  congr 1
  split at hmain
  next hall =>
    rw [if_pos hall, hmain]
    rfl
  next hall =>
    obtain ⟨flag, segments, rfl, -, hsegments⟩ := hmain
    rw [if_neg hall, List.length_cons, hsegments.length_eq, Nat.add_comm]

theorem compile_supported {p : Program} {grid : Grid} {stageName : String} {source : IdSource}
    (hg : grid.maxColumns ≠ 0) (h : (compile p grid stageName source).result = .ok ()) :
    Stmt.supportedAll p.body = true := by
  rw [compile_result_ok_iff, lowerProgram_error hg, List.findSome?_eq_none_iff] at h
  simp only [Program.mem_visits_iff] at h
  exact (Stmt.supportedAll_iff p.body).2 h

theorem compile_target_ids (p : Program) (grid : Grid) (stageName : String) (source : IdSource) :
    (compile p grid stageName source).state.target.ids = programIds p grid source := by
  rw [Target.ids, compile_blocks, lowerProgram_assign_ids]
  simp [programIds]

theorem programIds_accepted (p : Program) (grid : Grid) (source : IdSource) :
    programIds p grid source =
      (List.range' 0 (lowerProgram grid 0 p).size).map source.accepted :=
  (Supply.spent_start source).take _

/-- The blocks of a program that is lowered, in order of creation: which they are, which ids they
get, where their links lead, and how many there are. -/
theorem compile_created {p : Program} {grid : Grid} {stageName : String} {source : IdSource}
    (hg : grid.maxColumns ≠ 0) (hid : ∀ n, source.id n ≠ "")
    (h : (compile p grid stageName source).result = .ok ()) :
    let t := (compile p grid stageName source).state.target
    p.Creates t.blocks ∧
    (∀ n b, t.blocks[n]? = some b → b.id = source.accepted n) ∧
    (∀ before b after, t.blocks = before ++ b :: after →
      (∀ id, b.next = some id → id ∈ after.map Block.id) ∧
      ∀ id, b.substack? = some id → id ∈ before.map Block.id) ∧
    t.size = (p.body.takeWhile Stmt.isEvent).countP Stmt.hasBlock +
      if p.body.all Stmt.isEvent then 0
      else 1 + (Stmt.visitsAll p.body).countP Stmt.hasBlock := by
  intro t
  obtain ⟨scripts, hblocks, -, -, hscripts⟩ := compile_lays hid h
  have hcreates : p.Creates t.blocks :=
    hblocks ▸ Program.creates_of_scripts (compile_supported hg h) hscripts
  refine ⟨hcreates, ?_, ?_, hcreates.length_eq⟩
  · intro n b hb
    have hn : t.ids[n]? = some b.id := by rw [Target.ids, List.getElem?_map, hb, Option.map_some]
    rw [compile_target_ids, programIds_accepted, List.getElem?_map] at hn
    obtain ⟨k, hk, hname⟩ := Option.map_eq_some_iff.1 hn
    obtain ⟨hlt, rfl⟩ := List.getElem?_eq_some_iff.1 hk
    simpa using hname.symm
  · intro before b after ht
    obtain ⟨hn, hs⟩ := scripts_directed scripts before b after (hblocks.symm.trans ht)
    exact ⟨fun id hid => (hn id hid).resolve_right (Option.some_ne_none id).symm, hs⟩

theorem patrol_created :
    ({} : Grid).maxColumns ≠ 0 ∧ (∀ n, (IdSource.ofList ["a", "a"]).id n ≠ "") ∧
      (compile patrol {} "Stage" (.ofList ["a", "a"])).result = .ok () ∧
      let t := (compile patrol {} "Stage" (.ofList ["a", "a"])).state.target
      patrol.Creates t.blocks ∧
      (∀ n b, t.blocks[n]? = some b → b.id = (IdSource.ofList ["a", "a"]).accepted n) ∧
      (∀ before b after, t.blocks = before ++ b :: after →
        (∀ id, b.next = some id → id ∈ after.map Block.id) ∧
        ∀ id, b.substack? = some id → id ∈ before.map Block.id) ∧
      t.size = 6 := by
  have hg : ({} : Grid).maxColumns ≠ 0 := by decide
  have hid : ∀ n, (IdSource.ofList ["a", "a"]).id n ≠ "" := IdSource.ofList_ne_empty (by simp)
  have hok : (compile patrol {} "Stage" (.ofList ["a", "a"])).result = .ok () :=
    (compile_result_ok_iff _ _ _ _).2 (lowerScripts_error hg rfl patrol.body 0 0 rfl)
  exact ⟨hg, hid, hok, compile_created hg hid hok⟩

def loneEvent : Program := ⟨[.event .start]⟩

/-- The statements of a program have no blocks but the hats if all of them are events. -/
theorem loneEvent_size :
    (compile loneEvent {} "Stage" (.ofList [])).result = .ok () ∧
      (compile loneEvent {} "Stage" (.ofList [])).state.target.size ≠
        (loneEvent.body.takeWhile Stmt.isEvent).countP Stmt.hasBlock +
          (if loneEvent.body.all Stmt.isEvent then 0 else 1) +
          (Stmt.visitsAll loneEvent.body).countP Stmt.hasBlock := by
  refine ⟨?_, ?_⟩
  · exact (compile_result_ok_iff _ _ _ _).2 rfl
  · rw [Target.size, compile_blocks]
    decide

end Lia

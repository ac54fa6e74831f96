import Mathlib.Data.List.Nodup
import Mathlib.Logic.Relation
import Lia.Proofs.Lowering.Scripts

/-!
# Compiled blocks are a forest

`compile_isForest`: in a compiled target every block is linked once at most, the blocks
that nothing links are the script roots, and every block is reached from one of them
only. It follows from the scripts that the blocks are stored for (`compile_lays`).
-/

namespace Lia

open Lia.Tree Relation Lowering
open scoped List

variable {ι : Type}

/-- What a block leads to, by its chain and by its mouth. -/
def Block.targets (b : Block ι) : List ι := b.next.toList ++ b.substack?.toList

/-- One block leads to another. -/
def Leads (bs : List (Block ι)) (a b : ι) : Prop := ∃ x ∈ bs, x.id = a ∧ b ∈ x.targets

-- ---------------------------------------------------------------------------
-- Graphs without joins
-- ---------------------------------------------------------------------------

section
variable {r : ι → ι → Prop} (hr : Relator.LeftUnique r)
include hr

/-- Where no two lead to one, there is one way back. -/
theorem root_unique {a b c : ι} (hac : ReflTransGen r a c) (hbc : ReflTransGen r b c)
    (ha : ∀ d, ¬ r d a) (hb : ∀ d, ¬ r d b) : a = b := by
  induction hac with
  | refl =>
    obtain h | ⟨d, -, hd⟩ := ReflTransGen.cases_tail hbc
    · exact h
    · exact absurd hd (ha d)
  | tail _ hdc ih =>
    obtain rfl | ⟨e, hbe, hec⟩ := ReflTransGen.cases_tail hbc
    · exact absurd hdc (hb _)
    · obtain rfl := hr hdc hec
      exact ih hbe

theorem not_transGen_self {a b : ι} (hab : ReflTransGen r a b) (ha : ∀ d, ¬ r d a) :
    ¬ TransGen r b b := by
  induction hab with
  | refl =>
    intro h
    obtain ⟨d, -, hd⟩ := TransGen.tail'_iff.1 h
    exact ha d hd
  | tail _ hbc ih =>
    intro h
    obtain ⟨d, hcd, hdc⟩ := TransGen.tail'_iff.1 h
    obtain rfl := hr hdc hbc
    exact ih (TransGen.head' hbc hcd)

end

theorem eq_of_mem_flatMap {α β : Type} {f : α → List β} {l : List α} (h : (l.flatMap f).Nodup)
    {x y : α} (hx : x ∈ l) (hy : y ∈ l) {c : β} (hcx : c ∈ f x) (hcy : c ∈ f y) : x = y := by
  induction l with
  | nil => cases hx
  | cons z l ih =>
    rw [List.flatMap_cons, List.nodup_append'] at h
    obtain ⟨-, hl, hd⟩ := h
    rcases List.mem_cons.1 hx with rfl | hx' <;> rcases List.mem_cons.1 hy with rfl | hy'
    · rfl
    · exact (hd hcx (List.mem_flatMap.2 ⟨y, hy', hcy⟩)).elim
    · exact (hd hcy (List.mem_flatMap.2 ⟨x, hx', hcx⟩)).elim
    · exact ih hl hx' hy'

-- ---------------------------------------------------------------------------
-- Trees
-- ---------------------------------------------------------------------------

namespace Tree

mutual
theorem layout_links (parent next : Option ι) :
    (t : Tree ι) → ∀ x ∈ t.layout parent next, x.links = x.targets
  | .leaf id face => by simp [layout, Block.targets]
  | .container id face inside => by
    intro x hx
    obtain hx | hx := List.mem_append.1 hx
    · exact layoutAll_links (some id) inside x hx
    · obtain rfl := List.mem_singleton.1 hx
      simp [Block.targets]
theorem layoutAll_links (parent : Option ι) :
    (ts : List (Tree ι)) → ∀ x ∈ layoutAll parent ts, x.links = x.targets
  | [] => by simp [layoutAll]
  | t :: ts => by
    intro x hx
    obtain hx | hx := List.mem_append.1 hx
    · exact layout_links parent (first? ts) t x hx
    · exact layoutAll_links none ts x hx
end

/-- The block of a tree itself, which leads to what follows. -/
theorem own_mem (parent next : Option ι) (t : Tree ι) :
    ∃ x ∈ t.layout parent next, x.id = t.id ∧ x.next = next := by
  cases t with
  | leaf id face => exact ⟨_, List.mem_singleton.2 rfl, rfl, rfl⟩
  | container id face inside =>
    exact ⟨_, List.mem_append_right _ (List.mem_singleton.2 rfl), rfl, rfl⟩

variable {bs : List (Block ι)}

mutual
theorem layout_reached (parent next : Option ι) :
    (t : Tree ι) → t.layout parent next ⊆ bs →
      ∀ x ∈ t.layout parent next, ReflTransGen (Leads bs) t.id x.id
  | .leaf id face, _ => by
    intro x hx
    obtain rfl := List.mem_singleton.1 hx
    exact .refl
  | .container id face inside, h => by
    rw [layout, List.append_subset] at h
    intro x hx
    obtain hx | hx := List.mem_append.1 hx
    · obtain ⟨a, ha, hax⟩ := layoutAll_reached (some id) inside h.1 x hx
      refine .head ⟨_, h.2 (List.mem_singleton.2 rfl), rfl, ?_⟩ hax
      simp [Block.targets, ha]
    · obtain rfl := List.mem_singleton.1 hx
      exact .refl
/-- Every block of a chain is reached from the first one. -/
theorem layoutAll_reached (parent : Option ι) :
    (ts : List (Tree ι)) → layoutAll parent ts ⊆ bs →
      ∀ x ∈ layoutAll parent ts, ∃ a, first? ts = some a ∧ ReflTransGen (Leads bs) a x.id
  | [], _ => by simp [layoutAll]
  | t :: ts, h => by
    rw [layoutAll, List.append_subset] at h
    intro x hx
    refine ⟨t.id, rfl, ?_⟩
    obtain hx | hx := List.mem_append.1 hx
    · exact layout_reached parent (first? ts) t h.1 x hx
    · obtain ⟨a, ha, hax⟩ := layoutAll_reached none ts h.2 x hx
      obtain ⟨y, hy, hid, hn⟩ := own_mem parent (first? ts) t
      refine .head ⟨y, h.1 hy, hid, ?_⟩ hax
      simp [Block.targets, hn, ha]
end

end Tree

-- ---------------------------------------------------------------------------
-- Scripts
-- ---------------------------------------------------------------------------

theorem scripts_links_perm (scripts : List (List (Tree ι))) :
    (scripts.flatMap (fun ts => (first? ts).toList) ++
        (scripts.flatMap (layoutAll none)).flatMap Block.links).Perm
      ((scripts.flatMap (layoutAll none)).map Block.id) := by
  induction scripts with
  | nil => exact .nil
  | cons ts scripts ih =>
    simp only [List.flatMap_cons, List.flatMap_append, List.map_append]
    generalize scripts.flatMap (fun ts => (first? ts).toList) = firsts at ih
    generalize (scripts.flatMap (layoutAll none)).flatMap Block.links = links at ih
    generalize hl : (layoutAll none ts).flatMap Block.links = own
    calc (first? ts).toList ++ firsts ++ (own ++ links)
      _ ~ (first? ts).toList ++ own ++ (firsts ++ links) := by
        simp only [List.append_assoc]
        refine .append_left _ ?_
        simp only [← List.append_assoc]
        exact List.perm_append_comm.append_right _
      _ ~ (layoutAll none ts).map Block.id ++ (scripts.flatMap (layoutAll none)).map Block.id :=
        (hl ▸ links_perm none ts).append ih

theorem scripts_under_iff (scripts : List (List (Tree ι))) {b c : ι} :
    Under (scripts.flatMap (layoutAll none)) b c ↔ Inside (scripts.flatMap (layoutAll none)) b c := by
  induction scripts with
  | nil => simp [Under, Inside]
  | cons ts scripts ih =>
    rw [List.flatMap_cons, under_append, inside_append, under_iff, ih]
    simp

theorem scripts_links (scripts : List (List (Tree ι))) :
    ∀ x ∈ scripts.flatMap (layoutAll none), x.links = x.targets := by
  intro x hx
  obtain ⟨ts, -, hx⟩ := List.mem_flatMap.1 hx
  exact layoutAll_links none ts x hx

theorem scripts_reached (scripts : List (List (Tree ι))) :
    ∀ x ∈ scripts.flatMap (layoutAll none), ∃ ts ∈ scripts, ∃ a, first? ts = some a ∧
      ReflTransGen (Leads (scripts.flatMap (layoutAll none))) a x.id := by
  intro x hx
  obtain ⟨ts, hts, hx⟩ := List.mem_flatMap.1 hx
  refine ⟨ts, hts, layoutAll_reached none ts ?_ x hx⟩
  intro y hy
  exact List.mem_flatMap.2 ⟨ts, hts, hy⟩

/-- The blocks of a target are trees below script roots. -/
structure IsForest (t : Target) (roots : List String) : Prop where
  /-- Blocks have ids of their own. -/
  ids : t.ids.Nodup
  /-- A link leads to a block. -/
  closed : ∀ x ∈ t.blocks, ∀ b ∈ x.targets, b ∈ t.ids
  /-- A block is linked once at most, by a chain or by a mouth. -/
  joinless : (t.blocks.flatMap Block.targets).Nodup
  roots_nodup : roots.Nodup
  /-- The script roots are what nothing leads to. -/
  mem_roots_iff : ∀ b, b ∈ roots ↔ b ∈ t.ids ∧ ∀ a, ¬ Leads t.blocks a b
  /-- Every block belongs to one script. -/
  reached : ∀ b ∈ t.ids, ∃! r, r ∈ roots ∧ ReflTransGen (Leads t.blocks) r b
  acyclic : ∀ b, ¬ TransGen (Leads t.blocks) b b
  /-- The parent of a block is the one in whose mouth it stands first. -/
  parent_iff : ∀ x ∈ t.blocks, ∀ c, x.parent = some c ↔
    ∃ y ∈ t.blocks, y.id = c ∧ y.substack? = some x.id
  isTopLevel_iff : ∀ b ∈ t.ids, t.isTopLevel b = true ↔ b ∈ roots
  /-- Both ways to a record, by itself and with all others, show the script roots. -/
  topLevel : ∀ x ∈ t.blocks, (t.blockValue x).get? "topLevel" = some (.flag (decide (x.id ∈ roots)))
  topLevel_fields : ∀ id v, (id, v) ∈ t.blockFields →
    v.get? "topLevel" = some (.flag (decide (id ∈ roots)))

section
variable {t : Target} {roots : List String} {scripts : List (List (Tree String))}
  (hb : t.blocks = scripts.flatMap (layoutAll none)) (hr : roots.map some = scripts.map first?)
include hb

theorem linked_eq_targets : t.linked = t.blocks.flatMap Block.targets := by
  have h : ∀ x ∈ t.blocks, x.links = x.targets := by
    rw [hb]
    exact scripts_links scripts
  rw [Target.linked, List.flatMap_def, List.flatMap_def, List.map_congr_left h]

include hr

theorem roots_linked_perm : (roots ++ t.linked).Perm t.ids := by
  have hroots : scripts.flatMap (fun ts => (first? ts).toList) = roots := by
    have h := congrArg (List.flatMap Option.toList) hr
    rw [List.flatMap_map, List.flatMap_map] at h
    rw [← h]
    exact List.flatMap_singleton' roots
  have h := scripts_links_perm scripts
  rw [hroots, ← hb] at h
  exact h

omit hb in
theorem root_of_first? {ts : List (Tree String)} {a : String} (hts : ts ∈ scripts)
    (ha : first? ts = some a) : a ∈ roots := by
  have hm : some a ∈ roots.map some := by
    rw [hr, ← ha]
    exact List.mem_map_of_mem hts
  simpa using hm

theorem isForest_of_lays (hn : t.ids.Nodup) : IsForest t roots := by
  have hp := roots_linked_perm hb hr
  obtain ⟨hroots, hlinked, hd⟩ := List.nodup_append'.1 (hp.nodup_iff.2 hn)
  rw [linked_eq_targets hb] at hlinked
  have mem_linked {b : String} : b ∈ t.linked ↔ ∃ a, Leads t.blocks a b := by
    rw [linked_eq_targets hb, List.mem_flatMap]
    constructor
    · rintro ⟨x, hx, hxb⟩
      exact ⟨x.id, x, hx, rfl, hxb⟩
    · rintro ⟨a, x, hx, -, hxb⟩
      exact ⟨x, hx, hxb⟩
  have mem_ids {b : String} : b ∈ t.ids ↔ b ∈ roots ∨ b ∈ t.linked := by
    rw [← hp.mem_iff, List.mem_append]
  have mem_roots {b : String} : b ∈ roots ↔ b ∈ t.ids ∧ ∀ a, ¬ Leads t.blocks a b := by
    constructor
    · intro h
      exact ⟨mem_ids.2 (.inl h), fun a ha => hd h (mem_linked.2 ⟨a, ha⟩)⟩
    · rintro ⟨h, hno⟩
      obtain h | h := mem_ids.1 h
      · exact h
      · obtain ⟨a, ha⟩ := mem_linked.1 h
        exact absurd ha (hno a)
  have back : Relator.LeftUnique (Leads t.blocks) := by
    rintro a b c ⟨x, hx, rfl, hxc⟩ ⟨y, hy, rfl, hyc⟩
    rw [eq_of_mem_flatMap hlinked hx hy hxc hyc]
  have reached {b : String} (h : b ∈ t.ids) : ∃ r ∈ roots, ReflTransGen (Leads t.blocks) r b := by
    obtain ⟨x, hx, rfl⟩ := List.mem_map.1 h
    rw [hb] at hx ⊢
    obtain ⟨ts, hts, a, ha, hax⟩ := scripts_reached scripts x hx
    exact ⟨a, root_of_first? hr hts ha, hax⟩
  have top {b : String} (h : b ∈ t.ids) : t.isTopLevel b = decide (b ∈ roots) := by
    by_cases hbr : b ∈ roots
    · simpa [Target.isTopLevel, hbr] using hd hbr
    · simpa [Target.isTopLevel, hbr] using (mem_ids.1 h).resolve_left hbr
  exact {
    ids := hn
    closed := fun x hx b hxb => mem_ids.2 (.inr (mem_linked.2 ⟨x.id, x, hx, rfl, hxb⟩))
    joinless := hlinked
    roots_nodup := hroots
    mem_roots_iff := fun b => mem_roots
    reached := by
      intro b h
      obtain ⟨r, hr, hrb⟩ := reached h
      refine ⟨r, ⟨hr, hrb⟩, ?_⟩
      rintro r' ⟨hr', hrb'⟩
      exact root_unique back hrb' hrb (mem_roots.1 hr').2 (mem_roots.1 hr).2
    acyclic := by
      intro b h
      obtain ⟨-, ⟨x, hx, rfl, -⟩, -⟩ := TransGen.head'_iff.1 h
      obtain ⟨r, hr, hrb⟩ := reached (List.mem_map_of_mem hx)
      exact not_transGen_self back hrb (mem_roots.1 hr).2 h
    parent_iff := by
      intro x hx c
      have hiff : Under t.blocks x.id c ↔ Inside t.blocks x.id c := hb ▸ scripts_under_iff scripts
      rw [← Inside, ← hiff]
      constructor
      · intro hp
        exact ⟨x, hx, rfl, hp⟩
      · rintro ⟨y, hy, hid, hp⟩
        rwa [List.inj_on_of_nodup_map hn hy hx hid] at hp
    isTopLevel_iff := by
      intro b h
      rw [top h, decide_eq_true_iff]
    topLevel := by
      intro x hx
      rw [← top (List.mem_map_of_mem hx)]
      rfl
    topLevel_fields := by
      intro id v h
      obtain ⟨x, hx, he⟩ := List.mem_map.1 h
      obtain ⟨rfl, rfl⟩ := Prod.mk.inj he
      rw [← top (List.mem_map_of_mem hx)]
      rfl }

end

theorem compile_isForest {p : Program} {grid : Grid} {stageName : String} {source : IdSource}
    (hid : ∀ n, source.id n ≠ "") (h : (compile p grid stageName source).result = .ok ()) :
    IsForest (compile p grid stageName source).state.target
      (compile p grid stageName source).state.roots := by
  obtain ⟨scripts, hb, hr, hn, -⟩ := compile_lays hid h
  exact isForest_of_lays hb hr hn

theorem patrol_isForest :
    (∀ n, (IdSource.ofList []).id n ≠ "") ∧
      (compile patrol {} "Stage" (.ofList [])).result = .ok () ∧
      IsForest (compile patrol {} "Stage" (.ofList [])).state.target
        (compile patrol {} "Stage" (.ofList [])).state.roots := by
  have hid : ∀ n, (IdSource.ofList []).id n ≠ "" := IdSource.ofList_ne_empty (by simp)
  have hok : (compile patrol {} "Stage" (.ofList [])).result = .ok () :=
    (compile_result_ok_iff _ _ _ _).2 (lowerScripts_error (by decide) rfl patrol.body 0 0 rfl)
  exact ⟨hid, hok, compile_isForest hid hok⟩

end Lia

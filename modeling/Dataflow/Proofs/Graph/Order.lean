import Dataflow.Proofs.Graph.Reachability
import Mathlib.Data.List.Basic
import Mathlib.Data.List.Induction
import Mathlib.Logic.Relation

/-!
# The order of sweeps

A depth-first walk finishes a block when it has finished all that it saw from there. The blocks that it has seen and not
finished are those on the way to where it is. So whatever a finished block may branch to was finished earlier, or leads
back to the block.

## What is proved

A reverse post-order starts with the entry (`IsReversePostOrder.head?_eq`), lists each block once (`IsReversePostOrder.nodup`),
and a block before its successors if they do not lead back to it (`IsReversePostOrder.idxOf_lt_idxOf`). In particular the
blocks of an acyclic graph come after their predecessors (`IsReversePostOrder.topological`); what is said of sweeps over such
a graph is said of any `Topological` order of its blocks.
-/

namespace Dataflow

namespace Graph

variable {g : Graph}

/-! ### Ways through a graph -/

/-- Control may get from one block to another. -/
def Leads (g : Graph) : BlockId → BlockId → Prop := Relation.ReflTransGen fun i j => j ∈ g.successors i

/-- Control does not come back to a block. -/
def Acyclic (g : Graph) : Prop := ∀ i j, g.Reachable i → j ∈ g.successors i → ¬g.Leads j i

theorem Reachable.leads {i j : BlockId} (hi : g.Reachable i) (h : g.Leads i j) : g.Reachable j := by
  induction h with
  | refl => exact hi
  | tail _ hk ih => exact ih.branch hk

/-- Control can get to a block on a way that does not lead through another one. -/
inductive Avoids (g : Graph) (i : BlockId) : BlockId → Prop where
  /-- Control starts at the entry. -/
  | entry : entry ≠ i → Avoids g i entry
  /-- Control follows a branch. -/
  | branch {j k : BlockId} : Avoids g i j → k ∈ g.successors j → k ≠ i → Avoids g i k

/-- A block that control reaches is reached on a way round another one, or the other one leads to it. -/
theorem Reachable.avoids_or_leads {k : BlockId} (h : g.Reachable k) (i : BlockId) : g.Avoids i k ∨ g.Leads i k := by
  induction h with
  | entry =>
    by_cases same : Graph.entry = i
    · exact .inr (same ▸ .refl)
    · exact .inl (.entry same)
  | @branch j k _ hk ih =>
    rcases ih with avoids | leads
    · by_cases same : k = i
      · exact .inr (same ▸ .refl)
      · exact .inl (avoids.branch hk same)
    · exact .inr (leads.tail hk)

/-- A graph is acyclic if every branch leads to a block of a higher rank. -/
theorem acyclic_of_rank (rank : BlockId → Nat) (h : ∀ b ∈ g.blocks, ∀ i ∈ b.successors, rank b.id < rank i)
    (valid : g.Valid) : g.Acyclic := by
  have rises {i j : BlockId} (hj : j ∈ g.successors i) : rank i < rank j := by
    unfold successors at hj
    split at hj
    · rename_i b hb
      exact valid.id_of_block? hb ▸ h b (mem_of_block? hb) j hj
    · cases hj
  have higher {i j : BlockId} (hij : g.Leads i j) : rank i ≤ rank j := by
    induction hij with
    | refl => exact Nat.le_refl _
    | tail _ hk ih => exact Nat.le_trans ih (Nat.le_of_lt (rises hk))
  exact fun i j _ hj back => absurd (rises hj) (Nat.not_lt.2 (higher back))

/-! ### Walks -/

/-- What is finished was seen, once only, and after what it may branch to, unless that leads back to it. -/
structure Walk.Ordered (g : Graph) (w : Walk) : Prop where
  /-- No block is finished twice. -/
  nodup : w.finished.Nodup
  /-- Only blocks that were seen are finished. -/
  seen : ∀ i ∈ w.finished, i ∈ w.seen
  /-- The successors of a block were finished earlier. -/
  later : ∀ l i r, w.finished = l ++ i :: r → ∀ j ∈ g.successors i, j ∈ r ∨ g.Leads j i

/-- A block is finished in order if what it may branch to is finished or leads back to it. -/
theorem Walk.Ordered.finish {i : BlockId} {w : Walk} (h : w.Ordered g) (fresh : i ∉ w.finished) (seen : i ∈ w.seen)
    (hs : ∀ j ∈ g.successors i, j ∈ w.finished ∨ g.Leads j i) : Walk.Ordered g ⟨w.seen, i :: w.finished⟩ := by
  refine ⟨List.nodup_cons.2 ⟨fresh, h.nodup⟩, fun j hj => ?_, fun l j r split k hk => ?_⟩
  · rcases List.mem_cons.1 hj with rfl | hj
    · exact seen
    · exact h.seen j hj
  · cases l with
    | nil =>
      obtain ⟨rfl, rfl⟩ := List.cons_eq_cons.1 split
      exact hs k hk
    | cons _ l => exact h.later l j r (List.cons_eq_cons.1 split).2 k hk

/-- A walk that has finished all but the blocks on the way to those that it takes goes on in order, and finishes none of the
blocks on the way. -/
theorem DepthFirst.ordered {l : List BlockId} {u w : Walk} (h : g.DepthFirst l u w) (ordered : u.Ordered g)
    (way : ∀ k ∈ u.seen, k ∉ u.finished → ∀ i ∈ l, g.Leads k i) :
    w.Ordered g ∧ ∀ k ∈ w.finished, k ∈ u.finished ∨ k ∉ u.seen := by
  induction h with
  | done w => exact ⟨ordered, fun _ hk => .inl hk⟩
  | pass _ _ ih => exact ih ordered fun k hk unfinished i hi => way k hk unfinished i (List.mem_cons_of_mem _ hi)
  | @enter i l next u v w fresh hnext walk _ below rest =>
    obtain ⟨extended, branches⟩ := walk.extends
    have onWay (k : BlockId) (hk : k ∈ i :: u.seen) (unfinished : k ∉ u.finished) : g.Leads k i := by
      rcases List.mem_cons.1 hk with rfl | hk
      · exact .refl
      · exact way k hk unfinished i List.mem_cons_self
    obtain ⟨inner, others⟩ := below ⟨ordered.nodup, fun k hk => List.mem_cons_of_mem _ (ordered.seen k hk), ordered.later⟩
      fun k hk unfinished j hj => (onWay k hk unfinished).tail ((hnext j).1 hj)
    -- What was seen below the block and is not finished was on the way to it before.
    have open' (k : BlockId) (hk : k ∈ v.seen) (unfinished : k ∉ v.finished) : k ∈ i :: u.seen ∧ k ∉ u.finished :=
      ⟨(extended.closed k hk).resolve_right fun h => unfinished h.1, fun h => unfinished (extended.finished k h)⟩
    have unfinished : i ∉ v.finished := fun hi =>
      (others i hi).elim (fun old => fresh (ordered.seen i old)) fun new => new List.mem_cons_self
    have outer : Walk.Ordered g ⟨v.seen, i :: v.finished⟩ :=
      inner.finish unfinished (extended.seen i List.mem_cons_self) fun j hj => by
        by_cases hv : j ∈ v.finished
        · exact .inl hv
        · obtain ⟨hj, hu⟩ := open' j (branches j ((hnext j).2 hj)) hv
          exact .inr (onWay j hj hu)
    obtain ⟨last, new⟩ := rest outer fun k hk hv j hj => by
      obtain ⟨hu, hk'⟩ := open' k hk fun h => hv (List.mem_cons_of_mem _ h)
      rcases List.mem_cons.1 hu with rfl | hu
      · exact absurd List.mem_cons_self hv
      · exact way k hu hk' j (List.mem_cons_of_mem _ hj)
    refine ⟨last, fun k hk => ?_⟩
    rcases new k hk with inside | unseen
    · rcases List.mem_cons.1 inside with rfl | inside
      · exact .inr fresh
      · exact (others k inside).imp_right fun h hu => h (List.mem_cons_of_mem _ hu)
    · exact .inr fun hu => unseen (extended.seen k (List.mem_cons_of_mem _ hu))

/-! ### Reverse post-orders -/

namespace IsReversePostOrder

variable {order : List BlockId} (h : g.IsReversePostOrder order)
include h

theorem exists_ordered : ∃ seen, Walk.Ordered g ⟨seen, order⟩ := by
  obtain ⟨w, walk, rfl⟩ := h
  have start : Walk.Ordered g ⟨[], []⟩ := ⟨List.nodup_nil, fun _ hi => hi, fun l i r split => by simp at split⟩
  exact ⟨w.seen, (walk.ordered start fun _ hk => absurd hk List.not_mem_nil).1⟩

theorem nodup : order.Nodup := h.exists_ordered.elim fun _ ordered => ordered.nodup

/-- The entry is finished last. -/
theorem head?_eq : order.head? = some entry := by
  obtain ⟨w, walk, rfl⟩ := h
  cases walk with
  | pass seen _ => exact absurd seen List.not_mem_nil
  | enter _ _ _ last =>
    cases last
    rfl

/-- A block comes before its successors unless they lead back to it. -/
theorem mem_of_mem_successors {done rest : List BlockId} {i j : BlockId} (split : order = done ++ j :: rest)
    (hi : g.Reachable i) (hj : j ∈ g.successors i) (back : ¬g.Leads j i) : i ∈ done := by
  obtain ⟨l, r, hlr⟩ := List.append_of_mem (h.mem_iff.2 hi)
  obtain ⟨seen, ordered⟩ := h.exists_ordered
  have behind := (ordered.later l i r hlr j hj).resolve_right back
  have nodup := h.nodup
  rw [split] at hlr nodup
  rcases List.append_eq_append_iff.1 hlr with ⟨between, rfl, hbetween⟩ | ⟨between, rfl, hbetween⟩
  · cases between with
    | nil => exact absurd ((List.cons_eq_cons.1 hbetween).1 ▸ .refl) back
    | cons _ between =>
      obtain ⟨-, rfl⟩ := List.cons_eq_cons.1 hbetween
      have once := (List.nodup_append.1 nodup).2.1
      exact absurd (List.mem_append_right _ (List.mem_cons_of_mem _ behind)) (List.nodup_cons.1 once).1
  · cases between with
    | nil => exact absurd ((List.cons_eq_cons.1 hbetween).1 ▸ .refl) back
    | cons _ between =>
      obtain ⟨rfl, -⟩ := List.cons_eq_cons.1 hbetween
      exact List.mem_append_right _ List.mem_cons_self

/-- So its index is lower. -/
theorem idxOf_lt_idxOf {i j : BlockId} (hi : g.Reachable i) (hj : j ∈ g.successors i) (back : ¬g.Leads j i) :
    order.idxOf i < order.idxOf j := by
  obtain ⟨done, rest, split⟩ := List.append_of_mem (h.mem_iff.2 (hi.branch hj))
  have mem := h.mem_of_mem_successors split hi hj back
  have fresh : j ∉ done := fun hj => by
    have nodup := h.nodup
    rw [split] at nodup
    exact (List.nodup_append.1 nodup).2.2 _ hj _ List.mem_cons_self rfl
  rw [split, List.idxOf_append_of_mem mem, List.idxOf_append_of_notMem fresh]
  exact Nat.lt_add_right _ (List.idxOf_lt_length_iff.2 mem)

/-- The blocks of the order have its identifiers. -/
theorem map_id_filterMap (valid : g.Valid) : (order.filterMap g.block?).map (·.id) = order := by
  have blocks : ∀ l : List BlockId, (∀ i ∈ l, ∃ b, g.block? i = some b) → (l.filterMap g.block?).map (·.id) = l := by
    intro l hl
    induction l with
    | nil => rfl
    | cons i l ih =>
      obtain ⟨b, hb⟩ := hl i List.mem_cons_self
      rw [List.filterMap_cons_some hb, List.map_cons, valid.id_of_block? hb, ih fun j hj => hl j (List.mem_cons_of_mem _ hj)]
  exact blocks _ fun i hi => valid.exists_of_reachable (h.mem_iff.1 hi)

end IsReversePostOrder

/-! ### Orders of the blocks of an acyclic graph -/

/-- Some blocks in an order, each of those that control can reach once, after those that branch to it. -/
structure Topological (g : Graph) (order : List Block) : Prop where
  /-- The blocks are those that control can reach. -/
  mem_iff {b : Block} : b ∈ order ↔ b ∈ g.blocks ∧ g.Reachable b.id
  /-- No block is there twice. -/
  nodup : (order.map (·.id)).Nodup
  /-- A block comes after those that branch to it. -/
  earlier {done rest : List Block} {b c : Block} : order = done ++ b :: rest → c ∈ order → b.id ∈ c.successors → c ∈ done

/-- In an acyclic graph a reverse post-order is such an order. -/
theorem IsReversePostOrder.topological {order : List BlockId} (h : g.IsReversePostOrder order) (valid : g.Valid)
    (acyclic : g.Acyclic) : g.Topological (order.filterMap g.block?) := by
  have mem {b : Block} : b ∈ order.filterMap g.block? ↔ b ∈ g.blocks ∧ g.Reachable b.id := by
    rw [List.mem_filterMap]
    constructor
    · rintro ⟨i, hi, hb⟩
      exact ⟨mem_of_block? hb, valid.id_of_block? hb ▸ h.mem_iff.1 hi⟩
    · exact fun ⟨hb, hi⟩ => ⟨b.id, h.mem_iff.2 hi, valid.block?_id hb⟩
  refine ⟨mem, by rw [h.map_id_filterMap valid]; exact h.nodup, fun {done rest b c} split hc hb => ?_⟩
  have ids : order = done.map (·.id) ++ b.id :: rest.map (·.id) := by
    rw [← h.map_id_filterMap valid, split, List.map_append, List.map_cons]
  obtain ⟨hc, reachable⟩ := mem.1 hc
  have branch : b.id ∈ g.successors c.id := (Graph.mem_successors (valid.block?_id hc)).2 hb
  obtain ⟨d, hd, hid⟩ := List.mem_map.1 (h.mem_of_mem_successors ids reachable branch (acyclic _ _ reachable branch))
  have swept : d ∈ order.filterMap g.block? := split ▸ List.mem_append_left _ hd
  exact valid.id_inj (mem.1 swept).1 hc hid ▸ hd

namespace Topological

variable {order done rest : List Block} {b c : Block} (top : g.Topological order) (split : order = done ++ b :: rest)
include top split

/-- No block comes again. -/
theorem ne : ∀ c ∈ done, c.id ≠ b.id := by
  have nodup := top.nodup
  rw [split, List.map_append, List.map_cons] at nodup
  intro c hc same
  exact (List.nodup_append.1 nodup).2.2 _ (List.mem_map_of_mem hc) _ List.mem_cons_self same

/-- No block branches to one that comes earlier. -/
theorem not_mem_predecessors (valid : g.Valid) (hc : c ∈ done ++ [b]) : b.id ∉ g.predecessors c.id := by
  intro branch
  obtain ⟨d, hd, hid, hbranch⟩ := Graph.mem_predecessors.1 branch
  have mem : b ∈ order := split ▸ List.mem_append_right _ List.mem_cons_self
  obtain rfl := valid.id_inj hd (top.mem_iff.1 mem).1 hid
  rcases List.mem_append.1 hc with hc | hc
  · obtain ⟨before, after, rfl⟩ := List.append_of_mem hc
    have early : d ∈ before := top.earlier (by rw [split, List.append_assoc, List.cons_append]) mem hbranch
    exact top.ne split d (List.mem_append_left _ early) rfl
  · obtain rfl := List.mem_singleton.1 hc
    exact top.ne split c (top.earlier split mem hbranch) rfl

end Topological

/-- What holds of a block if it holds of those that branch to it holds of all blocks of the order. -/
theorem Topological.induction {order : List Block} (top : g.Topological order) {P : Block → Prop}
    (step : ∀ b ∈ order, (∀ c ∈ order, b.id ∈ c.successors → P c) → P b) : ∀ b ∈ order, P b := by
  have prefixes : ∀ done rest, order = done ++ rest → ∀ b ∈ done, P b := by
    intro done
    induction done using List.reverseRecOn with
    | nil => exact fun _ _ b hb => absurd hb List.not_mem_nil
    | append_singleton done b ih =>
      intro rest split c hc
      rw [List.append_assoc, List.singleton_append] at split
      rcases List.mem_append.1 hc with hc | hc
      · exact ih _ split c hc
      · obtain rfl := List.mem_singleton.1 hc
        refine step c (split ▸ List.mem_append_right _ List.mem_cons_self) fun d hd branch => ?_
        exact ih _ split d (top.earlier split hd branch)
  exact prefixes _ [] (List.append_nil _).symm

/-- A block comes after those that lead to it. -/
theorem Topological.mem_of_leads {order : List Block} (top : g.Topological order) (valid : g.Valid) {b : Block} (hb : b ∈ order)
    {i : BlockId} (leads : g.Leads b.id i) {c : Block} {done rest : List Block} (split : order = done ++ c :: rest)
    (hi : c.id = i) : b = c ∨ b ∈ done := by
  have hreach := (top.mem_iff.1 hb).2
  induction leads generalizing c done rest with
  | refl =>
    have hc : c ∈ order := split ▸ List.mem_append_right _ List.mem_cons_self
    exact .inl (valid.id_inj (top.mem_iff.1 hb).1 (top.mem_iff.1 hc).1 hi.symm)
  | @tail j _ leads hj ih =>
    have reachable := hreach.leads leads
    obtain ⟨d, hd⟩ := valid.exists_of_reachable reachable
    rw [← hi, Graph.mem_successors hd] at hj
    obtain rfl := valid.id_of_block? hd
    obtain ⟨before, after, rfl⟩ := List.append_of_mem
      (top.earlier split (top.mem_iff.2 ⟨Graph.mem_of_block? hd, reachable⟩) hj)
    have split' : order = before ++ d :: (after ++ c :: rest) := by simp [split]
    have earlier := ih split' rfl
    exact .inr (earlier.elim (fun same => same ▸ by simp) fun mem => List.mem_append_left _ mem)

end Graph

namespace Analysis

variable {g : Graph}

/-- The blocks that are swept have the identifiers of the reverse post-order. -/
theorem map_id_sweepOrder (h : g.Valid) : (sweepOrder g).map (·.id) = g.reversePostOrder :=
  h.isReversePostOrder.map_id_filterMap h

/-- No block is swept twice. -/
theorem ne_of_sweepOrder_eq (h : g.Valid) {done rest : List Block} {b : Block} (split : sweepOrder g = done ++ b :: rest) :
    ∀ c ∈ done, c.id ≠ b.id := by
  have nodup := h.isReversePostOrder.nodup
  rw [← map_id_sweepOrder h, split, List.map_append, List.map_cons] at nodup
  intro c hc same
  exact (List.nodup_append.1 nodup).2.2 _ (List.mem_map_of_mem hc) _ List.mem_cons_self same

/-- In an acyclic graph a block is swept after those that branch to it. -/
theorem topological_sweepOrder (h : g.Valid) (acyclic : g.Acyclic) : g.Topological (sweepOrder g) :=
  h.isReversePostOrder.topological h acyclic

end Analysis

end Dataflow

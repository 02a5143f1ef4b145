import Dataflow.Analysis.Solver
import Dataflow.Proofs.Graph.Validity

/-!
# Which blocks are swept

Control reaches a block from the entry along branches. A depth-first walk takes some blocks in turn: one that it has seen it
passes, from any other it goes on to the successors, and when it is done with them the block is finished. Which successor comes
first is up to the walk (`Graph.DepthFirst`). The blocks that a walk from the entry finishes, the last one first, are in reverse
post-order (`Graph.IsReversePostOrder`). `Graph.reversePostOrder` takes the branches in their order, and carries a depth in order
to end.

## What is proved

A walk only adds to what was seen and finished, sees the blocks that it takes, and finishes what it sees for the first time
together with all its successors seen (`DepthFirst.extends`). It follows branches only (`DepthFirst.reachable`). So the blocks in
a reverse post-order are those that control can reach (`IsReversePostOrder.mem_iff`).

Every block that is seen leaves fewer unseen. Hence a depth above their number suffices, and `Graph.reversePostOrder` is such an
order (`Valid.isReversePostOrder`).
-/

namespace Dataflow

namespace Graph

/-- Control can reach a block from the entry. -/
inductive Reachable (g : Graph) : BlockId → Prop where
  /-- Control starts at the entry. -/
  | entry : Reachable g entry
  /-- Control follows a branch. -/
  | branch {b c : BlockId} : Reachable g b → c ∈ g.successors b → Reachable g c

variable {g : Graph}

/-- Control only reaches blocks of the graph. -/
theorem Valid.exists_of_reachable (h : g.Valid) {i : BlockId} (hi : g.Reachable i) :
    ∃ b, g.block? i = some b := by
  cases hi with
  | entry =>
    obtain ⟨b, hb, -⟩ := h.block?_entry
    exact ⟨b, hb⟩
  | @branch j _ _ hc =>
    unfold successors at hc
    split at hc
    · rename_i b hb
      exact h.exists_of_mem_successors (mem_of_block? hb) hc
    · cases hc

/-! ### Walks -/

/-- A walk takes some blocks in turn, the successors of a block before the next one. -/
inductive DepthFirst (g : Graph) : List BlockId → Walk → Walk → Prop where
  /-- There is no block to take. -/
  | done (w : Walk) : DepthFirst g [] w w
  /-- A block that was seen is passed. -/
  | pass {i : BlockId} {l : List BlockId} {u w : Walk} : i ∈ u.seen → DepthFirst g l u w → DepthFirst g (i :: l) u w
  /-- From another block the walk goes on to its successors, in any order, and then finishes it. -/
  | enter {i : BlockId} {l next : List BlockId} {u v w : Walk} : i ∉ u.seen → (∀ j, j ∈ next ↔ j ∈ g.successors i) →
      DepthFirst g next ⟨i :: u.seen, u.finished⟩ v → DepthFirst g l ⟨v.seen, i :: v.finished⟩ w → DepthFirst g (i :: l) u w

/-- The blocks that a depth-first walk from the entry finishes, the last one first. -/
def IsReversePostOrder (g : Graph) (order : List BlockId) : Prop :=
  ∃ w, g.DepthFirst [entry] ⟨[], []⟩ w ∧ w.finished = order

/-- The second walk goes on from the first, and has finished all that it saw anew. -/
structure Walk.Extends (g : Graph) (w w' : Walk) : Prop where
  /-- Nothing that was seen is forgotten. -/
  seen : ∀ b ∈ w.seen, b ∈ w'.seen
  /-- Nothing that was finished is forgotten. -/
  finished : ∀ b ∈ w.finished, b ∈ w'.finished
  /-- What is new is finished, and the walk went on to its successors. -/
  closed : ∀ b ∈ w'.seen, b ∈ w.seen ∨ b ∈ w'.finished ∧ ∀ c ∈ g.successors b, c ∈ w'.seen

theorem Walk.Extends.refl (w : Walk) : w.Extends g w :=
  ⟨fun _ h => h, fun _ h => h, fun _ h => .inl h⟩

theorem Walk.Extends.trans {u v w : Walk} (h : u.Extends g v) (h' : v.Extends g w) : u.Extends g w := by
  refine ⟨fun b hb => h'.seen b (h.seen b hb), fun b hb => h'.finished b (h.finished b hb), fun b hb => ?_⟩
  rcases h'.closed b hb with hv | hnew
  · rcases h.closed b hv with hu | ⟨hf, hs⟩
    · exact .inl hu
    · exact .inr ⟨h'.finished b hf, fun c hc => h'.seen c (hs c hc)⟩
  · exact .inr hnew

/-- A block is finished when the walk has seen its successors. -/
theorem Walk.Extends.finish {i : BlockId} {u v : Walk} (h : Walk.Extends g ⟨i :: u.seen, u.finished⟩ v)
    (hs : ∀ j ∈ g.successors i, j ∈ v.seen) : u.Extends g ⟨v.seen, i :: v.finished⟩ := by
  refine ⟨fun b hb => h.seen b (List.mem_cons_of_mem _ hb), fun b hb => List.mem_cons_of_mem _ (h.finished b hb), fun b hb => ?_⟩
  rcases h.closed b hb with old | ⟨hf, hs'⟩
  · rcases List.mem_cons.1 old with rfl | old
    · exact .inr ⟨List.mem_cons_self, hs⟩
    · exact .inl old
  · exact .inr ⟨List.mem_cons_of_mem _ hf, hs'⟩

/-- A walk goes on from what it starts with, and sees the blocks that it takes. -/
theorem DepthFirst.extends {l : List BlockId} {u w : Walk} (h : g.DepthFirst l u w) :
    u.Extends g w ∧ ∀ i ∈ l, i ∈ w.seen := by
  induction h with
  | done w => exact ⟨.refl w, fun _ hi => absurd hi List.not_mem_nil⟩
  | pass seen _ ih =>
    refine ⟨ih.1, fun j hj => ?_⟩
    rcases List.mem_cons.1 hj with rfl | hj
    · exact ih.1.seen _ seen
    · exact ih.2 j hj
  | enter _ hnext _ _ below rest =>
    refine ⟨(below.1.finish fun j hj => below.2 j ((hnext j).2 hj)).trans rest.1, fun j hj => ?_⟩
    rcases List.mem_cons.1 hj with rfl | hj
    · exact rest.1.seen _ (below.1.seen _ List.mem_cons_self)
    · exact rest.2 j hj

/-- From blocks that control can reach a walk finishes only such blocks. -/
theorem DepthFirst.reachable {l : List BlockId} {u w : Walk} (h : g.DepthFirst l u w) (hl : ∀ i ∈ l, g.Reachable i)
    (hu : ∀ i ∈ u.finished, g.Reachable i) : ∀ i ∈ w.finished, g.Reachable i := by
  induction h with
  | done w => exact hu
  | pass _ _ ih => exact ih (fun j hj => hl j (List.mem_cons_of_mem _ hj)) hu
  | @enter i l next u v w _ hnext _ _ below rest =>
    have hi : g.Reachable i := hl i List.mem_cons_self
    have finished := below (fun j hj => hi.branch ((hnext j).1 hj)) hu
    refine rest (fun j hj => hl j (List.mem_cons_of_mem _ hj)) fun j hj => ?_
    rcases List.mem_cons.1 hj with rfl | hj
    · exact hi
    · exact finished j hj

/-- A reverse post-order holds the blocks that control can reach. -/
theorem IsReversePostOrder.mem_iff {order : List BlockId} (h : g.IsReversePostOrder order) {i : BlockId} :
    i ∈ order ↔ g.Reachable i := by
  obtain ⟨w, walk, rfl⟩ := h
  refine ⟨walk.reachable (fun j hj => List.mem_singleton.1 hj ▸ .entry) (fun _ hj => absurd hj List.not_mem_nil) i, fun hi => ?_⟩
  obtain ⟨extended, taken⟩ := walk.extends
  have closed {j : BlockId} (hj : j ∈ w.seen) : j ∈ w.finished ∧ ∀ k ∈ g.successors j, k ∈ w.seen :=
    (extended.closed j hj).resolve_left List.not_mem_nil
  have seen : i ∈ w.seen := by
    induction hi with
    | entry => exact taken _ List.mem_cons_self
    | branch _ hk ih => exact (closed ih).2 _ hk
  exact (closed seen).1

/-! ### The walk in the order of branches -/

/-- How many blocks a walk has not seen. -/
def Walk.unseen (g : Graph) (w : Walk) : Nat := g.blocks.countP fun b => b.id ∉ w.seen

theorem Walk.Extends.unseen_le {w w' : Walk} (h : w.Extends g w') : w'.unseen g ≤ w.unseen g := by
  refine List.countP_mono_left fun b _ hb => ?_
  simp only [decide_eq_true_eq] at hb ⊢
  exact fun hw => hb (h.seen _ hw)

/-- Seeing one more block of the graph leaves fewer. -/
theorem Walk.unseen_cons_lt {w : Walk} {b : Block} (hb : b ∈ g.blocks) (hn : b.id ∉ w.seen)
    (finished : List BlockId) : Walk.unseen g ⟨b.id :: w.seen, finished⟩ < w.unseen g := by
  show (g.blocks.countP fun c => c.id ∉ b.id :: w.seen) < g.blocks.countP fun c => c.id ∉ w.seen
  generalize g.blocks = l at hb
  induction l with
  | nil => cases hb
  | cons c l ih =>
    have mono : (l.countP fun c => c.id ∉ b.id :: w.seen) ≤ l.countP fun c => c.id ∉ w.seen := by
      refine List.countP_mono_left fun c _ h => ?_
      simp only [List.mem_cons, not_or, decide_eq_true_eq] at h ⊢
      exact h.2
    by_cases hc : c.id = b.id
    · rw [List.countP_cons_of_neg (by simp [hc]), List.countP_cons_of_pos (by simpa [hc] using hn)]
      omega
    · have hb : b ∈ l := by
        rcases List.mem_cons.1 hb with rfl | hb
        · exact absurd rfl hc
        · exact hb
      have := ih hb
      by_cases hs : c.id ∈ w.seen
      · rw [List.countP_cons_of_neg (by simp [hs]), List.countP_cons_of_neg (by simp [hs])]
        exact this
      · rw [List.countP_cons_of_pos (by simp [hs, hc]), List.countP_cons_of_pos (by simpa using hs)]
        omega

/-- One block more that a walk takes first. -/
theorem DepthFirst.cons {i : BlockId} {l : List BlockId} {u v w : Walk} (first : g.DepthFirst [i] u v)
    (rest : g.DepthFirst l v w) : g.DepthFirst (i :: l) u w := by
  cases first with
  | pass seen last =>
    cases last
    exact .pass seen rest
  | enter fresh hnext below last =>
    cases last
    exact .enter fresh hnext below rest

/-- A walk is depth-first if its depth exceeds the number of unseen blocks. -/
theorem Valid.depthFirst_walkFrom (h : g.Valid) {depth : Nat} {w : Walk} (hw : w.unseen g < depth) {b : Block}
    (hb : b ∈ g.blocks) : g.DepthFirst [b.id] w (g.walkFrom depth w b.id) := by
  induction depth generalizing w b with
  | zero => omega
  | succ depth ih =>
    rw [walkFrom]
    split
    · rename_i seen
      exact .pass seen (.done w)
    · rename_i fresh
      -- Those that are taken earlier leave no more blocks unseen.
      have along : ∀ l, (∀ i ∈ l, i ∈ g.successors b.id) → ∀ u : Walk, u.unseen g < depth →
          g.DepthFirst l u (l.foldl (g.walkFrom depth) u) := by
        intro l
        induction l with
        | nil => exact fun _ u _ => .done u
        | cons i l rest =>
          intro hl u hu
          have hi := hl i List.mem_cons_self
          rw [mem_successors (h.block?_id hb)] at hi
          obtain ⟨c, hc⟩ := h.exists_of_mem_successors hb hi
          have first := ih hu (mem_of_block? hc)
          rw [h.id_of_block? hc] at first
          exact first.cons (rest (fun j hj => hl j (List.mem_cons_of_mem _ hj)) _
            (Nat.lt_of_le_of_lt first.extends.1.unseen_le hu))
      have few := Walk.unseen_cons_lt hb fresh w.finished
      exact .enter fresh (fun _ => Iff.rfl) (along _ (fun _ hi => hi) _ (by omega)) (.done _)

theorem Valid.isReversePostOrder (h : g.Valid) : g.IsReversePostOrder g.reversePostOrder := by
  obtain ⟨first, hfirst, -⟩ := h.block?_entry
  have walk := h.depthFirst_walkFrom (w := ⟨[], []⟩) (Nat.lt_succ_of_le List.countP_le_length) (mem_of_block? hfirst)
  rw [h.id_of_block? hfirst] at walk
  exact ⟨_, walk, rfl⟩

/-- The order of sweeps holds the blocks that control can reach. -/
theorem Valid.mem_reversePostOrder (h : g.Valid) {i : BlockId} : i ∈ g.reversePostOrder ↔ g.Reachable i :=
  h.isReversePostOrder.mem_iff

end Graph

namespace Analysis

variable {g : Graph}

theorem mem_blocks_of_mem_sweepOrder {b : Block} (hb : b ∈ sweepOrder g) : b ∈ g.blocks := by
  obtain ⟨i, -, hi⟩ := List.mem_filterMap.1 hb
  exact Graph.mem_of_block? hi

/-- Every block that control can reach is swept. -/
theorem mem_sweepOrder (h : g.Valid) {i : BlockId} (hi : g.Reachable i) {b : Block} (hb : g.block? i = some b) :
    b ∈ sweepOrder g :=
  List.mem_filterMap.2 ⟨i, h.mem_reversePostOrder.2 hi, hb⟩

/-- Only blocks that control can reach are swept. -/
theorem reachable_of_mem_sweepOrder (h : g.Valid) {b : Block} (hb : b ∈ sweepOrder g) : g.Reachable b.id := by
  obtain ⟨i, hi, hblock⟩ := List.mem_filterMap.1 hb
  exact h.id_of_block? hblock ▸ h.mem_reversePostOrder.1 hi

end Analysis

end Dataflow

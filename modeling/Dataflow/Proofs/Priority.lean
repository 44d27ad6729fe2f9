import Dataflow.Proofs.RunInvariant

/-!
# Queues by priority

In reverse postorder the queue of a run is sorted by position (`Reaches.sorted`), so that leaving
out some blocks commutes with queueing one (`filter_push`), as it does in the order of arrival. What
waits after a visit has waited before, or the visit has sent it a state (`mem_queue_visited`).
-/

namespace Dataflow

namespace Worklist

variable {rank : BlockId → Nat} {b : BlockId}

/-- The order of a queue by rank, in which blocks of one rank stand by number. -/
def Before (rank : BlockId → Nat) (b c : BlockId) : Prop :=
  rank b < rank c ∨ rank b = rank c ∧ b < c

theorem Before.trans {c d : BlockId} (h : Before rank b c) (h' : Before rank c d) :
    Before rank b d := by
  rcases h with h | ⟨heq, h⟩ <;> rcases h' with h' | ⟨heq', h'⟩
  · exact .inl (Nat.lt_trans h h')
  · exact .inl (heq' ▸ h)
  · exact .inl (heq ▸ h')
  · exact .inr ⟨heq.trans heq', Nat.lt_trans h h'⟩

theorem before_of_not_before {c : BlockId} (h : ¬ Before rank b c) (hne : b ≠ c) :
    Before rank c b := by
  obtain ⟨hrank, hnumber⟩ := not_or.1 h
  rcases Nat.lt_or_eq_of_le (Nat.not_lt.1 hrank) with hlt | heq
  · exact .inl hlt
  · exact .inr ⟨heq, Nat.lt_of_le_of_ne (Nat.not_lt.1 fun hlt => hnumber ⟨heq.symm, hlt⟩) hne.symm⟩

theorem insertByRank_eq_cons : ∀ {queue : List BlockId}, (∀ c ∈ queue, Before rank b c) →
    insertByRank rank b queue = b :: queue
  | [], _ => rfl
  | _ :: _, h => if_pos (h _ List.mem_cons_self)

theorem pairwise_insertByRank : ∀ {queue : List BlockId}, queue.Pairwise (Before rank) →
    (insertByRank rank b queue).Pairwise (Before rank)
  | [], _ => List.pairwise_singleton _ _
  | c :: rest, h => by
    obtain ⟨hc, hrest⟩ := List.pairwise_cons.1 h
    unfold insertByRank
    split_ifs with hbefore hsame
    · exact List.pairwise_cons.2
        ⟨List.forall_mem_cons.2 ⟨hbefore, fun d hd => Before.trans hbefore (hc d hd)⟩, h⟩
    · exact h
    · refine List.pairwise_cons.2 ⟨fun d hd => ?_, pairwise_insertByRank hrest⟩
      rcases (mem_insertByRank rank b d rest).1 hd with rfl | hd
      · exact before_of_not_before hbefore hsame
      · exact hc d hd

theorem filter_insertByRank (keep : BlockId → Bool) :
    ∀ {queue : List BlockId}, queue.Pairwise (Before rank) →
      (insertByRank rank b queue).filter keep =
        if keep b then insertByRank rank b (queue.filter keep) else queue.filter keep
  | [], _ => by
    by_cases hb : keep b <;> simp [insertByRank, hb]
  | c :: rest, h => by
    obtain ⟨hc, hrest⟩ := List.pairwise_cons.1 h
    rw [insertByRank]
    split_ifs with hbefore hb hsame hb hb
    · rw [insertByRank_eq_cons, List.filter_cons_of_pos hb]
      intro d hd
      rcases List.mem_cons.1 (List.mem_of_mem_filter hd) with rfl | hd
      · exact hbefore
      · exact Before.trans hbefore (hc d hd)
    · rw [List.filter_cons_of_neg hb]
    · subst hsame
      rw [List.filter_cons_of_pos hb, insertByRank, if_neg hbefore, if_pos rfl]
    · rfl
    · by_cases hkeep : keep c
      · rw [List.filter_cons_of_pos hkeep, List.filter_cons_of_pos hkeep, insertByRank,
          if_neg hbefore, if_neg hsame, filter_insertByRank keep hrest, if_pos hb]
      · rw [List.filter_cons_of_neg hkeep, List.filter_cons_of_neg hkeep,
          filter_insertByRank keep hrest, if_pos hb]
    · by_cases hkeep : keep c
      · rw [List.filter_cons_of_pos hkeep, List.filter_cons_of_pos hkeep,
          filter_insertByRank keep hrest, if_neg hb]
      · rw [List.filter_cons_of_neg hkeep, List.filter_cons_of_neg hkeep,
          filter_insertByRank keep hrest, if_neg hb]

/-- The queue stands by position, if that is the order in which blocks are visited. -/
def Sorted (order : WorklistOrder) (g : Graph) (queue : List BlockId) : Prop :=
  order = .reversePostorder → queue.Pairwise (Before (g.order.idxOf ·))

variable {order : WorklistOrder} {g : Graph} {queue : List BlockId}

theorem Sorted.push (h : Sorted order g queue) (b : BlockId) :
    Sorted order g (Worklist.push order g b queue) := by
  rintro rfl
  exact pairwise_insertByRank (h rfl)

theorem filter_push (h : Sorted order g queue) (keep : BlockId → Bool) (b : BlockId) :
    (push order g b queue).filter keep =
      if keep b then push order g b (queue.filter keep) else queue.filter keep := by
  cases order with
  | reversePostorder => exact filter_insertByRank keep (h rfl)
  | fifo => by_cases hb : keep b <;> simp [push, hb]

end Worklist

variable {V S : Type}

namespace RunState

/-- The queue is sorted in the order of the settings. -/
def Sorted (c : AnalysisConfig) (g : Graph) (s : RunState V S) : Prop :=
  Worklist.Sorted c.order g s.queue

variable {c : AnalysisConfig} {g : Graph} {s : RunState V S}

theorem Sorted.enqueue (h : s.Sorted c g) (b : BlockId) :
    (RunState.enqueue c.order g s b).Sorted c g := by
  unfold RunState.enqueue
  split
  · exact h
  · exact Worklist.Sorted.push h b

theorem Sorted.closed (h : s.Sorted c g) (b : BlockId) : (s.closed b).Sorted c g := by
  rwa [Sorted, queue_closed]

variable [DecidableEq S] [AbstractDomain S]

theorem Sorted.receive (h : s.Sorted c g) (source target : BlockId) (incoming : S) :
    (s.receive c g source target incoming).Sorted c g := by
  rcases receive_cases c g s source target incoming with ⟨-, events, he⟩ | ⟨-, events, he⟩ <;>
    rw [he]
  · exact h
  · refine Sorted.enqueue ?_ target
    exact h

theorem Sorted.opened (h : s.Sorted c g) (v : BlockVisit V S) : (s.opened c v).Sorted c g :=
  fun horder => (h horder).tail

end RunState

namespace Analysis

variable [DecidableEq S] [AbstractDomain S] {a : Analysis V S} {g : Graph}
  {visits : List (BlockVisit V S)} {s : RunState V S}

theorem Reaches.sorted (h : a.Reaches g visits s) : s.Sorted a.config g :=
  Reaches.induction (P := fun _ s => s.Sorted a.config g) (fun _ => .nil) (fun _ h => h)
    (fun source target state _ h => h.receive source target state) (fun _ h => h.opened _)
    (fun b h => h.closed b) h

theorem RunInv.mem_queue_visited (hg : g.WellFormed) (h : a.RunInv g visits s) {v : BlockVisit V S}
    (hv : a.nextVisit? g s = some v) {b : BlockId} (hb : b ∈ (s.visited a.config g v).queue) :
    b ∈ s.queue.tail ∨ ∃ e, (e, b) ∈ v.block.shape.edges ∧ (v.sent e).isSome := by
  obtain ⟨rest, hqueue⟩ := (nextVisit_of_eq_some hg hv).queue
  rw [RunState.visited, RunState.queue_closed] at hb
  refine (RunState.foldl_deliver_induction (P := fun s' => s'.QueueInv ∧ ∀ b ∈ s'.queue,
    b ∈ s.queue.tail ∨ ∃ e, (e, b) ∈ v.block.shape.edges ∧ (v.sent e).isSome) _ _ _ _
    (fun s' _ h => ⟨⟨h.1.mem_iff, h.1.nodup⟩, h.2⟩)
    (fun s' sending target state hmem hcarried h => ?_) _
    ⟨h.queueInv.opened hqueue, fun b hb => .inl hb⟩).2 b hb
  refine ⟨h.1.receive _ _ _ _ _, fun b hb => ?_⟩
  rcases (h.1.mem_receive_iff _ _ _ _ _ b).1 hb with hb | ⟨rfl, -⟩
  · exact h.2 b hb
  · obtain ⟨e, he, hsent⟩ := Sending.mem_carried_all_iff.1 ⟨sending, hmem, hcarried⟩
    exact .inr ⟨e, he, Option.isSome_iff_exists.2 ⟨state, hsent⟩⟩

end Analysis

end Dataflow

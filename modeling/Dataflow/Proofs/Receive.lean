import Dataflow.Analysis.State
import Dataflow.Proofs.Edge

/-!
# Taking in states

A block that takes in a state afterwards has the merged state recorded (`get?_before_receive`), and
it waits if that has changed its recorded state (`QueueInv.mem_receive_iff`). Nothing else changes
but the events (`findings_receive`), and what an announcement or a withheld edge changes is the
events alone.
-/

namespace Dataflow

namespace Worklist

theorem mem_insertByRank (rank : BlockId → Nat) (b x : BlockId) :
    ∀ queue : List BlockId, x ∈ insertByRank rank b queue ↔ x = b ∨ x ∈ queue
  | [] => by simp [insertByRank]
  | c :: rest => by
    have ih := mem_insertByRank rank b x rest
    unfold insertByRank
    split_ifs with h h' <;> simp only [List.mem_cons, ih] <;> grind

theorem nodup_insertByRank (rank : BlockId → Nat) (b : BlockId) :
    ∀ queue : List BlockId, b ∉ queue → queue.Nodup → (insertByRank rank b queue).Nodup
  | [], _, _ => by simp [insertByRank]
  | c :: rest, hb, hnodup => by
    obtain ⟨hne, hrest⟩ := not_or.1 (mt List.mem_cons.2 hb)
    obtain ⟨hc, hnodup'⟩ := List.nodup_cons.1 hnodup
    unfold insertByRank
    rw [if_neg hne]
    split_ifs
    · exact List.nodup_cons.2 ⟨hb, hnodup⟩
    · refine List.nodup_cons.2 ⟨fun hmem => ?_, nodup_insertByRank rank b rest hrest hnodup'⟩
      rcases (mem_insertByRank rank b c rest).1 hmem with rfl | hmem
      · exact hne rfl
      · exact hc hmem

theorem mem_push (order : WorklistOrder) (g : Graph) (b x : BlockId) (queue : List BlockId) :
    x ∈ push order g b queue ↔ x = b ∨ x ∈ queue := by
  cases order with
  | reversePostorder => exact mem_insertByRank _ b x queue
  | fifo => simp [push, or_comm]

theorem nodup_push (order : WorklistOrder) (g : Graph) {b : BlockId} {queue : List BlockId}
    (hb : b ∉ queue) (h : queue.Nodup) : (push order g b queue).Nodup := by
  cases order with
  | reversePostorder => exact nodup_insertByRank _ b queue hb h
  | fifo => exact List.nodup_append.2 ⟨h, by simp, by rintro x hx y hy rfl; simp_all⟩

end Worklist

namespace RunState

variable {V S : Type}

/-- What taking in a state leaves alone. -/
def findings (s : RunState V S) :
    Table (Outflow S) × Table V × Table S × Table Nat × Nat × Array (NodeVisit V S) :=
  (s.after, s.values, s.nodeStates, s.visits, s.totalVisits, s.log)

/-- The blocks that wait are those of status `queued`, each of them once. -/
structure QueueInv (s : RunState V S) : Prop where
  mem_iff : ∀ b, b ∈ s.queue ↔ s.status b = .queued
  nodup : s.queue.Nodup

theorem status_setStatus (s : RunState V S) (b x : BlockId) (status : BlockStatus) :
    (s.setStatus b status).status x = if x = b then status else s.status x := by
  simp only [RunState.status, setStatus, Table.get?_insert]
  split <;> rfl

theorem announce_eq (w : Widening) (s : RunState V S) (target : BlockId) :
    ∃ events, s.announce w target = { s with events := events } := by
  simp only [announce]
  split_ifs
  · exact ⟨_, rfl⟩
  · exact ⟨_, rfl⟩
  · exact ⟨s.events, rfl⟩

section Enqueue

variable (order : WorklistOrder) (g : Graph) (s : RunState V S) (b x : BlockId)

@[simp] theorem before_enqueue : (enqueue order g s b).before = s.before := by
  unfold enqueue
  split <;> rfl

@[simp] theorem updates_enqueue : (enqueue order g s b).updates = s.updates := by
  unfold enqueue
  split <;> rfl

@[simp] theorem findings_enqueue : (enqueue order g s b).findings = s.findings := by
  unfold enqueue
  split <;> rfl

theorem queue_enqueue :
    (enqueue order g s b).queue =
      if s.status b = .queued then s.queue else Worklist.push order g b s.queue := by
  unfold enqueue
  split <;> rfl

theorem status_enqueue :
    (enqueue order g s b).status x = if x = b then .queued else s.status x := by
  unfold enqueue
  split
  · split
    · subst_vars
      assumption
    · rfl
  · exact status_setStatus s b x .queued

variable {s}

theorem QueueInv.mem_enqueue_iff (h : s.QueueInv) :
    x ∈ (enqueue order g s b).queue ↔ x = b ∨ x ∈ s.queue := by
  unfold enqueue
  split
  · rename_i hb
    rw [← h.mem_iff] at hb
    grind
  · exact Worklist.mem_push order g b x s.queue

theorem QueueInv.enqueue (h : s.QueueInv) : (enqueue order g s b).QueueInv where
  mem_iff := fun x => by
    rw [h.mem_enqueue_iff, status_enqueue, h.mem_iff]
    grind
  nodup := by
    unfold RunState.enqueue
    split
    · exact h.nodup
    · rename_i hb
      exact Worklist.nodup_push order g (mt (h.mem_iff b).1 hb) h.nodup

end Enqueue

variable [DecidableEq S] [AbstractDomain S]

/-- What is recorded at a block once it has taken in a state. -/
def merged (c : AnalysisConfig) (s : RunState V S) (target : BlockId) (incoming : S) : S :=
  match s.before.get? target with
  | none => incoming
  | some recorded =>
    if below incoming recorded then recorded
    else c.widening.merge recorded incoming (s.updatesOf target)

def updatesAfter (s : RunState V S) (target : BlockId) : Table Nat :=
  match s.before.get? target with
  | none => s.updates
  | some _ => s.updates.insert target (s.updatesOf target + 1)

section Receive

variable (c : AnalysisConfig) (g : Graph) (s : RunState V S) (source target : BlockId)
  (incoming : S)

theorem receive_cases :
    (s.before.get? target = some (s.merged c target incoming) ∧
      ∃ events, s.receive c g source target incoming = { s with events := events }) ∨
    (s.before.get? target ≠ some (s.merged c target incoming) ∧
      ∃ events, s.receive c g source target incoming =
        enqueue c.order g
          { s with
            before := s.before.insert target (s.merged c target incoming)
            updates := s.updatesAfter target
            events := events }
          target) := by
  unfold receive merged updatesAfter
  rcases hrec : s.before.get? target with _ | recorded
  · exact .inr ⟨by simp, _, rfl⟩
  · simp only
    split_ifs with hbelow hsame
    · exact .inl ⟨rfl, _, rfl⟩
    · exact .inl ⟨by rw [hsame], s.events, rfl⟩
    · refine .inr ⟨by simpa using Ne.symm hsame, ?_⟩
      obtain ⟨events, he⟩ := announce_eq c.widening s target
      rw [he]
      exact ⟨_, rfl⟩

theorem get?_before_receive (b : BlockId) :
    (s.receive c g source target incoming).before.get? b =
      if b = target then some (s.merged c target incoming) else s.before.get? b := by
  rcases receive_cases c g s source target incoming with ⟨hsame, events, he⟩ | ⟨-, events, he⟩ <;>
    rw [he]
  · split
    · subst_vars
      exact hsame
    · rfl
  · rw [before_enqueue, Table.get?_insert]

@[simp] theorem findings_receive :
    (s.receive c g source target incoming).findings = s.findings := by
  rcases receive_cases c g s source target incoming with ⟨-, events, he⟩ | ⟨-, events, he⟩ <;>
    rw [he]
  · rfl
  · rw [findings_enqueue]
    rfl

/-- An update is counted when a recorded state changes, and not when the first one is recorded. -/
theorem updatesOf_receive (b : BlockId) :
    (s.receive c g source target incoming).updatesOf b =
      s.updatesOf b +
        if b = target ∧ (s.before.get? b).isSome ∧
          s.before.get? b ≠ some (s.merged c target incoming) then 1 else 0 := by
  rcases receive_cases c g s source target incoming with ⟨hsame, events, he⟩ | ⟨hne, events, he⟩ <;>
    rw [he]
  · grind [updatesOf]
  · simp only [updatesOf, updates_enqueue, updatesAfter]
    rcases hrec : s.before.get? target with _ | recorded
    · grind
    · simp only [Table.get?_insert]
      grind

theorem status_receive (b : BlockId) :
    (s.receive c g source target incoming).status b =
      if b = target ∧ s.before.get? target ≠ some (s.merged c target incoming) then .queued
      else s.status b := by
  rcases receive_cases c g s source target incoming with ⟨hsame, events, he⟩ | ⟨hne, events, he⟩ <;>
    rw [he]
  · simp [hsame, status]
  · rw [status_enqueue]
    simp [hne, status]

theorem queue_receive :
    (s.receive c g source target incoming).queue =
      if s.before.get? target = some (s.merged c target incoming) ∨ s.status target = .queued then
        s.queue
      else Worklist.push c.order g target s.queue := by
  rcases receive_cases c g s source target incoming with ⟨hsame, events, he⟩ | ⟨hne, events, he⟩ <;>
    rw [he]
  · simp [hsame]
  · rw [queue_enqueue]
    exact if_congr (by simp [hne, status]) rfl rfl

variable {s}

theorem QueueInv.mem_receive_iff (h : s.QueueInv) (x : BlockId) :
    x ∈ (s.receive c g source target incoming).queue ↔
      x ∈ s.queue ∨ x = target ∧ s.before.get? target ≠ some (s.merged c target incoming) := by
  rcases receive_cases c g s source target incoming with ⟨hsame, events, he⟩ | ⟨hne, events, he⟩ <;>
    rw [he]
  · simp [hsame]
  · have h' : QueueInv { s with
        before := s.before.insert target (s.merged c target incoming)
        updates := s.updatesAfter target
        events := events } := ⟨h.mem_iff, h.nodup⟩
    rw [h'.mem_enqueue_iff]
    grind

theorem QueueInv.receive (h : s.QueueInv) :
    (s.receive c g source target incoming).QueueInv := by
  rcases receive_cases c g s source target incoming with ⟨-, events, he⟩ | ⟨-, events, he⟩ <;>
    rw [he]
  · exact ⟨h.mem_iff, h.nodup⟩
  · exact QueueInv.enqueue _ _ _ ⟨h.mem_iff, h.nodup⟩

end Receive

/-! ## Delivering -/

section Deliver

variable (c : AnalysisConfig) (g : Graph) (source : BlockId)

/-- What every announcement and every delivery along an edge keeps, all deliveries keep. -/
theorem foldl_deliver_induction {P : RunState V S → Prop} :
    ∀ (sendings : List (Sending S)),
      (∀ s events, P s → P { s with events := events }) →
      (∀ s sending target state, sending ∈ sendings → sending.carried? = some (target, state) →
        P s → P (s.receive c g source target state)) →
      ∀ s, P s → P (sendings.foldl (deliver c g source) s)
  | [], _, _, s, h => h
  | sending :: rest, hevents, hreceive, s, h => by
    refine foldl_deliver_induction rest hevents
      (fun s x target state hx => hreceive s x target state (List.mem_cons_of_mem _ hx)) _ ?_
    cases sending with
    | normal target state =>
      exact hreceive s _ target state List.mem_cons_self rfl h
    | withheld branch rule => exact hevents s _ h
    | thrown e target state =>
      exact hreceive _ _ target state List.mem_cons_self rfl (hevents s _ h)

end Deliver

end RunState

end Dataflow

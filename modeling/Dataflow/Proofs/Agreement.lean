import Dataflow.Proofs.Priority

/-!
# Agreement on a part of a graph

Two states of runs agree on some blocks if the same of them wait, in the same order, and the same is
recorded of them and found at their nodes (`AgreeOn`). What is sent to other blocks keeps this
(`AgreeOn.deliverOutside`), and so does what both states are sent (`AgreeOn.deliver`).
-/

namespace Dataflow

variable {V S : Type}

/-- What a state of a run holds of one block. -/
structure BlockRecord (S : Type) where
  status : BlockStatus
  before : Option S
  updates : Nat
  after : Option (Outflow S)
  visits : Nat

namespace RunState

def blockRecord (s : RunState V S) (b : BlockId) : BlockRecord S :=
  ⟨s.status b, s.before.get? b, s.updatesOf b, s.after.get? b, s.visitsOf b⟩

theorem blockRecord_closed (s : RunState V S) (b x : BlockId) :
    (s.closed b).blockRecord x =
      if x = b ∧ s.status b = .processing then { s.blockRecord b with status := .stable }
      else s.blockRecord x := by
  unfold closed
  by_cases hb : s.status b = .processing
  · rw [if_pos hb]
    by_cases hx : x = b
    · subst hx
      rw [if_pos ⟨rfl, hb⟩]
      simp only [blockRecord, status_setStatus, if_true]
      rfl
    · rw [if_neg fun h => hx h.1]
      simp only [blockRecord, status_setStatus, if_neg hx]
      rfl
  · rw [if_neg hb, if_neg fun h => hb h.2]

theorem values_closed (s : RunState V S) (b : BlockId) : (s.closed b).values = s.values :=
  congrArg (·.2.1) (s.findings_closed b)

variable [DecidableEq S] [AbstractDomain S]

theorem values_receive (c : AnalysisConfig) (g : Graph) (s : RunState V S)
    (source target : BlockId) (incoming : S) :
    (s.receive c g source target incoming).values = s.values :=
  congrArg (·.2.1) (s.findings_receive c g source target incoming)

theorem blockRecord_receive (c : AnalysisConfig) (g : Graph) (s : RunState V S)
    (source target : BlockId) (incoming : S) (b : BlockId) :
    (s.receive c g source target incoming).blockRecord b =
      if b = target then
        { s.blockRecord target with
          status :=
            if s.before.get? target = some (s.merged c target incoming) then s.status target
            else .queued
          before := some (s.merged c target incoming)
          updates := s.updatesOf target +
            if (s.before.get? target).isSome ∧
              s.before.get? target ≠ some (s.merged c target incoming) then 1 else 0 }
      else s.blockRecord b := by
  have hfindings := findings_receive c g s source target incoming
  simp only [findings, Prod.mk.injEq] at hfindings
  have hvisits : (s.receive c g source target incoming).visitsOf b = s.visitsOf b := by
    rw [Solution.visitsOf, Solution.visitsOf, hfindings.2.2.2.1]
  simp only [blockRecord, status_receive, get?_before_receive, updatesOf_receive, hvisits,
    hfindings.1]
  by_cases hb : b = target
  · subst hb
    simp
  · simp [hb]

theorem blockRecord_opened (c : AnalysisConfig) (s : RunState V S) (v : BlockVisit V S)
    (b : BlockId) :
    (s.opened c v).blockRecord b =
      if b = v.block.id then
        { s.blockRecord b with
          status := .processing
          after := some v.outflow
          visits := s.visitsOf b + 1 }
      else s.blockRecord b := by
  rw [blockRecord, status_opened]
  by_cases hb : b = v.block.id
  · subst hb
    simp [blockRecord, opened, Solution.visitsOf, updatesOf]
  · simp [blockRecord, opened, Solution.visitsOf, updatesOf, Table.get?_insert, hb]

theorem merged_congr {c : AnalysisConfig} {s s' : RunState V S} {target : BlockId}
    (h : s.blockRecord target = s'.blockRecord target) (incoming : S) :
    s.merged c target incoming = s'.merged c target incoming := by
  simp only [blockRecord, BlockRecord.mk.injEq] at h
  simp only [merged, h.2.1, h.2.2.1]

end RunState

/-- The two states agree on the blocks `inside`. -/
structure AgreeOn (c : AnalysisConfig) (g : Graph) (inside : BlockId → Prop)
    [DecidablePred inside] (s s' : RunState V S) : Prop where
  sorted : s.Sorted c g
  sorted' : s'.Sorted c g
  queue : s.queue.filter (inside ·) = s'.queue.filter (inside ·)
  record : ∀ b, inside b → s.blockRecord b = s'.blockRecord b
  values : ∀ {n node}, g.node? n = some node → inside node.block →
    s.values.get? n = s'.values.get? n

namespace AgreeOn

variable {c : AnalysisConfig} {g : Graph} {inside : BlockId → Prop} [DecidablePred inside]
  {s s' s'' : RunState V S}

theorem refl (h : s.Sorted c g) : AgreeOn c g inside s s :=
  ⟨h, h, rfl, fun _ _ => rfl, fun _ _ => rfl⟩

theorem symm (h : AgreeOn c g inside s s') : AgreeOn c g inside s' s :=
  ⟨h.sorted', h.sorted, h.queue.symm, fun b hb => (h.record b hb).symm,
    fun hn hb => (h.values hn hb).symm⟩

theorem events (h : AgreeOn c g inside s s') (es : Array Event) :
    AgreeOn c g inside { s with events := es } s' :=
  ⟨h.sorted, h.sorted', h.queue, h.record, h.values⟩

/-- If both states visit a block inside next, it is the same one. -/
theorem head_eq (h : AgreeOn c g inside s s') {b b' : BlockId} {rest rest' : List BlockId}
    (hqueue : s.queue = b :: rest) (hqueue' : s'.queue = b' :: rest') (hb : inside b)
    (hb' : inside b') : b = b' ∧ rest.filter (inside ·) = rest'.filter (inside ·) := by
  simpa [hqueue, hqueue', hb, hb'] using h.queue

theorem not_inside_of_queue_eq_nil (h : AgreeOn c g inside s s') (hqueue : s.queue = []) :
    ∀ b ∈ s'.queue, ¬ inside b := by
  have hnone := h.queue.symm
  simpa [hqueue] using hnone

theorem closed (h : AgreeOn c g inside s s') (b : BlockId) :
    AgreeOn c g inside (s.closed b) (s'.closed b) where
  sorted := h.sorted.closed b
  sorted' := h.sorted'.closed b
  queue := by rw [RunState.queue_closed, RunState.queue_closed, h.queue]
  record := fun x hx => by
    have hrecord := h.record x hx
    rw [RunState.blockRecord_closed, RunState.blockRecord_closed]
    by_cases hxb : x = b
    · subst hxb
      have hstatus : s.status x = s'.status x := congrArg BlockRecord.status hrecord
      rw [hstatus, hrecord]
    · rw [if_neg fun h => hxb h.1, if_neg fun h => hxb h.1, hrecord]
  values := fun hn hb => by
    rw [RunState.values_closed, RunState.values_closed, h.values hn hb]

theorem closedOutside (h : AgreeOn c g inside s s') {b : BlockId} (hb : ¬ inside b) :
    AgreeOn c g inside (s.closed b) s' where
  sorted := h.sorted.closed b
  sorted' := h.sorted'
  queue := by rw [RunState.queue_closed, h.queue]
  record := fun x hx => by
    rw [RunState.blockRecord_closed, if_neg (by rintro ⟨rfl, -⟩; exact hb hx), h.record x hx]
  values := fun hn hx => by
    rw [RunState.values_closed, h.values hn hx]

variable [DecidableEq S] [AbstractDomain S]

theorem receiveOutside (h : AgreeOn c g inside s s') (source : BlockId) {target : BlockId}
    (htarget : ¬ inside target) (incoming : S) :
    AgreeOn c g inside (s.receive c g source target incoming) s' where
  sorted := h.sorted.receive source target incoming
  sorted' := h.sorted'
  queue := by
    rw [RunState.queue_receive, ← h.queue]
    split
    · rfl
    · rw [Worklist.filter_push h.sorted, if_neg (by simpa using htarget)]
  record := fun x hx => by
    rw [RunState.blockRecord_receive, if_neg (by rintro rfl; exact htarget hx), h.record x hx]
  values := fun hn hx => by
    rw [RunState.values_receive, h.values hn hx]

theorem receive (h : AgreeOn c g inside s s') (source target : BlockId) (incoming : S) :
    AgreeOn c g inside (s.receive c g source target incoming)
      (s'.receive c g source target incoming) := by
  by_cases htarget : inside target
  · have hrecord := h.record target htarget
    have hmerged := RunState.merged_congr (c := c) hrecord incoming
    have hstatus : s.status target = s'.status target := congrArg BlockRecord.status hrecord
    have hbefore : s.before.get? target = s'.before.get? target :=
      congrArg BlockRecord.before hrecord
    have hupdates : s.updatesOf target = s'.updatesOf target :=
      congrArg BlockRecord.updates hrecord
    refine ⟨h.sorted.receive _ _ _, h.sorted'.receive _ _ _, ?_, fun x hx => ?_,
      fun hn hx => ?_⟩
    · rw [RunState.queue_receive, RunState.queue_receive, hmerged, hstatus, hbefore]
      split
      · exact h.queue
      · rw [Worklist.filter_push h.sorted, Worklist.filter_push h.sorted', h.queue]
    · rw [RunState.blockRecord_receive, RunState.blockRecord_receive, hmerged, hstatus, hbefore,
        hupdates, hrecord, h.record x hx]
    · rw [RunState.values_receive, RunState.values_receive, h.values hn hx]
  · exact ((h.receiveOutside source htarget incoming).symm.receiveOutside source htarget
      incoming).symm

theorem deliver (source : BlockId) : ∀ (sendings : List (Sending S)) {s s' : RunState V S},
    AgreeOn c g inside s s' → AgreeOn c g inside
      (sendings.foldl (RunState.deliver c g source) s)
      (sendings.foldl (RunState.deliver c g source) s')
  | [], _, _, h => h
  | sending :: rest, _, _, h => by
    refine deliver source rest ?_
    cases sending with
    | normal target state => exact h.receive source target state
    | withheld branch rule => exact ((h.events _).symm.events _).symm
    | thrown e target state => exact (((h.events _).symm.events _).symm).receive source target state

theorem deliverOutside (h : AgreeOn c g inside s s') (source : BlockId)
    {sendings : List (Sending S)}
    (houtside : ∀ sending ∈ sendings, ∀ target state,
      sending.carried? = some (target, state) → ¬ inside target) :
    AgreeOn c g inside (sendings.foldl (RunState.deliver c g source) s) s' :=
  RunState.foldl_deliver_induction (P := (AgreeOn c g inside · s')) _ _ _ _
    (fun _ es h => h.events es)
    (fun _ sending target state hmem hcarried h =>
      h.receiveOutside source (houtside sending hmem target state hcarried) state) _ h

end AgreeOn

end Dataflow

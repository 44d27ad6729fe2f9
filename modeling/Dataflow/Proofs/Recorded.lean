import Dataflow.Proofs.RunInvariant

/-!
# Recorded states

What is recorded at a block starts with a state that comes there and grows by merging others that
come, as often as the updates of the block say. Whatever this keeps, all recorded states have
(`Reaches.recorded_induction`). A block is visited at most once for the first state and once for
every update (`Reaches.visits_le_updates`).
-/

namespace Dataflow

variable {V S : Type}

namespace RunState

variable {P : BlockId → Nat → S → Prop} {s : RunState V S}

@[simp] theorem updatesOf_closed (s : RunState V S) (b x : BlockId) :
    (s.closed b).updatesOf x = s.updatesOf x := by
  unfold closed
  split <;> rfl

/-- The recorded states and the numbers of their updates have the property; where no state is
recorded, no update has been counted. -/
structure Keeps (P : BlockId → Nat → S → Prop) (s : RunState V S) : Prop where
  recorded : ∀ {b x}, s.before.get? b = some x → P b (s.updatesOf b) x
  fresh : ∀ {b}, s.before.get? b = none → s.updatesOf b = 0

theorem Keeps.updatesOf_le (h : s.Keeps P) {bound : Nat} (hP : ∀ {b k x}, P b k x → k ≤ bound)
    (b : BlockId) : s.updatesOf b ≤ bound := by
  rcases hb : s.before.get? b with _ | x
  · rw [h.fresh hb]
    exact Nat.zero_le _
  · exact hP (h.recorded hb)

variable [DecidableEq S] [AbstractDomain S]

theorem Keeps.receive (h : s.Keeps P)
    {c : AnalysisConfig} (g : Graph) (source : BlockId) {target : BlockId} {incoming : S}
    (hfirst : P target 0 incoming)
    (hgrown : ∀ {k x}, P target k x → below incoming x = false →
      c.widening.merge x incoming k ≠ x → P target (k + 1) (c.widening.merge x incoming k)) :
    (s.receive c g source target incoming).Keeps P := by
  have hbefore := get?_before_receive c g s source target incoming
  have hupdates := updatesOf_receive c g s source target incoming
  refine ⟨fun {b x} hb => ?_, fun {b} hb => ?_⟩
  · rw [hbefore] at hb
    rw [hupdates]
    by_cases hbt : b = target
    · subst hbt
      rw [if_pos rfl, Option.some.injEq] at hb
      subst hb
      rcases hrec : s.before.get? b with _ | recorded
      · simpa [merged, hrec, h.fresh hrec] using hfirst
      · have hrecorded := h.recorded hrec
        by_cases hbelow : below incoming recorded
        · simpa [merged, hrec, hbelow] using hrecorded
        · by_cases hsame : c.widening.merge recorded incoming (s.updatesOf b) = recorded
          · simpa [merged, hrec, hbelow, hsame] using hrecorded
          · simpa [merged, hrec, hbelow, Ne.symm hsame] using
              hgrown hrecorded (Bool.eq_false_iff.2 hbelow) hsame
    · simpa [hbt] using h.recorded ((if_neg hbt).symm.trans hb)
  · rw [hbefore] at hb
    rw [hupdates]
    split at hb
    · cases hb
    · rw [h.fresh hb, if_neg (by simp_all)]

end RunState

variable [DecidableEq S] [AbstractDomain S]

namespace Analysis

variable {a : Analysis V S} {g : Graph} {visits : List (BlockVisit V S)} {s : RunState V S}

/-- What holds of the states that come to blocks and is kept by merging holds of the recorded
states, and of those that visits begin with. -/
theorem Reaches.recorded_induction (hg : g.WellFormed) {P : BlockId → Nat → S → Prop}
    {A : BlockId → S → Prop} (initial : A entryBlock (a.transfer.initial g))
    (first : ∀ {b x}, A b x → P b 0 x)
    (grown : ∀ {b k x y}, P b k x → A b y → AbstractDomain.below y x = false →
      a.config.widening.merge x y k ≠ x → P b (k + 1) (a.config.widening.merge x y k))
    (sent : ∀ {visits s v k}, a.Reaches g visits s → a.nextVisit? g s = some v →
      P v.block.id k v.entry → ∀ {e target}, (e, target) ∈ v.block.shape.edges →
        ∀ {state}, v.sent e = some state → A target state)
    (h : a.Reaches g visits s) :
    s.Keeps P ∧ ∀ v ∈ visits, ∃ k, P v.block.id k v.entry := by
  have hreceive : ∀ {s : RunState V S} source {target state}, s.Keeps P → A target state →
      (s.receive a.config g source target state).Keeps P :=
    fun source _ _ hs harrives =>
      hs.receive g source (first harrives) fun hk => grown hk harrives
  induction h with
  | start hstart =>
    obtain ⟨events, rfl⟩ := exists_of_start_eq_running hstart
    refine ⟨hreceive _ ⟨fun hb => ?_, fun _ => rfl⟩ initial, by simp⟩
    exact (Option.some_ne_none _ hb.symm).elim
  | @visit visits s v hs hv ih =>
    have hventry := ih.1.recorded (nextVisit_of_eq_some hg hv).entry
    refine ⟨?_, fun w hw => ?_⟩
    · have hdelivered := RunState.foldl_deliver_induction (P := RunState.Keeps P) a.config g
        v.block.id (Sending.all v.block.shape v.entry v.nodes) (fun _ _ h => ⟨h.recorded, h.fresh⟩)
        (fun _ sending target state hmem hcarried h => by
          obtain ⟨e, he, hsent⟩ := Sending.mem_carried_all_iff.1 ⟨sending, hmem, hcarried⟩
          exact hreceive _ h (sent hs hv hventry he hsent))
        (s.opened a.config v) ⟨ih.1.recorded, ih.1.fresh⟩
      exact ⟨fun hb => by
        rw [RunState.visited, RunState.before_closed] at hb
        rw [RunState.visited, RunState.updatesOf_closed]
        exact hdelivered.recorded hb, fun hb => by
        rw [RunState.visited, RunState.before_closed] at hb
        rw [RunState.visited, RunState.updatesOf_closed]
        exact hdelivered.fresh hb⟩
    · rcases List.mem_append.1 hw with hw | hw
      · exact ih.2 w hw
      · rw [List.mem_singleton.1 hw]
        exact ⟨_, hventry⟩

/-- A visit uses up the recording that made its block wait, which was the first one or an update. -/
theorem Reaches.visits_le_updates (hg : g.WellFormed) (h : a.Reaches g visits s) (b : BlockId) :
    visits.countP (·.block.id = b) + (if b ∈ s.queue then 1 else 0) ≤
      s.updatesOf b + if (s.before.get? b).isSome then 1 else 0 := by
  refine h.induction_runInv (P := fun visits s =>
    visits.countP (·.block.id = b) + (if b ∈ s.queue then 1 else 0) ≤
      s.updatesOf b + if (s.before.get? b).isSome then 1 else 0) hg ?_ ?_ ?_ ?_ ?_
  · simp [RunState.empty]
  · exact fun _ h => h
  · intro visits s source target state hinv _ h
    simp only [hinv.queueInv.mem_receive_iff, RunState.get?_before_receive,
      RunState.updatesOf_receive]
    grind
  · intro visits s v hinv hv h
    obtain ⟨rest, hqueue⟩ := (nextVisit_of_eq_some hg hv).queue
    have hnodup := hqueue ▸ hinv.queueInv.nodup
    rw [List.countP_append, List.countP_singleton]
    have hupdates : (s.opened a.config v).updatesOf b = s.updatesOf b := rfl
    simp only [RunState.opened, hqueue, List.tail_cons, decide_eq_true_eq] at h hupdates ⊢
    rw [hupdates]
    grind
  · intro visits s b' h
    simpa using h

end Analysis

end Dataflow

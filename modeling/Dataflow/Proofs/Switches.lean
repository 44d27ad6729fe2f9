import Dataflow.Proofs.Convergence
import Dataflow.Proofs.Lockstep

/-!
# What settings leave alone

Some settings decide whether a run finds a solution, and not which one. A cap on visits ends a run
at the first visit that is beyond it (`Analysis.FirstBeyond`), and up to there the run is the same
as without a cap. Refusing dead code keeps a run from starting. Recording the states before nodes
fills a table that no run reads.
-/

namespace Dataflow

variable {V S : Type}

/-! ## The states before nodes -/

namespace RunState

def withoutNodeStates (s : RunState V S) : RunState V S :=
  { s with nodeStates := .empty }

theorem enqueue_withoutNodeStates (order : WorklistOrder) (g : Graph) (s : RunState V S)
    (b : BlockId) :
    enqueue order g s.withoutNodeStates b = (enqueue order g s b).withoutNodeStates := by
  have hstatus : s.withoutNodeStates.status b = s.status b := rfl
  unfold enqueue
  rw [hstatus, apply_ite withoutNodeStates]
  rfl

theorem record_withoutNodeStates (order : WorklistOrder) (g : Graph) (s : RunState V S)
    (source target : BlockId) (state : S) :
    s.withoutNodeStates.record order g source target state =
      (s.record order g source target state).withoutNodeStates :=
  enqueue_withoutNodeStates order g
    { s.emit (.updated source target) with before := s.before.insert target state } target

theorem announce_withoutNodeStates (w : Widening) (s : RunState V S) (target : BlockId) :
    s.withoutNodeStates.announce w target = (s.announce w target).withoutNodeStates := by
  simp only [announce]
  rw [apply_ite withoutNodeStates, apply_ite withoutNodeStates]
  rfl

variable [DecidableEq S] [AbstractDomain S]

theorem receive_withoutNodeStates (c : AnalysisConfig) (g : Graph) (s : RunState V S)
    (source target : BlockId) (state : S) :
    s.withoutNodeStates.receive c g source target state =
      (s.receive c g source target state).withoutNodeStates := by
  have hbefore : s.withoutNodeStates.before = s.before := rfl
  have hupdates : s.withoutNodeStates.updatesOf target = s.updatesOf target := rfl
  simp only [receive, hbefore, hupdates, announce_withoutNodeStates]
  split
  · exact record_withoutNodeStates ..
  · rw [apply_ite withoutNodeStates, apply_ite withoutNodeStates, ← record_withoutNodeStates]
    rfl

theorem deliver_withoutNodeStates (c : AnalysisConfig) (g : Graph) (source : BlockId)
    (s : RunState V S) (sending : Sending S) :
    deliver c g source s.withoutNodeStates sending =
      (deliver c g source s sending).withoutNodeStates := by
  cases sending with
  | normal target state => exact receive_withoutNodeStates ..
  | withheld branch rule => rfl
  | thrown exception target state =>
    exact receive_withoutNodeStates c g (s.emit (.exceptionalEdge source exception target)) ..

/-- A pass that does not record the states before nodes does the same but for these. -/
theorem process_withoutNodeStates (t : Transfer V S) (c : AnalysisConfig) (g : Graph)
    (s : RunState V S) (b : Block) (entry : S) :
    s.withoutNodeStates.process t { c with recordNodeStores := false } g b entry =
      (s.process t c g b entry).withoutNodeStates := by
  let visits := t.pass g.nodes s.values entry (g.nodesOf b)
  let after (s : RunState V S) : RunState V S :=
    { s with after := s.after.insert b.id (Pass.outflow b.shape entry visits) }
  have hkept : visits.foldl (keepVisit { c with recordNodeStores := false }) s.withoutNodeStates =
      (visits.foldl (keepVisit c) s).withoutNodeStates :=
    List.foldl_hom withoutNodeStates fun _ _ => rfl
  have hdelivered : ∀ s : RunState V S,
      (Sending.all b.shape entry visits).foldl (deliver c g b.id) s.withoutNodeStates =
        ((Sending.all b.shape entry visits).foldl (deliver c g b.id) s).withoutNodeStates :=
    fun s => List.foldl_hom withoutNodeStates (deliver_withoutNodeStates c g b.id)
  have hclosed : ∀ s : RunState V S,
      s.withoutNodeStates.closed b.id = (s.closed b.id).withoutNodeStates := by
    intro s
    have hstatus : s.withoutNodeStates.status b.id = s.status b.id := rfl
    rw [closed, closed, hstatus, apply_ite withoutNodeStates]
    rfl
  -- Keeping what nodes have come to, sending and closing each leave the table alone.
  calc s.withoutNodeStates.process t { c with recordNodeStores := false } g b entry
    _ = ((Sending.all b.shape entry visits).foldl (deliver c g b.id)
          (after (visits.foldl (keepVisit { c with recordNodeStores := false })
            s.withoutNodeStates))).closed b.id := rfl
    _ = (((Sending.all b.shape entry visits).foldl (deliver c g b.id)
          (after (visits.foldl (keepVisit c) s))).closed b.id).withoutNodeStates := by
        rw [hkept, ← hclosed, ← hdelivered]
        rfl
    _ = (s.process t c g b entry).withoutNodeStates := rfl

end RunState

def Run.withoutNodeStates (r : Run V S) : Run V S :=
  { r with state := r.state.withoutNodeStates }

def Progress.withoutNodeStates : Progress V S → Progress V S
  | running s => running s.withoutNodeStates
  | ended r => ended r.withoutNodeStates

variable [DecidableEq S] [AbstractDomain S]

namespace Analysis

/-- The analysis with one setting changed. -/
def change (a : Analysis V S) (c : ConfigChange) : Analysis V S :=
  { a with config := a.config.apply c }

variable {a : Analysis V S} {g : Graph}

section Recording

variable (hnever : ∀ s, a.cancelled s = false)

theorem start_withoutNodeStates (a : Analysis V S) (g : Graph) :
    (a.change (.recordNodeStores false)).start g = (a.start g).withoutNodeStates := by
  have hstart : ∀ s : RunState V S, s.withoutNodeStates = s →
      RunState.receive (a.change (.recordNodeStores false)).config g s entryBlock entryBlock
          (a.transfer.initial g) =
        (s.receive a.config g entryBlock entryBlock (a.transfer.initial g)).withoutNodeStates := by
    intro s hs
    rw [← RunState.receive_withoutNodeStates, hs]
    rfl
  have hpolicy : (a.change (.recordNodeStores false)).config.deadBlocks = a.config.deadBlocks := rfl
  unfold start
  rw [hpolicy]
  rcases a.config.deadBlocks with _ | _ <;> rcases g.deadCode with _ | ⟨first, rest⟩
  · exact congrArg Progress.running (hstart _ rfl)
  · exact congrArg Progress.running (hstart _ rfl)
  · exact congrArg Progress.running (hstart _ rfl)
  · rfl

theorem visitBlock_withoutNodeStates (a : Analysis V S) (g : Graph) (s : RunState V S)
    (b : BlockId) :
    (a.change (.recordNodeStores false)).visitBlock g s.withoutNodeStates b =
      (a.visitBlock g s b).withoutNodeStates := by
  have hvisits : s.withoutNodeStates.visitsOf b = s.visitsOf b := rfl
  have hbefore : s.withoutNodeStates.before = s.before := rfl
  have hcap : (a.change (.recordNodeStores false)).config.exceeded = a.config.exceeded := rfl
  simp only [visitBlock, hvisits, hcap]
  split
  · rfl
  · rcases hblock : g.block? b with _ | block
    · rfl
    · rcases hentry : s.before.get? b with _ | entry <;>
        simp only [RunState.setStatus, hbefore, hentry]
      · rfl
      · rw [Progress.withoutNodeStates, ← RunState.process_withoutNodeStates]
        rfl

include hnever

theorem step_withoutNodeStates (g : Graph) (s : RunState V S) :
    (a.change (.recordNodeStores false)).step g s.withoutNodeStates =
      (a.step g s).withoutNodeStates := by
  rcases hqueue : s.queue with _ | ⟨b, rest⟩
  · have hqueue' : s.withoutNodeStates.queue = [] := hqueue
    rw [step, step, hqueue, hqueue']
    rfl
  · have hqueue' : s.withoutNodeStates.queue = b :: rest := hqueue
    have hnever' : ∀ s, (a.change (.recordNodeStores false)).cancelled s = false := hnever
    simp only [step, hqueue, hqueue', hnever, hnever', Bool.false_eq_true, if_false]
    exact visitBlock_withoutNodeStates a g { s with queue := rest } b

theorem runFor_withoutNodeStates (g : Graph) (fuel : Nat) :
    (a.change (.recordNodeStores false)).runFor g fuel =
      (a.runFor g fuel).map Run.withoutNodeStates := by
  have hfrom : ∀ fuel p, (a.change (.recordNodeStores false)).runFrom g fuel p.withoutNodeStates =
      (a.runFrom g fuel p).map Run.withoutNodeStates := by
    intro fuel
    induction fuel with
    | zero => rintro (s | r) <;> rfl
    | succ fuel ih =>
      rintro (s | r)
      · rw [Progress.withoutNodeStates, runFrom, runFrom, step_withoutNodeStates hnever]
        exact ih _
      · rfl
  rw [runFor, start_withoutNodeStates]
  exact hfrom fuel _

end Recording

/-! ## Caps on visits -/

abbrev capped (a : Analysis V S) (m : Nat) : Analysis V S :=
  a.change (.maxBlockVisits (some m))

abbrev uncapped (a : Analysis V S) : Analysis V S :=
  a.change (.maxBlockVisits none)

/-- The run visits no block more often than this. -/
def VisitsWithin (a : Analysis V S) (g : Graph) (m : Nat) : Prop :=
  ∀ fuel b, (a.visitsFor g fuel).countP (·.block.id = b) ≤ m

/-- The run makes these visits, of no block too many, and then one that is one too many. -/
structure FirstBeyond (a : Analysis V S) (g : Graph) (m : Nat) (visits : List (BlockVisit V S))
    (v : BlockVisit V S) : Prop where
  visitsFor_eq : a.visitsFor g (visits.length + 1) = visits ++ [v]
  countP_le : ∀ b, visits.countP (·.block.id = b) ≤ m
  countP_eq : visits.countP (·.block.id = v.block.id) = m

/-- What comes of a run with a cap on visits: the result of the run without a cap, or an error at
the first visit beyond. -/
structure CapOutcome (a : Analysis V S) (g : Graph) (m : Nat) (r : Run V S) : Prop where
  ends : ∀ fuel, g.blocks.size * m < fuel → (a.capped m).runFor g fuel = some r
  ok_iff : (∃ sol, r.result = .ok sol) ↔ ¬a.Refuses g ∧ a.uncapped.VisitsWithin g m
  greater_cap : ∀ sol, r.result = .ok sol → ∀ cap, (∀ m' ∈ cap, m ≤ m') →
    ∀ fuel, g.blocks.size * m < fuel → (a.change (.maxBlockVisits cap)).runFor g fuel = some r
  fails : ¬a.Refuses g → ¬a.uncapped.VisitsWithin g m → ∃ visits v,
    a.uncapped.FirstBeyond g m visits v ∧
      r.result = .error (.nonConvergence v.block.id (m + 1)) ∧
      ∀ fuel, g.blocks.size * m < fuel → (a.capped m).visitsFor g fuel = visits

variable {m : Nat} {visits : List (BlockVisit V S)} {s : RunState V S} {v : BlockVisit V S}

theorem FirstBeyond.not_visitsWithin (h : a.FirstBeyond g m visits v) : ¬a.VisitsWithin g m := by
  intro hwithin
  have hcount := hwithin (visits.length + 1) v.block.id
  rw [h.visitsFor_eq, List.countP_append, h.countP_eq] at hcount
  simp at hcount

theorem Reaches.countP_le_cap (hg : g.WellFormed) (hcap : a.config.maxBlockVisits = some m)
    (h : a.Reaches g visits s) (b : BlockId) : visits.countP (·.block.id = b) ≤ m := by
  induction h with
  | start => exact Nat.zero_le m
  | @visit visits s v hs hv ih =>
    rw [List.countP_append, List.countP_singleton]
    split_ifs with hb
    · obtain ⟨b', rest, -, hblock, -, -, -, hgoes⟩ := nextVisit?_eq_some hv
      obtain rfl : v.block.id = b := of_decide_eq_true hb
      obtain rfl : v.block.id = b' := hg.block_id hblock
      rw [← hs.accounts.visitsOf]
      simpa [AnalysisConfig.exceeded, hcap] using hgoes
    · exact ih

/-- A run with a greater cap makes the same visits, for it stops no earlier. -/
theorem Reaches.raise_cap (hg : g.WellFormed) (h : (a.capped m).Reaches g visits s)
    {cap : Option Nat} (hcap : ∀ m' ∈ cap, m ≤ m') :
    (a.change (.maxBlockVisits cap)).Reaches g visits s := by
  have hstarts : ¬(a.capped m).Refuses g := h.not_refuses hg
  refine h.follow hg ⟨rfl, rfl, rfl, rfl⟩ hstarts ?_
  rintro earlier s' v hs' hv - ⟨b, hb, hcancelled | hexceeded⟩
  · exact not_stops_of_nextVisit? hv ⟨b, hb, .inl hcancelled⟩
  · obtain ⟨m', hm', hlt⟩ := (Option.any_eq_true _ _).1 hexceeded
    refine not_stops_of_nextVisit? hv ⟨b, hb, .inr ?_⟩
    exact decide_eq_true (Nat.lt_of_le_of_lt (hcap m' hm') (of_decide_eq_true hlt))

/-- If nothing waits any more, these visits are all. -/
theorem visitsWithin_of_finished (hg : g.WellFormed) (h : a.Reaches g visits s)
    (hqueue : s.queue = []) (hcount : ∀ b, visits.countP (·.block.id = b) ≤ m) :
    a.VisitsWithin g m := by
  intro fuel b
  have hlast := (h.runFor_of_step_eq_ended hg (step_of_queue_eq_nil hqueue)
    (Nat.lt_succ_of_le (Nat.le_add_right visits.length fuel))).2
  have hpre : a.visitsFor g fuel <+: visits := by
    rw [← hlast]
    exact visitsFrom_isPrefix a g (by omega) _
  exact (hpre.sublist.countP_le).trans (hcount b)

/-- Without a cap the run goes on with the visit for which the cap would end it. -/
theorem exists_firstBeyond (hg : g.WellFormed) (hnever : ∀ s, a.cancelled s = false)
    (h : a.uncapped.Reaches g visits s) (hcount : ∀ b, visits.countP (·.block.id = b) ≤ m)
    {b : BlockId} (hb : b ∈ s.queue.head?) (hexceeded : m < s.visitsOf b + 1) :
    s.visitsOf b = m ∧ ∃ v, v.block.id = b ∧ a.uncapped.FirstBeyond g m visits v := by
  have hvisits := h.accounts.visitsOf b
  have hm : s.visitsOf b = m := by
    have := hcount b
    omega
  have hgoes : ¬a.uncapped.Stops s := by
    rintro ⟨b, -, hcancelled | hexceeded⟩
    · exact absurd hcancelled (Bool.eq_false_iff.1 (hnever _))
    · cases hexceeded
  obtain ⟨v, hv, hblock⟩ := (h.runInv hg).exists_nextVisit? hb hgoes
  obtain rfl : v.block.id = b := hg.block_id hblock
  refine ⟨hm, v, rfl, ?_, hcount, hvisits ▸ hm⟩
  simpa using (h.visit hv).visitsFor_length hg

theorem Refuses.exists_capOutcome (hg : g.WellFormed) (h : a.Refuses g) (m : Nat) :
    ∃ r, a.CapOutcome g m r := by
  have hrefuses : (a.capped m).Refuses g := h
  obtain ⟨b, -, hstart⟩ := hrefuses.start hg
  refine ⟨⟨.empty, some (.unreachableBlock b)⟩, fun fuel _ => ?_, ?_, nofun,
    fun hne => absurd h hne⟩
  · rw [runFor, hstart, runFrom_ended]
  · simp [h, Run.result]

theorem exists_capOutcome (hg : g.WellFormed) (hnever : ∀ s, a.cancelled s = false) (m : Nat) :
    ∃ r, a.CapOutcome g m r := by
  by_cases hrefuses : a.Refuses g
  · exact hrefuses.exists_capOutcome hg m
  have hstarts : ¬(a.capped m).Refuses g := hrefuses
  have hlength : ∀ {visits s}, (a.capped m).Reaches g visits s →
      visits.length ≤ g.blocks.size * m :=
    fun hs => hs.length_le_of_countP_le hg (hs.countP_le_cap hg rfl)
  obtain ⟨r, hrun⟩ := exists_runFor_of_length_le hg hlength (Nat.lt_succ_self _)
  obtain ⟨visits, s, hs, hstep⟩ := exists_step_of_runFor hg hstarts hrun
  -- This is where the run with the cap ends; the one without has come here by the same visits.
  have hlength := hlength hs
  have hcount := hs.countP_le_cap hg rfl
  have huncapped : a.uncapped.Reaches g visits s := hs.raise_cap hg nofun
  have hends : ∀ fuel, g.blocks.size * m < fuel →
      (a.capped m).runFor g fuel = some r ∧ (a.capped m).visitsFor g fuel = visits :=
    fun fuel hfuel => hs.runFor_of_step_eq_ended hg hstep (hlength.trans_lt hfuel)
  cases ends_of_step_eq_ended hstep with
  | finished hqueue =>
    have hwithin := visitsWithin_of_finished hg huncapped hqueue hcount
    refine ⟨_, fun fuel hfuel => (hends fuel hfuel).1, ?_, fun sol _ cap hcap fuel hfuel => ?_,
      fun _ h => absurd hwithin h⟩
    · simp [hrefuses, hwithin, Run.result]
    · exact ((hs.raise_cap hg hcap).runFor_of_step_eq_ended hg (step_of_queue_eq_nil hqueue)
        (hlength.trans_lt hfuel)).1
  | cancelled _ hcancelled => exact absurd hcancelled (Bool.eq_false_iff.1 (hnever _))
  | @exceeded b rest hqueue hexceeded =>
    obtain ⟨hm, v, rfl, hbeyond⟩ := exists_firstBeyond hg hnever huncapped hcount
      (by simp [hqueue]) (of_decide_eq_true hexceeded)
    refine ⟨_, fun fuel hfuel => (hends fuel hfuel).1, ?_, nofun, fun _ _ => ⟨visits, v, hbeyond,
      ?_, fun fuel hfuel => (hends fuel hfuel).2⟩⟩
    · simp [Run.result, hbeyond.not_visitsWithin]
    · rw [hm]
      rfl

/-! ## Dead code -/

/-- Where there is no dead code it does not matter what is done about it. -/
theorem runFor_reject_eq_skip (hg : g.WellFormed) (a : Analysis V S) (hlive : ∀ b, ¬g.IsDeadCode b)
    (fuel : Nat) :
    (a.change (.deadBlocks .reject)).runFor g fuel =
      (a.change (.deadBlocks .skip)).runFor g fuel := by
  have hsame : SameCourse (a.change (.deadBlocks .skip)) (a.change (.deadBlocks .reject)) :=
    ⟨rfl, rfl, rfl, rfl⟩
  have hstart : (a.change (.deadBlocks .reject)).start g =
      (a.change (.deadBlocks .skip)).start g := by
    rw [start_of_not_refuses hg fun h => h.2.elim hlive, hsame.firstState,
      start_of_not_refuses hg fun h => h.2.elim hlive]
  exact hsame.runFor_eq hg hstart (fun _ _ _ => ⟨rfl, rfl⟩) fuel

end Analysis

/-- The settings that decide whether there is a solution do not change it. A run with a cap on
visits ends, with the result of the run without a cap or at the first visit beyond. Recording the
states before nodes changes the table of these states only. Refusing dead code is of no consequence
where there is none, and otherwise fails for the first such block with no block visited. -/
theorem switches_of_build {operations : List Operation} {g : Graph}
    (hbuild : Graph.build operations = .ok g) {a : Analysis V S}
    (hnever : ∀ s, a.cancelled s = false) :
    (∀ m, ∃ r, (a.capped m).run g = some r ∧ a.CapOutcome g m r) ∧
    (∀ fuel, (a.change (.recordNodeStores false)).runFor g fuel =
      ((a.change (.recordNodeStores true)).runFor g fuel).map Run.withoutNodeStates) ∧
    ((∀ b, ¬g.IsDeadCode b) → ∀ fuel, (a.change (.deadBlocks .reject)).runFor g fuel =
      (a.change (.deadBlocks .skip)).runFor g fuel) ∧
    ((∃ b, g.IsDeadCode b) → ∃ b, IsLeast {b | g.IsDeadCode b} b ∧
      ∀ fuel, (a.change (.deadBlocks .reject)).visitsFor g fuel = [] ∧
        (a.change (.deadBlocks .reject)).runFor g fuel =
          some ⟨.empty, some (.unreachableBlock b)⟩) := by
  have hg := wellFormed_of_build hbuild
  refine ⟨fun m => ?_, fun fuel => ?_, Analysis.runFor_reject_eq_skip hg a, fun hdead => ?_⟩
  · obtain ⟨r, hr⟩ := Analysis.exists_capOutcome hg hnever m
    exact ⟨r, hr.ends _ (Nat.lt_succ_self _), hr⟩
  · exact Analysis.runFor_withoutNodeStates (a := a.change (.recordNodeStores true)) hnever g fuel
  · have hrefuses : (a.change (.deadBlocks .reject)).Refuses g := ⟨rfl, hdead⟩
    obtain ⟨b, hleast, hstart⟩ := hrefuses.start hg
    refine ⟨b, hleast, fun fuel => ?_⟩
    rw [Analysis.visitsFor, Analysis.runFor, hstart, Analysis.visitsFrom_ended,
      Analysis.runFrom_ended]
    exact ⟨rfl, rfl⟩

/-- A loop that counts, and a block that nothing leads to. -/
def abandonedLoop : List Operation :=
  countingLoop ++ [.addRegular, .connect 5 3]

def abandonedLoopGraph : Graph :=
  .ofTables (countingLoopGraph.blocks.push ⟨5, .regular [] 3⟩) countingLoopGraph.nodes

theorem build_abandonedLoop : Graph.build abandonedLoop = .ok abandonedLoopGraph := rfl

/-- Counting without a limit, the loop is left at its third visit if two are allowed. With dead code
refused, it is not visited at all. -/
theorem switches_abandonedLoop :
    let a := countingFromZero none {}
    ∃ g r visits v, Graph.build abandonedLoop = .ok g ∧ (a.capped 2).run g = some r ∧
      r.result = .error (.nonConvergence 3 3) ∧ a.uncapped.FirstBeyond g 2 visits v ∧
      v.block.id = 3 ∧ (∀ fuel, (a.change (.deadBlocks .reject)).runFor g fuel =
        some ⟨.empty, some (.unreachableBlock 5)⟩) := by
  intro a
  obtain ⟨hcap, -, -, hreject⟩ := switches_of_build build_abandonedLoop (a := a) fun _ => rfl
  obtain ⟨r, hr, houtcome⟩ := hcap 2
  have hfails : ((a.capped 2).run abandonedLoopGraph).any fun r =>
      r.failure = some (.nonConvergence 3 3) := by decide +kernel
  rw [hr, Option.any_some, decide_eq_true_iff] at hfails
  have hresult : r.result = .error (.nonConvergence 3 3) := by rw [Run.result, hfails]
  have hstarts : ¬a.Refuses abandonedLoopGraph := fun h => nomatch h.1
  have hbeyond : ¬a.uncapped.VisitsWithin abandonedLoopGraph 2 := fun hwithin => by
    obtain ⟨sol, hsol⟩ := houtcome.ok_iff.2 ⟨hstarts, hwithin⟩
    cases hresult.symm.trans hsol
  obtain ⟨visits, v, hfirst, herror, -⟩ := houtcome.fails hstarts hbeyond
  have hv : v.block.id = 3 :=
    (AnalysisError.nonConvergence.inj (Except.error.inj (hresult.symm.trans herror))).1.symm
  have hwf := wellFormed_of_build build_abandonedLoop
  have hdead : ∀ b, abandonedLoopGraph.IsDeadCode b ↔ b = 5 := fun b => by
    have hcode : abandonedLoopGraph.deadCode = [5] := by decide +kernel
    rw [← hwf.mem_deadCode_iff, hcode, List.mem_singleton]
  obtain ⟨b, hleast, hrefused⟩ := hreject ⟨5, (hdead 5).2 rfl⟩
  obtain rfl : b = 5 := (hdead b).1 hleast.1
  exact ⟨_, r, visits, v, build_abandonedLoop, hr, hresult, hfirst, hv,
    fun fuel => (hrefused fuel).2⟩

end Dataflow

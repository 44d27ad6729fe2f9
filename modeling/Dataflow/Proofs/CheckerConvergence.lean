import Dataflow.Proofs.CheckerFrames
import Dataflow.Proofs.Convergence
import Dataflow.Proofs.Reevaluation

/-!
# The checkers converge

An analysis of variables that keeps the frame of its initial store moves the recorded stores up a
ranking of finite height at every update, so that the number of variables bounds the visits
(`Framed.convergesWithin`), whether or not it is monotone. All stores that it finds bind the names
that the initial store binds (`Framed.bindsExactly`).
-/

namespace Dataflow

/-! ## What stores bind -/

section Binds

variable {U V : Type}

def VarStore.BindsExactly (s : VarStore V) (names : List String) : Prop :=
  ∀ x, x ∈ s.names ↔ x ∈ names

/-- All stores of a solution bind these names and no others. -/
structure Solution.BindsExactly (sol : Solution U (VarStore V)) (names : List String) : Prop where
  before : ∀ {b s}, sol.stateBefore? b = some s → s.BindsExactly names
  after : ∀ {b out}, sol.outflow? b = some out →
    out.thenState.BindsExactly names ∧ out.elseState.BindsExactly names
  nodes : ∀ {n s}, sol.stateBeforeNode? n = some s → s.BindsExactly names

/-- All stores of the solution that a run finds, and all that the run visits nodes with, bind these
names and no others. -/
def Analysis.BindsExactly [DecidableEq V] [ValueDomain V] (a : Analysis U (VarStore V)) (g : Graph)
    (names : List String) : Prop :=
  ∀ {fuel r sol}, a.runFor g fuel = some r → r.result = .ok sol →
    sol.BindsExactly names ∧
      ∀ v ∈ a.visitsFor g fuel, ∀ w ∈ v.nodes, w.state.BindsExactly names

end Binds

/-! ## Analyses over a frame -/

section Framed

variable {U V : Type} [DecidableEq V] [ValueDomain V]

/-- The analysis starts with a store over the frame, and every visit leaves stores over it. -/
structure Analysis.Framed (a : Analysis U (VarStore V)) (g : Graph) (vars : List String)
    (base : VarStore V) : Prop where
  initial : (a.transfer.initial g).Frames vars base
  respects : ∃ reads, a.transfer.Respects g reads (VarStore.overFrame vars base)

namespace Analysis.Framed

variable {a : Analysis U (VarStore V)} {g : Graph} {vars : List String} {base : VarStore V}
  (h : a.Framed g vars base) (hg : g.WellFormed)

include h hg

section Visit

variable {b : BlockId} {block : Block} (hb : g.block? b = some block) {entry : VarStore V}
  (hentry : entry.Frames vars base) (values : Table U)

include hb hentry

theorem frames_sent {e : Edge} {target : BlockId} (he : (e, target) ∈ block.shape.edges)
    {state : VarStore V}
    (hsent : Pass.sent block.shape entry
      (a.transfer.pass g.nodes values entry (g.nodesOf block)) e = some state) :
    state.Frames vars base := by
  obtain ⟨reads, hrespects⟩ := h.respects
  have hout := hrespects.sent hg hb hentry.state_overFrame
    (VarStore.offered_overFrame vars base g reads block values) he (fun _ => hsent)
  exact hout.frames ()

theorem frames_outflow :
    (Pass.outflow block.shape entry
      (a.transfer.pass g.nodes values entry (g.nodesOf block))).thenState.Frames vars base ∧
    (Pass.outflow block.shape entry
      (a.transfer.pass g.nodes values entry (g.nodesOf block))).elseState.Frames vars base := by
  obtain ⟨reads, hrespects⟩ := h.respects
  obtain ⟨hthen, helse⟩ := hrespects.outflow_pass hg hb hentry.state_overFrame
    (VarStore.offered_overFrame vars base g reads block values)
  exact ⟨hthen.frames (), helse.frames ()⟩

theorem frames_visit {w : NodeVisit U (VarStore V)}
    (hw : w ∈ a.transfer.pass g.nodes values entry (g.nodesOf block)) :
    w.state.Frames vars base := by
  obtain ⟨reads, hrespects⟩ := h.respects
  obtain ⟨visits, hpass, hvisits, -⟩ := hrespects.exists_blockVisits hg hb
    hentry.state_overFrame (VarStore.offered_overFrame vars base g reads block values)
  rw [← hpass (), List.mem_map] at hw
  obtain ⟨F, hF, rfl⟩ := hw
  obtain ⟨n, hn⟩ := hvisits F hF
  exact hn.state.frames ()

end Visit

section Ranked

variable {height : Nat} (r : Ranking V height)

include r

theorem keeps {visits : List (BlockVisit U (VarStore V))} {s : RunState U (VarStore V)}
    (hs : a.Reaches g visits s) :
    s.Keeps (fun _ k x => x.Frames vars base ∧ k ≤ r.storeRank vars x) ∧
      ∀ v ∈ visits, v.entry.Frames vars base := by
  have hkept := hs.recorded_induction hg
    (P := fun _ k x => x.Frames vars base ∧ k ≤ r.storeRank vars x)
    (A := fun _ x => x.Frames vars base) h.initial (fun hx => ⟨hx, Nat.zero_le _⟩)
    (fun {b k x y} hx hy _ hne => by
      rw [VarStore.merge_eq_combine] at hne ⊢
      have hrank := r.storeRank_lt hx.1 hy _ _ hne
      exact ⟨hx.1.combine hy (r.merge_self _ _), hx.2.trans_lt hrank⟩)
    (fun {visits s v k} _ hv hx {e target} he {state} hsent => by
      obtain ⟨b, rest, -, hblock, -, hnodes, -⟩ := nextVisit?_eq_some hv
      rw [BlockVisit.sent, hnodes] at hsent
      exact h.frames_sent hg hblock hx.1 _ he hsent)
  exact ⟨hkept.1, fun v hv => (hkept.2 v hv).elim fun _ hx => hx.1⟩

theorem convergesWithin (hfree : a.Unhindered (vars.length * height + 1)) :
    a.ConvergesWithin g (vars.length * height + 1) :=
  convergesWithin_of_updatesOf_le hg
    (fun hs => (h.keeps hg r hs).1.updatesOf_le fun hx => hx.2.trans (r.storeRank_le vars _)) hfree

theorem bindsExactly {names : List String} (hnames : ∀ x, x ∈ names ↔ x ∈ vars ∨ x ∈ base.names) :
    a.BindsExactly g names := by
  intro fuel run sol hrun hsol
  obtain ⟨s, hs, -, rfl⟩ := reaches_of_result_eq_ok hg hrun hsol
  obtain ⟨hkeeps, hentries⟩ := h.keeps hg r hs
  have hinv := hs.runInv hg
  have hexact : ∀ {x : VarStore V}, x.Frames vars base → x.BindsExactly names :=
    fun hx y => hx.mem_names_iff.trans (hnames y).symm
  have hvisit : ∀ v ∈ a.visitsFor g fuel, ∀ w ∈ v.nodes, w.state.BindsExactly names := by
    intro v hv w hw
    obtain ⟨values, hnodes⟩ := hinv.visited_nodes v hv
    rw [hnodes] at hw
    exact hexact (h.frames_visit hg (hinv.visited_block v hv) (hentries v hv) values hw)
  refine ⟨⟨fun hb => hexact (hkeeps.recorded hb).1, fun {b out} hout => ?_, fun {n x} hx => ?_⟩,
    hvisit⟩
  · rw [Solution.outflow?, hs.accounts.after] at hout
    obtain ⟨v, hv, rfl⟩ := Option.map_eq_some_iff.1 hout
    obtain ⟨hmem, -⟩ := mem_of_lastVisit?_eq_some hv
    obtain ⟨values, hnodes⟩ := hinv.visited_nodes v hmem
    rw [BlockVisit.outflow, hnodes]
    obtain ⟨hthen, helse⟩ :=
      h.frames_outflow hg (hinv.visited_block v hmem) (hentries v hmem) values
    exact ⟨hexact hthen, hexact helse⟩
  · obtain ⟨v, hv, w, hw, -, rfl⟩ := hs.accounts.nodeStates hx
    exact hvisit v hv w hw

end Ranked

end Analysis.Framed

end Framed

/-! ## The checkers -/

theorem Graph.size_variableNames (g : Graph) :
    g.variableNames.size = g.variableNames.toList.length :=
  (List.length_map _).symm

theorem ConstantChecker.framed {a : Analysis Constant (VarStore Constant)} (c : ConstantChecker)
    (h : a.transfer = c.transfer) (g : Graph) :
    a.Framed g g.variableNames.toList (c.initial g) where
  initial := by
    rw [h]
    exact c.frames_initial g
  respects := ⟨_, h ▸ c.respects_frames g _⟩

theorem NullnessChecker.framed {a : Analysis Nullness (VarStore Nullness)} (c : NullnessChecker)
    (h : a.transfer = c.transfer) (g : Graph) :
    a.Framed g g.variableNames.toList (c.initial g) where
  initial := by
    rw [h]
    exact c.frames_initial g
  respects := ⟨_, h ▸ respects (fun _ => trivial) (fun _ _ => trivial) c g _⟩

/-- Constant propagation finds a solution with at most two visits of a block for every variable and
one more, and the nullness check with at most one for every variable and one more, whatever is
declared and however they widen. No store of theirs binds other names than the variables of the
graph and those that are declared, or lacks one. -/
theorem checkers_converge {operations : List Operation} {g : Graph}
    (hg : Graph.build operations = .ok g) :
    (∀ (c : ConstantChecker) (a : Analysis Constant (VarStore Constant)),
      a.transfer = c.transfer → a.Unhindered (2 * g.variableNames.size + 1) →
        a.ConvergesWithin g (2 * g.variableNames.size + 1) ∧
          a.BindsExactly g (g.variableNames.toList ++ c.arguments.names)) ∧
    ∀ (c : NullnessChecker) (a : Analysis Nullness (VarStore Nullness)),
      a.transfer = c.transfer → a.Unhindered (g.variableNames.size + 1) →
        a.ConvergesWithin g (g.variableNames.size + 1) ∧
          a.BindsExactly g (g.variableNames.toList ++ c.parameters.toList) := by
  have hwf := wellFormed_of_build hg
  rw [g.size_variableNames]
  refine ⟨fun c a htransfer hfree => ?_, fun c a htransfer hfree => ?_⟩
  · have hframed := c.framed htransfer g
    rw [Nat.mul_comm] at hfree ⊢
    refine ⟨hframed.convergesWithin hwf Flat.ranking hfree,
      hframed.bindsExactly hwf Flat.ranking fun x => ?_⟩
    rw [List.mem_append, c.mem_names_initial]
    tauto
  · have hframed := c.framed htransfer g
    rw [← Nat.mul_one g.variableNames.toList.length] at hfree ⊢
    refine ⟨hframed.convergesWithin hwf Nullness.ranking hfree,
      hframed.bindsExactly hwf Nullness.ranking fun x => ?_⟩
    rw [List.mem_append, c.mem_names_initial]
    tauto

/-- Both checkers converge on a loop that reads a variable before it sets it, under caps that allow
no visit more. -/
theorem checkers_converge_rereadLoop :
    let constants : Analysis Constant (VarStore Constant) :=
      { transfer := ConstantChecker.transfer {}, config := { maxBlockVisits := some 3 } }
    let nullness : Analysis Nullness (VarStore Nullness) :=
      { transfer := NullnessChecker.transfer {},
        config := { maxBlockVisits := some 2, widening := .always, order := .fifo } }
    constants.ConvergesWithin rereadLoopGraph (2 * rereadLoopGraph.variableNames.size + 1) ∧
      constants.BindsExactly rereadLoopGraph
        (rereadLoopGraph.variableNames.toList ++ VarStore.names (.empty : VarStore Int64)) ∧
      nullness.ConvergesWithin rereadLoopGraph (rereadLoopGraph.variableNames.size + 1) ∧
      nullness.BindsExactly rereadLoopGraph
        (rereadLoopGraph.variableNames.toList ++ NameSet.empty.toList) := by
  intro constants nullness
  have hsize : rereadLoopGraph.variableNames.size = 1 := by decide
  have hconverge := checkers_converge build_rereadLoop
  have hconstants := hconverge.1 {} constants rfl
    ⟨rfl, fun _ => rfl, fun hcap => by rw [hsize]; exact (Option.some.inj hcap).le⟩
  have hnullness := hconverge.2 {} nullness rfl
    ⟨rfl, fun _ => rfl, fun hcap => by rw [hsize]; exact (Option.some.inj hcap).le⟩
  exact ⟨hconstants.1, hconstants.2, hnullness.1, hnullness.2⟩

end Dataflow

import Dataflow.Proofs.CheckerConvergence
import Dataflow.Proofs.LivePart
import Dataflow.Proofs.NullReport

/-!
# Nullness over paths

Where the value of every assignment comes from the assignment's own block, what a block sends is a
function of its entry store that commutes with joins, variable by variable. A solution of the
nullness check then loses nothing to joining stores where paths meet: a variable may be null at a
block exactly if some path leaves it so (`NullnessChecker.exact_over_paths`).
-/

namespace Dataflow

/-- The join of these states; of none, the state at the entry. -/
def joinedStates {S : Type} [DecidableEq S] [AbstractDomain S] (entry : S) : List S → S
  | [] => entry
  | first :: rest => rest.foldl join first

/-- The value of every assignment comes from the block of the assignment. -/
def Graph.AssignsOwnValues (g : Graph) : Prop :=
  ∀ n ∈ g.nodes, ∀ x o, n.kind = .assignment x o → ∃ m, g.node? o = some m ∧ m.block = n.block

/-! ## Along paths -/

section Along

variable {V S : Type} [DecidableEq S] [AbstractDomain S] (t : Transfer V S) (g : Graph)

/-- What the edges of a path, one after the other, make of the initial state. -/
def Transfer.stateAlong : List (BlockId × Edge) → Option S
  | [] => some (t.initial g)
  | (b, e) :: path =>
    (g.block? b).bind fun block => (stateAlong path).bind fun state => t.sentFrom g block state e

variable {g}

theorem Transfer.stateAlong_cons {path : List (BlockId × Edge)} {b : BlockId} {block : Block}
    (hb : g.block? b = some block) {state : S} (hstate : t.stateAlong g path = some state)
    (e : Edge) : t.stateAlong g ((b, e) :: path) = t.sentFrom g block state e := by
  rw [stateAlong, hb, hstate]
  rfl

theorem Graph.LivePath.exists_stateAlong {path : List (BlockId × Edge)} {b : BlockId}
    (h : g.LivePath path b) : ∃ state, t.stateAlong g path = some state := by
  induction h with
  | entry => exact ⟨_, rfl⟩
  | @step path b target block e _ hb _ hcarries ih =>
    obtain ⟨state, hstate⟩ := ih
    rw [t.stateAlong_cons hb hstate, ← Option.isSome_iff_exists, Transfer.sentFrom,
      Pass.isSome_sent]
    exact hcarries

end Along

namespace NullnessChecker

theorem get?_thrown_visit (c : NullnessChecker) (i : Input) (e : ExceptionType) :
    (c.visitor.visit i).thrown.get? e = none := by
  obtain ⟨⟨id, block, kind⟩, nodes, store, values⟩ := i
  cases kind with
  | binary op lhs rhs =>
    simp only [Visitor.visit, visitor, binary]
    split <;> rfl
  | _ => rfl

/-- No exception leaves a node with a store of its own: a handler gets the join of the stores before
the nodes, or the store at the entry if there are none. -/
theorem sentFrom_handler (c : NullnessChecker) (g : Graph) (block : Block)
    (entry : VarStore Nullness) (e : ExceptionType) :
    c.transfer.sentFrom g block entry (.handler e) =
      some (joinedStates entry
        ((c.transfer.pass g.nodes .empty entry (g.nodesOf block)).map (·.state))) := by
  have hthrow : (c.transfer.pass g.nodes .empty entry (g.nodesOf block)).map (NodeVisit.atThrow e) =
      (c.transfer.pass g.nodes .empty entry (g.nodesOf block)).map (·.state) := by
    refine List.map_congr_left fun w hw => ?_
    obtain ⟨values, hvisit⟩ := exists_eq_visitNode_of_mem_pass _ hw
    have hthrown : w.result.thrown.get? e = none := by
      rw [hvisit]
      exact c.get?_thrown_visit _ e
    rw [NodeVisit.atThrow, hthrown, Option.getD_none]
  rw [Transfer.sentFrom, Pass.sent, Pass.thrownState, hthrow]
  cases (c.transfer.pass g.nodes .empty entry (g.nodesOf block)).map (·.state) <;> rfl

/-! ## Stores on paths -/

theorem offered_of_assignsOwnValues {ι : Type} {g : Graph} (hg : g.WellFormed)
    (hown : g.AssignsOwnValues) (R : Correspondence ι Nullness (VarStore Nullness)) {b : BlockId}
    {block : Block} (hb : g.block? b = some block) (values : ι → Table Nullness) :
    R.Offered g ReadsAssigned block values := by
  rintro n hn o ⟨x, hkind⟩
  have hmem := Array.mem_of_getElem? ((hg.mem_nodesOf_iff hb).1 hn).1
  exact .inl ⟨by simp [hkind, NodeKind.operands], hown n hmem x o hkind⟩

/-- A live path leads to the block with this store. -/
def LeadsTo (c : NullnessChecker) (g : Graph) (b : BlockId) (store : VarStore Nullness) : Prop :=
  ∃ path, g.LivePath path b ∧ c.transfer.stateAlong g path = some store

/-- A path leads to the block, and for every variable that may be null in the store there is one that
leaves it so. -/
structure Attained (c : NullnessChecker) (g : Graph) (b : BlockId) (store : VarStore Nullness) :
    Prop where
  frames : store.Frames g.variableNames.toList (c.initial g)
  live : ∃ state, c.LeadsTo g b state
  nullable : ∀ x ∈ g.variableNames.toList, store.get? x = some .nullable →
    ∃ state, c.LeadsTo g b state ∧ state.get? x = some .nullable

section Stores

variable {c : NullnessChecker} {g : Graph} (hg : g.WellFormed)

include hg

theorem LeadsTo.frames {b : BlockId} {store : VarStore Nullness} (h : c.LeadsTo g b store) :
    store.Frames g.variableNames.toList (c.initial g) := by
  obtain ⟨path, hpath, hstore⟩ := h
  have hframed := c.framed (a := { transfer := c.transfer }) rfl g
  induction hpath generalizing store with
  | entry =>
    cases hstore
    exact c.frames_initial g
  | @step path b target block e hpath hb he _ ih =>
    obtain ⟨before, hbefore⟩ := hpath.exists_stateAlong c.transfer
    rw [c.transfer.stateAlong_cons hb hbefore] at hstore
    exact hframed.frames_sent hg hb (ih hbefore) _ he hstore

section Sent

variable (hown : g.AssignsOwnValues) {b : BlockId} {block : Block} (hb : g.block? b = some block)
  {e : Edge} {target : BlockId} (he : (e, target) ∈ block.shape.edges)
  {store state : VarStore Nullness} {values : Table Nullness}
  (hsent : Pass.sent block.shape store
    (c.transfer.pass g.nodes values store (g.nodesOf block)) e = some state)

include hown hb he hsent

/-- A block sends more from more. -/
theorem sentFrom_below {base : VarStore Nullness}
    (hstore : store.Frames g.variableNames.toList base) {store' state' : VarStore Nullness}
    (hstore' : store'.Frames g.variableNames.toList base) (hbelow : below store' store)
    (hsent' : c.transfer.sentFrom g block store' e = some state') : below state' state := by
  have hrespects := respects (Q := VarStore.Rising) (fun v => Nullness.lawful.below_refl v)
    (fun hu hv => Nullness.lawful.join_mono hu hv) c g base
  exact hrespects.sent_below Nullness.lawful.below_refl hg hb hstore' hstore hbelow
    (offered_of_assignsOwnValues hg hown _ hb _) he hsent' hsent

/-- A variable that may be null in what a block sends from a store may be null in what it sends from
one of the stores that lead there. -/
theorem Attained.sent (h : c.Attained g b store) : c.Attained g target state := by
  have hcarries : block.shape.carries e :=
    (Pass.isSome_sent _ _ _ e).symm.trans (by rw [hsent]; rfl)
  have hnext : ∀ before, c.LeadsTo g b before →
      ∃ after, c.transfer.sentFrom g block before e = some after ∧ c.LeadsTo g target after := by
    rintro before ⟨path, hpath, hbefore⟩
    have hpath' := hpath.step hb he hcarries
    obtain ⟨after, hafter⟩ := hpath'.exists_stateAlong c.transfer
    exact ⟨after, c.transfer.stateAlong_cons hb hbefore e ▸ hafter, _, hpath', hafter⟩
  choose after hafter hleads using fun before : { before // c.LeadsTo g b before } =>
    hnext before.1 before.2
  obtain ⟨live, hlive⟩ := h.live
  -- the store at hand beside all those of paths
  let Q : (Option { before // c.LeadsTo g b before } → Nullness) → Prop :=
    fun u => u none = .nullable → ∃ before, u (some before) = .nullable
  have hrespects := respects (Q := Q) (fun v hv => ⟨⟨live, hlive⟩, hv⟩)
    (fun {u v} hu hv hnull => by
      rcases Nullness.join_eq_nullable_iff.1 hnull with hnull | hnull
      · exact (hu hnull).imp fun _ h => Nullness.join_eq_nullable_iff.2 (.inl h)
      · exact (hv hnull).imp fun _ h => Nullness.join_eq_nullable_iff.2 (.inr h)) c g (c.initial g)
  have hstores : VarStore.Pointwise g.variableNames.toList (c.initial g) Q
      fun i => i.elim store Subtype.val := by
    refine ⟨?_, fun x hx u hu hnull => ?_⟩
    · rintro (_ | before)
      · exact h.frames
      · exact before.2.frames hg
    · obtain ⟨before, hbefore, hx⟩ := h.nullable x hx (hnull ▸ hu none)
      exact ⟨⟨before, hbefore⟩, Option.some.inj ((hu (some ⟨before, hbefore⟩)).symm.trans hx)⟩
  have hout : VarStore.Pointwise g.variableNames.toList (c.initial g) Q
      fun i => i.elim state after :=
    hrespects.sent hg hb hstores
      (offered_of_assignsOwnValues hg hown _ hb fun i => i.elim values fun _ => .empty) he
      (by rintro (_ | before); exacts [hsent, hafter before])
  refine ⟨hout.frames none, ⟨_, hleads ⟨live, hlive⟩⟩, fun x hx hnull => ?_⟩
  choose u hu using fun i => (hout.frames i).exists_get? hx
  obtain ⟨before, hbefore⟩ := hout.values x hx hu (Option.some.inj ((hu none).symm.trans hnull))
  exact ⟨after before, hleads before, hbefore ▸ hu (some before)⟩

end Sent

end Stores

theorem attained_initial (c : NullnessChecker) (g : Graph) :
    c.Attained g entryBlock (c.initial g) :=
  have hleads : c.LeadsTo g entryBlock (c.initial g) := ⟨[], .entry, rfl⟩
  ⟨c.frames_initial g, ⟨_, hleads⟩, fun _ _ hnull => ⟨_, hleads, hnull⟩⟩

theorem Attained.merge {c : NullnessChecker} {g : Graph} {b : BlockId}
    {store store' : VarStore Nullness}
    (h : c.Attained g b store) (h' : c.Attained g b store') (w : Widening) (updates : Nat) :
    c.Attained g b (w.merge store store' updates) := by
  have hmerge : w.merge store store' updates = VarStore.combine join store store' := by
    rw [Widening.merge]
    split <;> rfl
  rw [hmerge]
  refine ⟨h.frames.combine h'.frames Nullness.ranking.join_self, h.live, fun x hx hnull => ?_⟩
  obtain ⟨u, v, hu, hv, heq⟩ := h.frames.get?_combine h'.frames join hx
  rcases Nullness.join_eq_nullable_iff.1 (Option.some.inj (heq.symm.trans hnull)) with rfl | rfl
  · exact h.nullable x hx hu
  · exact h'.nullable x hx hv

/-! ## Runs -/

section Run

variable {c : NullnessChecker} {g : Graph} (hg : g.WellFormed) (hown : g.AssignsOwnValues)
  {a : Analysis Nullness (VarStore Nullness)} (htransfer : a.transfer = c.transfer)

include hg hown htransfer

/-- What is recorded at a block, paths attain. -/
theorem attained_of_reaches {visits : List (BlockVisit Nullness (VarStore Nullness))}
    {s : RunState Nullness (VarStore Nullness)} (hs : a.Reaches g visits s) :
    s.Keeps fun b _ store => c.Attained g b store := by
  refine (hs.recorded_induction hg (P := fun b _ store => c.Attained g b store)
    (A := fun b store => c.Attained g b store) ?_ id ?_ ?_).1
  · rw [htransfer]
    exact c.attained_initial g
  · exact fun h h' _ _ => h.merge h' _ _
  · intro visits s v k _ hv h e target he state hsent
    obtain ⟨b, rest, -, hblock, -, hnodes, -⟩ := Analysis.nextVisit?_eq_some hv
    obtain rfl := hg.block_id hblock
    rw [BlockVisit.sent, hnodes, htransfer] at hsent
    exact h.sent hg hown hblock he hsent

section Solution

variable {fuel : Nat} {r : Run Nullness (VarStore Nullness)}
  {sol : Solution Nullness (VarStore Nullness)} (hr : a.runFor g fuel = some r)
  (hsol : r.result = .ok sol)

include hr hsol

theorem attained_of_stateBefore? {b : BlockId} {store : VarStore Nullness}
    (h : sol.stateBefore? b = some store) : c.Attained g b store := by
  obtain ⟨s, hs, -, rfl⟩ := Analysis.reaches_of_result_eq_ok hg hr hsol
  exact (attained_of_reaches hg hown htransfer hs).recorded h

/-- What a path leads to a block with is below what is recorded there. -/
theorem absorbs_of_leadsTo {b : BlockId} {store : VarStore Nullness} (h : c.LeadsTo g b store) :
    Absorbs sol.stateBefore? b store := by
  obtain ⟨path, hpath, hstore⟩ := h
  induction hpath generalizing store with
  | entry =>
    cases hstore
    have hinitial := absorbs_initial (VarStore.lawful Nullness.lawful) a hr hsol hg
    rwa [htransfer] at hinitial
  | @step path b target block e hpath hb he hcarries ih =>
    obtain ⟨before, hbefore⟩ := hpath.exists_stateAlong c.transfer
    obtain ⟨recorded, hrecorded, hbelow⟩ := ih hbefore
    rw [c.transfer.stateAlong_cons hb hbefore] at hstore
    obtain ⟨block', values, hb', -, hsent⟩ := exists_pass hg htransfer hr hsol hrecorded
    obtain rfl : block = block' := Option.some.inj (hb.symm.trans hb')
    obtain ⟨state, hstate⟩ : ∃ state, Pass.sent block.shape recorded
        (c.transfer.pass g.nodes values recorded (g.nodesOf block)) e = some state := by
      rw [← Option.isSome_iff_exists, Pass.isSome_sent]
      exact hcarries
    obtain ⟨next, hnext, hbelow'⟩ := hsent he hstate
    have hframes := (attained_of_stateBefore? hg hown htransfer hr hsol hrecorded).frames
    have hsentBelow := sentFrom_below hg hown hb he hstate hframes
      (LeadsTo.frames hg ⟨path, hpath, hbefore⟩) hbelow hstore
    exact ⟨next, hnext, (VarStore.lawful Nullness.lawful).below_trans hsentBelow hbelow'⟩

end Solution

end Run

/-- Where assignments take their values from their own blocks, the nullness check is exact over
paths: a store is recorded at the blocks that live paths lead to, and a variable may be null in it
exactly if one of these paths, of whatever length, leaves it so. An edge to a handler passes on the
join of the stores before the nodes. -/
theorem exact_over_paths {operations : List Operation} {g : Graph}
    (hbuild : Graph.build operations = .ok g) (hown : g.AssignsOwnValues) {c : NullnessChecker}
    {a : Analysis Nullness (VarStore Nullness)} (htransfer : a.transfer = c.transfer) {fuel : Nat}
    {r : Run Nullness (VarStore Nullness)} {sol : Solution Nullness (VarStore Nullness)}
    (hr : a.runFor g fuel = some r) (hsol : r.result = .ok sol) :
    (∀ b, (sol.stateBefore? b).isSome ↔ ∃ path, g.LivePath path b) ∧
      (∀ b store, sol.stateBefore? b = some store → ∀ x ∈ g.variableNames.toList,
        (store.get? x = some .nullable ↔ ∃ path state, g.LivePath path b ∧
          c.transfer.stateAlong g path = some state ∧ state.get? x = some .nullable)) ∧
      ∀ block entry e, c.transfer.sentFrom g block entry (.handler e) =
        some (joinedStates entry
          ((c.transfer.pass g.nodes .empty entry (g.nodesOf block)).map (·.state))) := by
  have hg := wellFormed_of_build hbuild
  have hattained : ∀ {b store}, sol.stateBefore? b = some store → c.Attained g b store :=
    attained_of_stateBefore? hg hown htransfer hr hsol
  refine ⟨fun b => ⟨fun h => ?_, ?_⟩, fun b store hstore x hx => ⟨fun hnull => ?_, ?_⟩,
    c.sentFrom_handler g⟩
  · obtain ⟨store, hstore⟩ := Option.isSome_iff_exists.1 h
    obtain ⟨_, path, hpath, -⟩ := (hattained hstore).live
    exact ⟨path, hpath⟩
  · rintro ⟨path, hpath⟩
    obtain ⟨state, hstate⟩ := hpath.exists_stateAlong c.transfer
    obtain ⟨store, hstore, -⟩ := absorbs_of_leadsTo hg hown htransfer hr hsol ⟨path, hpath, hstate⟩
    rw [hstore]
    rfl
  · obtain ⟨state, ⟨path, hpath, hstate⟩, hx⟩ := (hattained hstore).nullable x hx hnull
    exact ⟨path, state, hpath, hstate, hx⟩
  · rintro ⟨path, state, hpath, hstate, hnull⟩
    obtain ⟨store', hstore', hbelow⟩ :=
      absorbs_of_leadsTo hg hown htransfer hr hsol ⟨path, hpath, hstate⟩
    obtain rfl : store = store' := Option.some.inj (hstore.symm.trans hstore')
    obtain ⟨v, hv, hbelow⟩ := VarStore.below_iff_get?.1 hbelow x _ hnull
    cases v with
    | nonNull => cases hbelow
    | nullable => exact hv

/-- A loop tests a variable for null and sets it to null again where it throws. -/
def retryLoop : List Operation :=
  [.addRegular, .pushNode 3 (.localVariable "x"), .pushNode 3 (.literal .null), .addConditional,
    .pushNode 4 (.binary .notEq 0 1), .addExceptional, .pushNode 5 (.fieldAccess 0 "next"),
    .pushNode 5 (.assignment "x" 3), .addRegular, .pushNode 6 (.literal .null),
    .pushNode 6 (.assignment "x" 5), .connect 0 3, .connect 3 4, .connectBranches 4 5 1,
    .connect 5 3, .addHandler 5 "E" 6, .connect 6 3]

def retryLoopGraph : Graph :=
  .ofTables
    #[⟨0, .entry 3⟩, ⟨1, .exit⟩, ⟨2, .exceptionalExit⟩, ⟨3, .regular [0, 1] 4⟩,
      ⟨4, .conditional 2 ⟨5, .eachToEach⟩ ⟨1, .eachToEach⟩⟩,
      ⟨5, .exceptional [3, 4] 3 ⟨[("E", 6)], by decide⟩⟩, ⟨6, .regular [5, 6] 3⟩]
    #[⟨0, 3, .localVariable "x"⟩, ⟨1, 3, .literal .null⟩, ⟨2, 4, .binary .notEq 0 1⟩,
      ⟨3, 5, .fieldAccess 0 "next"⟩, ⟨4, 5, .assignment "x" 3⟩, ⟨5, 6, .literal .null⟩,
      ⟨6, 6, .assignment "x" 5⟩]

theorem build_retryLoop : Graph.build retryLoop = .ok retryLoopGraph := rfl

theorem assignsOwnValues_retryLoop : retryLoopGraph.AssignsOwnValues := by
  intro n hn x o hkind
  obtain ⟨i, hi⟩ := Array.mem_iff_getElem?.1 hn
  match i with
  | 0 | 1 | 2 | 3 | 5 => cases hi; cases hkind
  | 4 | 6 => cases hi; cases hkind; exact ⟨_, rfl, rfl⟩
  | i + 7 => cases hi

/-- After a null test, a dereference that may throw, and a handler, what is found is what the paths
leave. -/
theorem exact_over_paths_retryLoop :
    let c := nullnessWith ["x"]
    ∃ g r sol, Graph.build retryLoop = .ok g ∧ g.AssignsOwnValues ∧
      c.analysis.runFor g 30 = some r ∧ r.result = .ok sol ∧
      (∀ b, (sol.stateBefore? b).isSome ↔ ∃ path, g.LivePath path b) ∧
      (∀ b store, sol.stateBefore? b = some store → ∀ x ∈ g.variableNames.toList,
        (store.get? x = some .nullable ↔ ∃ path state, g.LivePath path b ∧
          c.transfer.stateAlong g path = some state ∧ state.get? x = some .nullable)) ∧
      ∀ block entry e, c.transfer.sentFrom g block entry (.handler e) =
        some (joinedStates entry
          ((c.transfer.pass g.nodes .empty entry (g.nodesOf block)).map (·.state))) := by
  intro c
  have hsolved : (c.analysis.solve? retryLoop 30).isSome := by decide +kernel
  obtain ⟨⟨g, sol⟩, hsolve⟩ := Option.isSome_iff_exists.1 hsolved
  obtain ⟨hg, r, hr, hsol⟩ := Analysis.solve?_eq_some hsolve
  obtain rfl : retryLoopGraph = g := Except.ok.inj (build_retryLoop.symm.trans hg)
  exact ⟨_, r, sol, hg, assignsOwnValues_retryLoop, hr, hsol,
    exact_over_paths hg assignsOwnValues_retryLoop rfl hr hsol⟩

end NullnessChecker

end Dataflow

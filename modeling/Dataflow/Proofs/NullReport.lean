import Dataflow.Proofs.NullSoundness

/-!
# The report of null dereferences

A solution covers the executions of the program (`Execution.covers`), and whatever dereferences null
in one of them is reported (`mem_possibleNullDereferences_of_mayFail`). Two things are asked for,
and neither can be left out. The execution refines soundly: a variable can be set after it has been
read, and what is found of the value that was read then says nothing of the variable
(`staleRead_unreported`). And conditions have kept their values: a condition is not visited again
for the sake of an operand in another block (`staleCondition_unreported`).
-/

namespace Dataflow

namespace NullnessChecker

variable {c : NullnessChecker} {g : Graph}

theorem Evaluates.unchecked {n : Node} {rest : List Node} {m m' : Memory} (result : Concrete)
    (hn : checked? g n = none) (hyields : c.Yields m n.kind result)
    (h : c.Evaluates (RefinesSoundly g) rest (m.after n result) m') :
    c.Evaluates (RefinesSoundly g) (n :: rest) m m' := by
  refine .cons result (fun operand hoperand => ?_) ?_ hyields h
  · rw [hn] at hoperand
    cases hoperand
  · rintro ⟨receiver, hreceiver, -⟩
    obtain ⟨id, block, kind⟩ := n
    cases kind <;> cases hreceiver <;> cases hn

/-! ## Executions -/

/-- What a solution says of an execution that has come to a block: the recorded state describes the
variables, and the values of the blocks on the way describe the results of their nodes. -/
structure Covers (g : Graph) (sol : Solution Nullness (VarStore Nullness)) (b : BlockId)
    (path : List BlockId) (m : Memory) : Prop where
  env : ∃ store, sol.stateBefore? b = some store ∧ Describes g store m.env
  results : ∀ {o operand}, g.node? o = some operand → operand.block ∈ path →
    ∃ value, sol.value? o = some value ∧ (value = .nonNull → m.results o = .object)

/-- A condition that assigns something non-null has an operand that is found to be non-null. -/
def ConditionsKept (g : Graph) (sol : Solution Nullness (VarStore Nullness)) : Prop :=
  ∀ n ∈ g.nodes, ∀ x o, n.kind = .assignment x o →
    (g.block? n.block).any (·.kind = .conditional) → sol.value? n.id = some .nonNull →
      sol.value? o = some .nonNull

section Block

variable {b : BlockId} {block : Block} {path : List BlockId} (hg : g.WellFormed)
  (hstructured : g.Structured) (hb : g.block? b = some block)

include hg hstructured hb

omit hg in
theorem kind_of_mem_nodesOf {n : Node} (hn : n ∈ g.nodesOf block) :
    block.kind = .regular ∨ block.kind = .conditional := by
  have hexceptional := hstructured.not_exceptional hb
  obtain ⟨o, ho, -⟩ := List.mem_filterMap.1 hn
  obtain ⟨id, shape⟩ := block
  cases shape <;> simp_all [Block.kind, BlockShape.kind, Block.nodes, BlockShape.nodes]

/-- An operand is among the nodes before, or it is that of a condition and in a block on the way. -/
theorem operand_cases (hpath : g.Path (b :: path)) {pre post : List Node} {n : Node}
    (heq : g.nodesOf block = pre ++ n :: post) {o : NodeId} (ho : o ∈ n.kind.operands) :
    o ∈ pre.map Node.id ∨ block.kind = .conditional ∧
      ∃ operand, g.node? o = some operand ∧ operand.block ∈ path := by
  have hmem : n ∈ g.nodesOf block := by simp [heq]
  obtain ⟨hn, hnb⟩ := (hg.mem_nodesOf_iff hb).1 hmem
  have hblock : g.block? n.block = some block := hnb ▸ hb
  rcases kind_of_mem_nodesOf hstructured hb hmem with hkind | hkind
  · obtain ⟨operand, hoperand, hsame⟩ := hstructured.regular_operands hn hblock hkind o ho
    exact .inl (hg.operand_mem_of_append hb heq ho hoperand hsame)
  · obtain ⟨operand, hoperand, hevery⟩ := hstructured.condition_operands hn hblock hkind o ho
    by_cases hob : operand.block = b
    · exact .inl (hg.operand_mem_of_append hb heq ho hoperand (hob.trans hnb.symm))
    · rw [hnb] at hevery
      exact .inr ⟨hkind, operand, hoperand,
        (List.mem_cons.1 (hevery path hpath)).resolve_left hob⟩

variable {sol : Solution Nullness (VarStore Nullness)} {values : Table Nullness}
  {store : VarStore Nullness} {m : Memory}

theorem offeredSoundly (hkept : ConditionsKept g sol) (hpath : g.Path (b :: path))
    (hcovers : Covers g sol b path m)
    (hvalues : ∀ w ∈ c.transfer.pass g.nodes values store (g.nodesOf block),
      sol.value? w.node.id = some w.result.value)
    {pre post : List Node} {n : Node} (heq : g.nodesOf block = pre ++ n :: post) {x : String}
    {o : NodeId} (hkind : n.kind = .assignment x o) :
    o ∈ pre.map Node.id ∨ OfferedSoundly values m o := by
  rcases operand_cases hg hstructured hb hpath heq (o := o) (by simp [hkind, NodeKind.operands])
    with hpre | ⟨hconditional, operand, hoperand, hway⟩
  · exact .inl hpre
  refine .inr fun hoffered => ?_
  obtain ⟨hn, hnb⟩ := (hg.mem_nodesOf_iff hb (n := n)).1 (by simp [heq])
  -- The condition is the only node of its block, and so the first one.
  obtain rfl : pre = [] := by
    obtain ⟨k, hk⟩ := hg.exists_nodesOf_eq_singleton hb hconditional
    exact (List.append_eq_singleton_iff.1 (heq.symm.trans hk)).elim And.left (by simp)
  rw [heq, List.nil_append, pass_cons] at hvalues
  have hvalue := hvalues _ List.mem_cons_self
  have hresult : (c.transfer.visitNode g.nodes values store n).result.value = .nonNull := by
    rw [← hoffered]
    obtain ⟨id, nb, kind⟩ := n
    cases hkind
    rfl
  rw [node_visitNode, hresult] at hvalue
  have hfound := hkept n (Array.mem_of_getElem? hn) x o hkind (by simp [hnb, hb, hconditional])
    hvalue
  obtain ⟨value, hvalue', hobject⟩ := hcovers.results hoperand hway
  rw [hfound] at hvalue'
  exact hobject (Option.some.inj hvalue').symm

omit hg in
/-- A branch carries the state that its condition has left for it. -/
theorem exists_sent_branch {branch : Branch} {target : BlockId}
    (he : (.branch branch, target) ∈ block.shape.edges) (store : VarStore Nullness)
    (v : NodeVisit Nullness (VarStore Nullness)) :
    ∃ state, Pass.sent block.shape store [v] (.branch branch) = some state ∧
      FlowRule.eachToEach.select branch v.result.outflow.thenState v.result.outflow.elseState =
        some state := by
  obtain ⟨condition, thenEdge, elseEdge, hshape⟩ :=
    BlockShape.eq_conditional_of_branch_mem_edges he
  obtain ⟨hthen, helse⟩ := hstructured.rules hb hshape
  rw [Pass.sent, hshape]
  cases branch with
  | thenBranch =>
    rw [BlockShape.rule?, hthen]
    exact ⟨_, rfl, rfl⟩
  | elseBranch =>
    rw [BlockShape.rule?, helse]
    exact ⟨_, rfl, rfl⟩

/-- An edge that is followed carries a state that describes the variables. -/
theorem describes_sent {m' : Memory} (hstore : Describes g store m.env)
    (hoffered : ∀ pre n post, g.nodesOf block = pre ++ n :: post → ∀ x o,
      n.kind = .assignment x o → o ∈ pre.map Node.id ∨ OfferedSoundly values m o)
    (heval : c.Evaluates (RefinesSoundly g) (g.nodesOf block) m m') {e : Edge} {target : BlockId}
    (he : (e, target) ∈ block.shape.edges) (hfollows : Follows g m' block e) :
    ∃ state, Pass.sent block.shape store
      (c.transfer.pass g.nodes values store (g.nodesOf block)) e = some state ∧
        Describes g state m'.env := by
  have hnodes : ∀ n ∈ g.nodesOf block, n ∈ g.nodes := fun n hn =>
    Array.mem_of_getElem? ((hg.mem_nodesOf_iff hb).1 hn).1
  have hfinal := (pass_sound hnodes (hg.nodup_map_id_nodesOf hb) hoffered hstore heval).1
  cases e with
  | normal => exact ⟨_, rfl, hfinal⟩
  | handler e =>
    exact absurd (BlockShape.kind_of_handler_mem_edges he) (hstructured.not_exceptional hb)
  | branch branch =>
    have hkind : block.kind = .conditional := by
      obtain ⟨_, _, _, hshape⟩ := BlockShape.eq_conditional_of_branch_mem_edges he
      rw [Block.kind, hshape, BlockShape.kind]
    obtain ⟨n, hn⟩ := hg.exists_nodesOf_eq_singleton hb hkind
    obtain ⟨hnode, hnb⟩ := (hg.mem_nodesOf_iff hb (n := n)).1 (by simp [hn])
    rw [hn] at heval ⊢
    cases heval with
    | @cons _ _ _ _ result hrefines hderef hyields heval =>
      cases heval
      have hleaves := leaves_visit hstore
        (fun x o hkind => (hoffered [] n [] hn x o hkind).resolve_left (by simp))
        hderef hyields hrefines
      obtain ⟨state, hsent, hselect⟩ := exists_sent_branch hstructured hb he store
        (c.transfer.visitNode g.nodes values store n)
      exact ⟨state, hsent, hleaves.describes_branch hg hnode (by simp [hnb, hb, hkind]) hrefines
        (hfollows n (by simp [hn])) hselect⟩

/-- Once the first nodes of a block have been evaluated, their values and those of the blocks on the
way describe the results of their nodes. -/
theorem results_sound (hkept : ConditionsKept g sol) (hpath : g.Path (b :: path))
    (hcovers : Covers g sol b path m) (hstore : Describes g store m.env)
    (hvalues : ∀ w ∈ c.transfer.pass g.nodes values store (g.nodesOf block),
      sol.value? w.node.id = some w.result.value)
    {ns more : List Node} (heq : g.nodesOf block = ns ++ more) {m' : Memory}
    (heval : c.Evaluates (RefinesSoundly g) ns m m') {o : NodeId}
    (ho : o ∈ ns.map Node.id ∨ ∃ operand, g.node? o = some operand ∧ operand.block ∈ path) :
    ∃ value, sol.value? o = some value ∧ (value = .nonNull → m'.results o = .object) := by
  have hmem : ∀ n ∈ ns, g.node? n.id = some n ∧ n.block = b := fun n hn =>
    (hg.mem_nodesOf_iff hb).1 (heq ▸ List.mem_append_left more hn)
  by_cases hin : o ∈ ns.map Node.id
  · have hnodes : ∀ n ∈ ns, n ∈ g.nodes := fun n hn => Array.mem_of_getElem? (hmem n hn).1
    have hnodup := hg.nodup_map_id_nodesOf hb
    rw [heq, List.map_append] at hnodup
    have hresults := (pass_sound hnodes hnodup.of_append_left (fun pre n post hns x o hkind =>
      offeredSoundly hg hstructured hb hkept hpath hcovers hvalues
        (by rw [heq, hns, List.append_assoc, List.cons_append]) hkind) hstore heval).2
    obtain ⟨n, hn, rfl⟩ := List.mem_map.1 hin
    obtain ⟨w, hw, rfl⟩ : ∃ w ∈ c.transfer.pass g.nodes values store ns, w.node = n := by
      rw [← List.mem_map, nodes_pass]
      exact hn
    have hprefix := (pass_isPrefix_append c.transfer g.nodes more ns values store).mem hw
    exact ⟨_, hvalues w (heq ▸ hprefix), hresults w hw⟩
  · obtain ⟨operand, hoperand, hway⟩ := ho.resolve_left hin
    obtain ⟨value, hvalue, hobject⟩ := hcovers.results hoperand hway
    exact ⟨value, hvalue, fun hv => (heval.results_eq hin).trans (hobject hv)⟩

end Block

section Run

variable (hg : g.WellFormed) (hstructured : g.Structured)
  {a : Analysis Nullness (VarStore Nullness)} (htransfer : a.transfer = c.transfer) {fuel : Nat}
  {r : Run Nullness (VarStore Nullness)} {sol : Solution Nullness (VarStore Nullness)}
  (hr : a.runFor g fuel = some r) (hsol : r.result = .ok sol) (hkept : ConditionsKept g sol)

include hg htransfer hr hsol

theorem exists_pass {b : BlockId} {store : VarStore Nullness}
    (hb : sol.stateBefore? b = some store) :
    ∃ block values, g.block? b = some block ∧
      (∀ w ∈ c.transfer.pass g.nodes values store (g.nodesOf block),
        sol.value? w.node.id = some w.result.value) ∧
      ∀ {e target}, (e, target) ∈ block.shape.edges → ∀ {state},
        Pass.sent block.shape store (c.transfer.pass g.nodes values store (g.nodesOf block)) e =
          some state → Absorbs sol.stateBefore? target state := by
  obtain ⟨v, hblock, rfl, ⟨values, hnodes⟩, hvalues, hsent⟩ :=
    exists_visit_of_stateBefore?_eq_some (VarStore.lawful Nullness.lawful) a hr hsol hg hb
  rw [htransfer] at hnodes
  exact ⟨v.block, values, hblock, hnodes ▸ hvalues, fun he _ hstate =>
    hsent he (by rw [BlockVisit.sent, hnodes, hstate])⟩

include hstructured hkept

/-- A solution covers every execution whose refinements are sound. -/
theorem Execution.covers {way : List BlockId} {m : Memory}
    (h : c.Execution g (RefinesSoundly g) way m) :
    ∀ {b path}, way = b :: path → Covers g sol b path m := by
  induction h with
  | @entry m hparameters =>
    rintro b path ⟨⟩
    obtain ⟨store, hstore, hbelow⟩ :=
      absorbs_initial (VarStore.lawful Nullness.lawful) a hr hsol hg
    rw [htransfer] at hbelow
    exact ⟨⟨store, hstore, (describes_initial hparameters).mono hbelow⟩,
      fun _ hmem => by cases hmem⟩
  | @step b path m m' block e target hway hb heval he hfollows ih =>
    rintro _ _ ⟨⟩
    have hcovers := ih rfl
    obtain ⟨store, hbefore, hstore⟩ := hcovers.env
    obtain ⟨block', values, hb', hvalues, hsent⟩ := exists_pass hg htransfer hr hsol hbefore
    obtain rfl : block = block' := Option.some.inj (hb.symm.trans hb')
    have hoffered : ∀ pre n post, g.nodesOf block = pre ++ n :: post → ∀ x o,
        n.kind = .assignment x o → o ∈ pre.map Node.id ∨ OfferedSoundly values m o :=
      fun pre n post heq x o hkind =>
        offeredSoundly hg hstructured hb hkept hway.path hcovers hvalues heq hkind
    constructor
    · obtain ⟨state, hstate, hdescribes⟩ :=
        describes_sent hg hstructured hb hstore hoffered heval he hfollows
      obtain ⟨recorded, hrecorded, hbelow⟩ := hsent he hstate
      exact ⟨recorded, hrecorded, hdescribes.mono hbelow⟩
    · intro o operand hoperand hmem
      refine results_sound hg hstructured hb hkept hway.path hcovers hstore hvalues
        (List.append_nil _).symm heval ?_
      by_cases hob : operand.block = b
      · have hid := hg.node_id hoperand
        refine .inl (List.mem_map.2 ⟨operand, (hg.mem_nodesOf_iff hb).2 ⟨?_, hob⟩, hid⟩)
        rwa [hid]
      · exact .inr ⟨operand, hoperand, (List.mem_cons.1 hmem).resolve_left hob⟩

end Run

/-- Every node at which an execution dereferences null is reported, provided that the execution
refines soundly and that no condition has kept a value which its operand has lost since. -/
theorem mem_possibleNullDereferences_of_mayFail {operations : List Operation}
    (hbuild : Graph.build operations = .ok g) (hstructured : g.Structured)
    {a : Analysis Nullness (VarStore Nullness)} (htransfer : a.transfer = c.transfer) {fuel : Nat}
    {r : Run Nullness (VarStore Nullness)} {sol : Solution Nullness (VarStore Nullness)}
    (hr : a.runFor g fuel = some r) (hsol : r.result = .ok sol) (hkept : ConditionsKept g sol)
    {n : Node} (hfail : c.MayFail g (RefinesSoundly g) n) :
    n.id ∈ possibleNullDereferences g sol := by
  have hg := wellFormed_of_build hbuild
  obtain ⟨b, path, m, block, pre, post, m', hway, hb, heq, heval, receiver, hreceiver, hnull⟩ :=
    hfail
  have hcovers := hway.covers hg hstructured htransfer hr hsol hkept rfl
  obtain ⟨store, hbefore, hstore⟩ := hcovers.env
  obtain ⟨block', values, hb', hvalues, -⟩ := exists_pass hg htransfer hr hsol hbefore
  obtain rfl : block = block' := Option.some.inj (hb.symm.trans hb')
  have hn : n ∈ g.nodesOf block := by simp [heq]
  obtain ⟨hnode, hnb⟩ := (hg.mem_nodesOf_iff hb).1 hn
  have hvalue : sol.value? receiver = some .nullable := by
    have hoperand : receiver ∈ n.kind.operands := by
      obtain ⟨id, nb, kind⟩ := n
      cases kind <;> cases hreceiver <;> simp [NodeKind.operands]
    obtain ⟨value, hvalue, hobject⟩ := results_sound hg hstructured hb hkept hway.path hcovers
      hstore hvalues heq heval
      ((operand_cases hg hstructured hb hway.path heq hoperand).imp_right And.right)
    cases value with
    | nullable => exact hvalue
    | nonNull =>
      rw [hobject rfl] at hnull
      cases hnull
  refine List.mem_map.2 ⟨n, List.mem_filter.2 ⟨?_, ?_⟩, rfl⟩
  · exact Array.mem_toList_iff.2 (Array.mem_of_getElem? hnode)
  · rw [Bool.and_eq_true, hnb]
    refine ⟨g.isReachable_of_path hg hway.path, ?_⟩
    simp [mayDereferenceNull, hreceiver, hvalue]

/-- A variable is read, set to null, and dereferenced by what was read; then it is read again. -/
def staleRead : List Operation :=
  [.addRegular, .pushNode 3 (.localVariable "x"), .pushNode 3 (.literal .null),
    .pushNode 3 (.assignment "x" 1), .pushNode 3 (.fieldAccess 0 "f"),
    .pushNode 3 (.localVariable "x"), .pushNode 3 (.fieldAccess 4 "g"), .connect 0 3, .connect 3 1]

def staleReadGraph : Graph :=
  .ofTables
    #[⟨0, .entry 3⟩, ⟨1, .exit⟩, ⟨2, .exceptionalExit⟩, ⟨3, .regular [0, 1, 2, 3, 4, 5] 1⟩]
    #[⟨0, 3, .localVariable "x"⟩, ⟨1, 3, .literal .null⟩, ⟨2, 3, .assignment "x" 1⟩,
      ⟨3, 3, .fieldAccess 0 "f"⟩, ⟨4, 3, .localVariable "x"⟩, ⟨5, 3, .fieldAccess 4 "g"⟩]

theorem build_staleRead : Graph.build staleRead = .ok staleReadGraph := rfl

theorem structured_staleRead : staleReadGraph.Structured := by
  have hblocks : ∀ {b block}, staleReadGraph.block? b = some block →
      block.kind ≠ .exceptional ∧ block.kind ≠ .conditional := by
    intro b block hb
    match b with
    | 0 | 1 | 2 | 3 => cases hb; decide
    | b + 4 => cases hb
  have hoperands : ∀ {n node}, staleReadGraph.node? n = some node →
      ∀ o ∈ node.kind.operands, ∃ operand, staleReadGraph.node? o = some operand ∧
        operand.block = node.block := by
    intro n node hn o ho
    match n with
    | 0 | 1 | 4 => cases hn; cases ho
    | 2 | 3 | 5 =>
      cases hn
      obtain rfl := List.mem_singleton.1 ho
      exact ⟨_, rfl, rfl⟩
    | n + 6 => cases hn
  exact ⟨fun hb => (hblocks hb).1,
    fun hb hshape => absurd (congrArg BlockShape.kind hshape) (hblocks hb).2,
    fun hn _ _ => hoperands hn, fun _ hb hkind => absurd hkind (hblocks hb).2⟩

theorem conditionsKept_staleRead (sol : Solution Nullness (VarStore Nullness)) :
    ConditionsKept staleReadGraph sol := by
  have hregular : ∀ n ∈ staleReadGraph.nodes,
      ¬(staleReadGraph.block? n.block).any (·.kind = .conditional) := by decide
  exact fun n hn _ _ _ hconditional => absurd hconditional (hregular n hn)

def nullnessWith (parameters : List String) : NullnessChecker where
  parameters := .ofList parameters

def analysis (c : NullnessChecker) : Analysis Nullness (VarStore Nullness) where
  transfer := c.transfer

/-- From an `x` that is null, the first field access fails, and is reported. -/
theorem mem_possibleNullDereferences_staleRead :
    let c := nullnessWith []
    ∃ g r sol n, Graph.build staleRead = .ok g ∧ g.Structured ∧
      c.analysis.runFor g 20 = some r ∧ r.result = .ok sol ∧ ConditionsKept g sol ∧
      c.MayFail g (RefinesSoundly g) n ∧ n.id ∈ possibleNullDereferences g sol := by
  intro c
  have hsolved : (c.analysis.solve? staleRead 20).isSome := by decide +kernel
  obtain ⟨⟨g, sol⟩, hsolve⟩ := Option.isSome_iff_exists.1 hsolved
  obtain ⟨hg, r, hr, hsol⟩ := Analysis.solve?_eq_some hsolve
  obtain rfl : staleReadGraph = g := Except.ok.inj (build_staleRead.symm.trans hg)
  have hkept := conditionsKept_staleRead sol
  have hfail : c.MayFail staleReadGraph (RefinesSoundly staleReadGraph)
      ⟨3, 3, .fieldAccess 0 "f"⟩ := by
    refine ⟨3, [0], ⟨fun _ => .null, fun _ => .object⟩, _,
      [⟨0, 3, .localVariable "x"⟩, ⟨1, 3, .literal .null⟩, ⟨2, 3, .assignment "x" 1⟩],
      [⟨4, 3, .localVariable "x"⟩, ⟨5, 3, .fieldAccess 4 "g"⟩], _,
      .step .normal 3 (.entry (by decide +kernel)) rfl .nil (by decide) trivial, rfl, rfl,
      .unchecked .null rfl rfl (.unchecked .null rfl rfl (.unchecked .null rfl rfl .nil)), 0, rfl,
      rfl⟩
  exact ⟨_, r, sol, _, hg, structured_staleRead, hr, hsol, hkept, hfail,
    mem_possibleNullDereferences_of_mayFail hg structured_staleRead rfl hr hsol hkept hfail⟩

/-- From an `x` that is not null, the second field access fails after the first one has refined what
`x` is by then, and is not reported. -/
theorem staleRead_unreported :
    let c := nullnessWith ["x"]
    ∃ g r sol n, Graph.build staleRead = .ok g ∧ g.Structured ∧
      c.analysis.runFor g 20 = some r ∧ r.result = .ok sol ∧ ConditionsKept g sol ∧
      c.MayFail g (fun _ _ => True) n ∧ n.id ∉ possibleNullDereferences g sol := by
  intro c
  have hsolved : (c.analysis.solve? staleRead 20).any fun found =>
      5 ∉ possibleNullDereferences found.1 found.2 := by
    decide +kernel
  obtain ⟨⟨g, sol⟩, hsolve, hunreported⟩ := (Option.any_eq_true _ _).1 hsolved
  obtain ⟨hg, r, hr, hsol⟩ := Analysis.solve?_eq_some hsolve
  obtain rfl : staleReadGraph = g := Except.ok.inj (build_staleRead.symm.trans hg)
  refine ⟨_, r, sol, ⟨5, 3, .fieldAccess 4 "g"⟩, hg, structured_staleRead, hr, hsol,
    conditionsKept_staleRead sol, ?_, of_decide_eq_true hunreported⟩
  refine ⟨3, [0], ⟨fun _ => .object, fun _ => .object⟩, _,
    [⟨0, 3, .localVariable "x"⟩, ⟨1, 3, .literal .null⟩, ⟨2, 3, .assignment "x" 1⟩,
      ⟨3, 3, .fieldAccess 0 "f"⟩, ⟨4, 3, .localVariable "x"⟩], [], _,
    .step .normal 3 (.entry fun _ _ => rfl) rfl .nil (by decide) trivial, rfl, rfl,
    .cons .object trivial (by rintro ⟨_, ⟨⟩, _⟩) rfl
      (.cons .null trivial (by rintro ⟨_, ⟨⟩, _⟩) rfl
        (.cons .null trivial (by rintro ⟨_, ⟨⟩, _⟩) rfl
          (.cons .object trivial ?_ trivial
            (.cons .null trivial (by rintro ⟨_, ⟨⟩, _⟩) rfl .nil)))), 4, rfl, rfl⟩
  rintro ⟨_, ⟨⟩, hnull⟩
  cases hnull

/-- A loop sets `y` in its condition to what it has read of `x`, which is null in the second round
only. -/
def staleCondition : List Operation :=
  [.addRegular, .pushNode 3 (.localVariable "x"), .pushNode 3 (.creation "Object" []),
    .pushNode 3 (.assignment "x" 1), .addConditional, .pushNode 4 (.assignment "y" 0), .addRegular,
    .pushNode 5 (.literal .null), .pushNode 5 (.assignment "x" 4), .addRegular,
    .pushNode 6 (.localVariable "y"), .pushNode 6 (.fieldAccess 6 "f"), .connect 0 3, .connect 3 4,
    .connectBranches 4 5 6, .connect 5 3, .connect 6 1]

def staleConditionGraph : Graph :=
  .ofTables
    #[⟨0, .entry 3⟩, ⟨1, .exit⟩, ⟨2, .exceptionalExit⟩, ⟨3, .regular [0, 1, 2] 4⟩,
      ⟨4, .conditional 3 ⟨5, .eachToEach⟩ ⟨6, .eachToEach⟩⟩, ⟨5, .regular [4, 5] 3⟩,
      ⟨6, .regular [6, 7] 1⟩]
    #[⟨0, 3, .localVariable "x"⟩, ⟨1, 3, .creation "Object" []⟩, ⟨2, 3, .assignment "x" 1⟩,
      ⟨3, 4, .assignment "y" 0⟩, ⟨4, 5, .literal .null⟩, ⟨5, 5, .assignment "x" 4⟩,
      ⟨6, 6, .localVariable "y"⟩, ⟨7, 6, .fieldAccess 6 "f"⟩]

theorem build_staleCondition : Graph.build staleCondition = .ok staleConditionGraph := rfl

theorem structured_staleCondition : staleConditionGraph.Structured := by
  have hpath : staleConditionGraph.OnEveryPath 3 4 :=
    Graph.onEveryPath_of_closed [entryBlock] (.inr (by decide)) (by decide) (by decide)
  refine ⟨fun {b block} hb => ?_, fun {b block condition t e} hb hshape => ?_,
    fun {n node block} hn hb hkind o ho => ?_, fun {n node block} hn hb hkind o ho => ?_⟩
  · match b with
    | 0 | 1 | 2 | 3 | 4 | 5 | 6 => cases hb; decide
    | b + 7 => cases hb
  · match b with
    | 0 | 1 | 2 | 3 | 5 | 6 => cases hb; cases hshape
    | 4 => cases hb; cases hshape; exact ⟨rfl, rfl⟩
    | b + 7 => cases hb
  · match n with
    | 0 | 1 | 4 | 6 => cases hn; cases ho
    | 3 => cases hn; cases hb; cases hkind
    | 2 | 5 | 7 => cases hn; obtain rfl := List.mem_singleton.1 ho; exact ⟨_, rfl, rfl⟩
    | n + 8 => cases hn
  · match n with
    | 0 | 1 | 2 | 4 | 5 | 6 | 7 => cases hn; cases hb; cases hkind
    | 3 => cases hn; obtain rfl := List.mem_singleton.1 ho; exact ⟨_, rfl, hpath⟩
    | n + 8 => cases hn

section StaleCondition

variable {path : List BlockId} {m : Memory}

abbrev StaleExecution (c : NullnessChecker) : List BlockId → Memory → Prop :=
  c.Execution staleConditionGraph (RefinesSoundly staleConditionGraph)

theorem StaleExecution.head (h : StaleExecution c (3 :: path) m) :
    ∃ m', StaleExecution c (4 :: 3 :: path) m' ∧ m'.results 0 = m.env "x" :=
  ⟨_, h.step .normal 4 rfl (.unchecked (m.env "x") rfl rfl
    (.unchecked .object rfl rfl (.unchecked .object rfl rfl .nil))) (by decide) trivial, rfl⟩

theorem StaleExecution.condition (h : StaleExecution c (4 :: path) m) (branch : Branch)
    (target : BlockId) (htarget : (Edge.branch branch, target) ∈
      [(.branch .thenBranch, 5), (.branch .elseBranch, 6)]) :
    ∃ m', StaleExecution c (target :: 4 :: path) m' ∧ m'.env "y" = m.results 0 := by
  refine ⟨_, h.step _ _ rfl (.unchecked (m.results 0) rfl rfl .nil) htarget fun n hn => ?_, rfl⟩
  obtain rfl : n = ⟨3, 4, .assignment "y" 0⟩ := List.mem_singleton.1 hn
  trivial

theorem StaleExecution.body (h : StaleExecution c (5 :: path) m) :
    ∃ m', StaleExecution c (3 :: 5 :: path) m' ∧ m'.env "x" = .null :=
  ⟨_, h.step .normal 3 rfl (.unchecked .null rfl rfl (.unchecked .null rfl rfl .nil))
    (by decide) trivial, rfl⟩

end StaleCondition

/-- The recorded condition has the value of the first round, and what fails after the second one is
not reported, although every refinement is sound. -/
theorem staleCondition_unreported :
    let c := nullnessWith ["x"]
    ∃ g r sol n, Graph.build staleCondition = .ok g ∧ g.Structured ∧
      c.analysis.runFor g 20 = some r ∧ r.result = .ok sol ∧
      c.MayFail g (RefinesSoundly g) n ∧ n.id ∉ possibleNullDereferences g sol := by
  intro c
  have hsolved : (c.analysis.solve? staleCondition 20).any fun found =>
      7 ∉ possibleNullDereferences found.1 found.2 := by
    decide +kernel
  obtain ⟨⟨g, sol⟩, hsolve, hunreported⟩ := (Option.any_eq_true _ _).1 hsolved
  obtain ⟨hg, r, hr, hsol⟩ := Analysis.solve?_eq_some hsolve
  obtain rfl : staleConditionGraph = g := Except.ok.inj (build_staleCondition.symm.trans hg)
  refine ⟨_, r, sol, ⟨7, 6, .fieldAccess 6 "f"⟩, hg, structured_staleCondition, hr, hsol, ?_,
    of_decide_eq_true hunreported⟩
  have hentry : StaleExecution c [0] ⟨fun _ => .object, fun _ => .object⟩ := .entry fun _ _ => rfl
  have hfirst := hentry.step .normal 3 rfl .nil (by decide) trivial
  obtain ⟨m₁, h₁, -⟩ := StaleExecution.head hfirst
  obtain ⟨m₂, h₂, -⟩ := h₁.condition .thenBranch 5 (by decide)
  obtain ⟨m₃, h₃, hx⟩ := h₂.body
  obtain ⟨m₄, h₄, hread⟩ := h₃.head
  obtain ⟨m₅, h₅, hy⟩ := h₄.condition .elseBranch 6 (by decide)
  have hnull : m₅.env "y" = .null := hy.trans (hread.trans hx)
  exact ⟨6, _, m₅, _, [⟨6, 6, .localVariable "y"⟩], [], _, h₅, rfl, rfl,
    .unchecked (m₅.env "y") rfl rfl .nil, 6, rfl, hnull⟩

end NullnessChecker

end Dataflow

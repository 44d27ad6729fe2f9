import Dataflow.Analysis.Pass
import Dataflow.Proofs.BuiltGraph
import Mathlib.Data.List.Nodup

/-!
# What a pass depends on

A pass visits the nodes of a block in order (`nodes_pass`) and leaves their values in the table
(`get?_valuesAfter`), where a later visit of a node overwrites an earlier one (`get?_foldl_insert`).
It sees the table it starts with only where a node reads what the pass has not visited yet
(`outcomes_pass_congr`), and what comes out of a block is a function of the state at its entry and of
how its nodes completed (`outflow_of_completions`). What they throw has no part in it.
-/

namespace Dataflow

variable {V S : Type}

/-- What a visit of a node comes to, without the values that the node was offered. -/
def NodeVisit.outcome (v : NodeVisit V S) : Node × S × NodeResult V S :=
  (v.node, v.state, v.result)

/-- What a visit of a node comes to if nothing is thrown. -/
def NodeVisit.completion [DecidableEq S] [AbstractDomain S] (v : NodeVisit V S) :
    Node × V × S × S × S :=
  (v.node, v.result.value, v.result.outflow.joined, v.result.outflow.thenState,
    v.result.outflow.elseState)

namespace Transfer

/-- The result of a visit depends on the values of those nodes only that the node `reads`. -/
def DependsOn (t : Transfer V S) (g : Graph) (reads : Node → NodeId → Prop) : Prop :=
  ∀ n ∈ g.nodes, ∀ (state : S) (values values' : Table V),
    (∀ o, reads n o → values.get? o = values'.get? o) →
      t.visit ⟨n, g.nodes, state, values⟩ = t.visit ⟨n, g.nodes, state, values'⟩

/-- The result of a visit depends on the operands' values only. -/
def ReadsOperands (t : Transfer V S) (g : Graph) : Prop :=
  t.DependsOn g fun n o => o ∈ n.kind.operands

/-- The result of a visit depends on the values of operands from the node's own block only. -/
def ReadsOwnBlock (t : Transfer V S) (g : Graph) : Prop :=
  t.DependsOn g fun n o => o ∈ n.kind.operands ∧ ∃ m, g.node? o = some m ∧ m.block = n.block

end Transfer

/-! ## The last visit of a node -/

/-- The last visit of a node, in a list that has the latest visit at its end. -/
def lastNodeVisit? (log : List (NodeVisit V S)) (n : NodeId) : Option (NodeVisit V S) :=
  log.reverse.find? (·.node.id = n)

section LastNodeVisit

variable {log : List (NodeVisit V S)} {n : NodeId} {w : NodeVisit V S}

theorem lastNodeVisit?_append (log more : List (NodeVisit V S)) (n : NodeId) :
    lastNodeVisit? (log ++ more) n = (lastNodeVisit? more n).or (lastNodeVisit? log n) := by
  rw [lastNodeVisit?, List.reverse_append, List.find?_append, ← lastNodeVisit?, ← lastNodeVisit?]

theorem lastNodeVisit?_eq_none_iff : lastNodeVisit? log n = none ↔ ∀ w ∈ log, w.node.id ≠ n := by
  simp [lastNodeVisit?]

theorem mem_of_lastNodeVisit?_eq_some (h : lastNodeVisit? log n = some w) :
    w ∈ log ∧ w.node.id = n :=
  ⟨List.mem_reverse.1 (List.mem_of_find?_eq_some h), by simpa using List.find?_some h⟩

/-- A node that is visited once is visited last then. -/
theorem lastNodeVisit?_of_mem (h : (log.map (·.node.id)).Nodup) (hw : w ∈ log) :
    lastNodeVisit? log w.node.id = some w := by
  rcases hlast : lastNodeVisit? log w.node.id with _ | w'
  · exact absurd rfl (lastNodeVisit?_eq_none_iff.1 hlast w hw)
  · obtain ⟨hw', hid⟩ := mem_of_lastNodeVisit?_eq_some hlast
    rw [List.inj_on_of_nodup_map h hw' hw hid]

theorem lastNodeVisit?_eq_find? (h : (log.map (·.node.id)).Nodup) (n : NodeId) :
    lastNodeVisit? log n = log.find? (·.node.id = n) := by
  rcases hfind : log.find? (·.node.id = n) with _ | w
  · rw [hfind, lastNodeVisit?_eq_none_iff]
    simpa using hfind
  · obtain rfl : w.node.id = n := by simpa using List.find?_some hfind
    rw [hfind]
    exact lastNodeVisit?_of_mem h (List.mem_of_find?_eq_some hfind)

/-- A table into which every visit of a node writes something has what the last one has written. -/
theorem get?_foldl_insert {α : Type} (f : NodeVisit V S → α) (n : NodeId) :
    ∀ (log : List (NodeVisit V S)) (table : Table α),
      (log.foldl (fun table w => table.insert w.node.id (f w)) table).get? n =
        ((lastNodeVisit? log n).map f).or (table.get? n)
  | [], _ => rfl
  | w :: rest, table => by
    rw [List.foldl_cons, get?_foldl_insert f n rest, Table.get?_insert, ← List.singleton_append,
      lastNodeVisit?_append, Option.map_or, Option.or_assoc]
    by_cases hw : w.node.id = n
    · simp [lastNodeVisit?, hw]
    · simp [lastNodeVisit?, hw, Ne.symm hw]

end LastNodeVisit

/-! ## The nodes of a pass -/

section Visits

variable [DecidableEq S] [AbstractDomain S] (t : Transfer V S)

@[simp] theorem pass_nil (nodes : Array Node) (values : Table V) (state : S) :
    t.pass nodes values state [] = [] := rfl

theorem pass_cons (nodes : Array Node) (values : Table V) (state : S) (n : Node)
    (rest : List Node) :
    t.pass nodes values state (n :: rest) =
      t.visitNode nodes values state n ::
        t.pass nodes (values.insert n.id (t.visitNode nodes values state n).result.value)
          (t.visitNode nodes values state n).result.outflow.joined rest := rfl

omit [DecidableEq S] [AbstractDomain S] in
@[simp] theorem node_visitNode (nodes : Array Node) (values : Table V) (state : S) (n : Node) :
    (t.visitNode nodes values state n).node = n := rfl

theorem nodes_pass (nodes : Array Node) : ∀ (ns : List Node) (values : Table V) (state : S),
    (t.pass nodes values state ns).map (·.node) = ns
  | [], _, _ => rfl
  | n :: rest, values, state => by
    rw [pass_cons, List.map_cons, nodes_pass nodes rest]
    rfl

/-- A node is visited from the state of its visit, with the values there are by then. -/
theorem exists_eq_visitNode_of_mem_pass {nodes : Array Node} {w : NodeVisit V S} :
    ∀ {ns : List Node} {values : Table V} {state : S}, w ∈ t.pass nodes values state ns →
      ∃ values', w = t.visitNode nodes values' w.state w.node
  | n :: rest, values, state, h => by
    rw [pass_cons] at h
    rcases List.mem_cons.1 h with rfl | h
    · exact ⟨values, rfl⟩
    · exact exists_eq_visitNode_of_mem_pass h

theorem pass_isPrefix_append (nodes : Array Node) (more : List Node) :
    ∀ (ns : List Node) (values : Table V) (state : S),
      t.pass nodes values state ns <+: t.pass nodes values state (ns ++ more)
  | [], _, _ => List.nil_prefix
  | n :: rest, values, state => by
    rw [List.cons_append, pass_cons, pass_cons, List.prefix_cons_inj]
    exact pass_isPrefix_append nodes more rest _ _

section Congr

variable {g : Graph} {reads : Node → NodeId → Prop}

/-- Two passes from one state look the same wherever each visit does, if their tables agree on what
is read of them: on what a node reads and no node before it has a value for. -/
theorem map_pass_congr (h : t.DependsOn g reads) {α : Type} (look : NodeVisit V S → α)
    (hlook : ∀ n ∈ g.nodes, ∀ state values values',
      (∀ o, reads n o → values.get? o = values'.get? o) →
      look (t.visitNode g.nodes values state n) = look (t.visitNode g.nodes values' state n)) :
    ∀ (ns : List Node) (values values' : Table V) (state : S), (∀ n ∈ ns, n ∈ g.nodes) →
      (∀ pre n post, ns = pre ++ n :: post → ∀ o, reads n o →
        o ∈ pre.map Node.id ∨ values.get? o = values'.get? o) →
      (t.pass g.nodes values state ns).map look = (t.pass g.nodes values' state ns).map look
  | [], _, _, _, _, _ => rfl
  | n :: rest, values, values', state, hmem, hreads => by
    have hagree : ∀ o, reads n o → values.get? o = values'.get? o := fun o ho => by
      simpa using hreads [] n rest rfl o ho
    have hn := hmem n List.mem_cons_self
    have hresult : (t.visitNode g.nodes values state n).result =
        (t.visitNode g.nodes values' state n).result := h n hn state values values' hagree
    rw [pass_cons, pass_cons, List.map_cons, List.map_cons, hlook n hn state values values' hagree,
      ← hresult]
    congr 1
    refine map_pass_congr h look hlook rest _ _ _
      (fun m hm => hmem m (List.mem_cons_of_mem _ hm)) ?_
    intro pre m post heq o ho
    rw [Table.get?_insert, Table.get?_insert]
    split
    · exact .inr rfl
    · rename_i hne
      refine (hreads (n :: pre) m post (by rw [heq, List.cons_append]) o ho).imp_left fun hpre => ?_
      simpa [hne] using hpre

theorem outcomes_pass_congr (h : t.DependsOn g reads) (ns : List Node) (values values' : Table V)
    (state : S) (hmem : ∀ n ∈ ns, n ∈ g.nodes)
    (hreads : ∀ pre n post, ns = pre ++ n :: post → ∀ o, reads n o →
      o ∈ pre.map Node.id ∨ values.get? o = values'.get? o) :
    (t.pass g.nodes values state ns).map NodeVisit.outcome =
      (t.pass g.nodes values' state ns).map NodeVisit.outcome :=
  map_pass_congr t h NodeVisit.outcome
    (fun n hn state values values' hagree =>
      congrArg (fun r => (n, state, r)) (h n hn state values values' hagree))
    ns values values' state hmem hreads

end Congr

/-- A pass that reads nothing from other blocks is a function of the state at the entry. -/
theorem outcomes_pass_of_readsOwnBlock {g : Graph} (hg : g.WellFormed) (h : t.ReadsOwnBlock g)
    {b : BlockId} {block : Block} (hb : g.block? b = some block) (values values' : Table V)
    (entry : S) :
    (t.pass g.nodes values entry (g.nodesOf block)).map NodeVisit.outcome =
      (t.pass g.nodes values' entry (g.nodesOf block)).map NodeVisit.outcome := by
  refine outcomes_pass_congr t h _ _ _ _ (fun n hn => ?_) fun pre n post heq o ho => .inl ?_
  · exact Array.mem_of_getElem? ((hg.mem_nodesOf_iff hb).1 hn).1
  · obtain ⟨hmem, m, hm, hmb⟩ := ho
    exact hg.operand_mem_of_append hb heq hmem hm hmb

namespace Pass

def valuesAfter (values : Table V) (visits : List (NodeVisit V S)) : Table V :=
  visits.foldl (fun values v => values.insert v.node.id v.result.value) values

omit [DecidableEq S] [AbstractDomain S] in
theorem get?_valuesAfter (n : NodeId) (visits : List (NodeVisit V S)) (values : Table V)
    (h : (visits.map (·.node.id)).Nodup) :
    (valuesAfter values visits).get? n =
      ((visits.find? (·.node.id = n)).map (·.result.value)).or (values.get? n) := by
  rw [valuesAfter, get?_foldl_insert, lastNodeVisit?_eq_find? h]

omit [DecidableEq S] [AbstractDomain S] in
theorem get?_valuesAfter_of_forall_ne {n : NodeId} {visits : List (NodeVisit V S)}
    (h : ∀ v ∈ visits, v.node.id ≠ n) (values : Table V) :
    (valuesAfter values visits).get? n = values.get? n := by
  rw [valuesAfter, get?_foldl_insert, lastNodeVisit?_eq_none_iff.2 h]
  rfl

/-! ## What comes out of a block -/

variable {visits visits' : List (NodeVisit V S)}

theorem map_completion_congr (h : visits.map NodeVisit.outcome = visits'.map NodeVisit.outcome) :
    visits.map NodeVisit.completion = visits'.map NodeVisit.completion := by
  have hmap : ∀ vs : List (NodeVisit V S), vs.map NodeVisit.completion =
      (vs.map NodeVisit.outcome).map fun o => (o.1, o.2.2.value, o.2.2.outflow.joined,
        o.2.2.outflow.thenState, o.2.2.outflow.elseState) := by
    intro vs
    rw [List.map_map]
    rfl
  rw [hmap, hmap, h]

theorem value?_of_completions
    (h : visits.map NodeVisit.completion = visits'.map NodeVisit.completion)
    (n : NodeId) : (visits.find? (·.node.id = n)).map (·.result.value) =
      (visits'.find? (·.node.id = n)).map (·.result.value) := by
  have hmap : ∀ vs : List (NodeVisit V S), (vs.find? (·.node.id = n)).map (·.result.value) =
      ((vs.map NodeVisit.completion).find? (·.1.id = n)).map (·.2.1) := by
    intro vs
    rw [List.find?_map, Option.map_map]
    rfl
  rw [hmap, hmap, h]

theorem value?_congr (h : visits.map NodeVisit.outcome = visits'.map NodeVisit.outcome)
    (n : NodeId) : (visits.find? (·.node.id = n)).map (·.result.value) =
      (visits'.find? (·.node.id = n)).map (·.result.value) :=
  value?_of_completions (map_completion_congr h) n

theorem finalState_cons (entry : S) (v : NodeVisit V S) (rest : List (NodeVisit V S)) :
    finalState entry (v :: rest) = finalState v.result.outflow.joined rest := by
  cases rest with
  | nil => rfl
  | cons w rest => simp only [finalState, List.getLast?_cons, Option.getD_some]

theorem finalState_concat (entry : S) (visits : List (NodeVisit V S)) (v : NodeVisit V S) :
    finalState entry (visits ++ [v]) = v.result.outflow.joined := by
  simp [finalState]

theorem thrownState_concat (entry : S) (visits : List (NodeVisit V S)) (v : NodeVisit V S)
    (e : ExceptionType) :
    thrownState entry (visits ++ [v]) e =
      if visits = [] then v.atThrow e else join (thrownState entry visits e) (v.atThrow e) := by
  cases visits with
  | nil => rfl
  | cons first rest => simp [thrownState, List.foldl_append]

/-- A node is visited from the state that the nodes before it came to, with their values. -/
theorem eq_visitNode_of_pass_eq_append {nodes : Array Node} {v : NodeVisit V S}
    {post : List (NodeVisit V S)} :
    ∀ {ns : List Node} {values : Table V} {state : S} {pre : List (NodeVisit V S)},
      t.pass nodes values state ns = pre ++ v :: post →
        v = t.visitNode nodes (valuesAfter values pre) (finalState state pre) v.node
  | [], _, _, pre, h => by simp at h
  | n :: rest, values, state, [], h => by
    rw [pass_cons, List.nil_append] at h
    obtain ⟨rfl, -⟩ := List.cons.inj h
    rfl
  | n :: rest, values, state, first :: pre, h => by
    rw [pass_cons, List.cons_append] at h
    obtain ⟨rfl, hrest⟩ := List.cons.inj h
    rw [finalState_cons]
    exact eq_visitNode_of_pass_eq_append hrest

theorem finalState_eq (entry : S) (visits : List (NodeVisit V S)) :
    finalState entry visits =
      ((visits.map NodeVisit.completion).getLast?.map (·.2.2.1)).getD entry := by
  rw [List.getLast?_map]
  unfold finalState
  cases visits.getLast? <;> rfl

theorem branches_eq (entry : S) (visits : List (NodeVisit V S)) :
    branches entry visits =
      ((visits.map NodeVisit.completion).getLast?.map (·.2.2.2)).getD (entry, entry) := by
  rw [List.getLast?_map]
  unfold branches
  cases visits.getLast? <;> rfl

theorem thrownState_congr (h : visits.map NodeVisit.outcome = visits'.map NodeVisit.outcome)
    (entry : S) (e : ExceptionType) : thrownState entry visits e = thrownState entry visits' e := by
  have hmap : ∀ vs : List (NodeVisit V S), vs.map (NodeVisit.atThrow e) =
      (vs.map NodeVisit.outcome).map fun o => (o.2.2.thrown.get? e).getD o.2.1 := by
    intro vs
    rw [List.map_map]
    rfl
  unfold thrownState
  rw [hmap, hmap, h]

theorem outflow_of_completions
    (h : visits.map NodeVisit.completion = visits'.map NodeVisit.completion) (shape : BlockShape)
    (entry : S) : outflow shape entry visits = outflow shape entry visits' := by
  unfold outflow
  rw [branches_eq, branches_eq, finalState_eq, finalState_eq, h]

theorem outflow_congr (h : visits.map NodeVisit.outcome = visits'.map NodeVisit.outcome)
    (shape : BlockShape) (entry : S) :
    outflow shape entry visits = outflow shape entry visits' :=
  outflow_of_completions (map_completion_congr h) shape entry

end Pass

end Visits

end Dataflow

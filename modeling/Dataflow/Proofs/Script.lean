import Dataflow.Graph.Builder
import Mathlib.Data.List.Basic
import Mathlib.Data.List.Induction

/-!
# Scripts

What a sequence of operations says by itself, without a builder: the kinds of its blocks, its nodes,
and for every block what has been written of it last. The equations `*_concat` say what one more
operation changes, and `misuses_eq_nil_iff` says when all of them are in order.
-/

namespace Dataflow

namespace Operation

/-- The kind of the block that an operation adds. -/
def addedKind? : Operation → Option BlockKind
  | addRegular => some .regular
  | addConditional => some .conditional
  | addExceptional => some .exceptional
  | _ => none

/-- The node that an operation adds, by its block and its kind. -/
def pushed? : Operation → Option (BlockId × NodeKind)
  | pushNode block kind => some (block, kind)
  | _ => none

/-- The block that an operation is about; it has to exist before. -/
def subject? : Operation → Option BlockId
  | addRegular | addConditional | addExceptional => none
  | pushNode block _ | connect block _ | connectBranches block _ _ | setRule block _ _
  | addHandler block _ _ => some block

/-- Whether an operation is for blocks of a kind. -/
def suits (kind : BlockKind) : Operation → Bool
  | addRegular | addConditional | addExceptional => true
  | pushNode _ _ => kind ∈ [.regular, .conditional, .exceptional]
  | connect _ _ => kind ∈ [.special .entry, .regular, .exceptional]
  | connectBranches _ _ _ | setRule _ _ _ => kind = .conditional
  | addHandler _ _ _ => kind = .exceptional

/-- What is wrong with an operation about a block of a kind that it is not for. -/
def unsuited (block : BlockId) (kind : BlockKind) : Operation → GraphError
  | connect _ _ => .wrongBlockKind block .withNormalEdge kind
  | connectBranches _ _ _ | setRule _ _ _ => .wrongBlockKind block .conditional kind
  | addHandler _ _ _ => .wrongBlockKind block .exceptional kind
  | _ => .nodesInSpecialBlock block

/-- What is wrong with an operation where there are blocks of these kinds. -/
def misuse? (kinds : List BlockKind) (operation : Operation) : Option GraphError :=
  operation.subject?.bind fun block =>
    match kinds[block]? with
    | none => some (.unknownBlock block)
    | some kind => if operation.suits kind then none else some (operation.unsuited block kind)

/-! What an operation writes of a block. -/

def normalTarget? (b : BlockId) : Operation → Option BlockId
  | connect source target => if source = b then some target else none
  | _ => none

def branchTargets? (b : BlockId) : Operation → Option (BlockId × BlockId)
  | connectBranches block thenTarget elseTarget =>
    if block = b then some (thenTarget, elseTarget) else none
  | _ => none

def rule? (b : BlockId) (branch : Branch) : Operation → Option FlowRule
  | setRule block branch' rule => if block = b ∧ branch' = branch then some rule else none
  | _ => none

def handler? (b : BlockId) : Operation → Option (ExceptionType × BlockId)
  | addHandler block e target => if block = b then some (e, target) else none
  | _ => none

end Operation

namespace Script

variable {α : Type} (operations : List Operation) (b : BlockId)

/-- The kinds of the blocks that there are after these operations, by number. -/
def kinds : List BlockKind :=
  [.special .entry, .special .exit, .special .exceptionalExit] ++
    operations.filterMap Operation.addedKind?

/-- The nodes, by number. -/
def nodes : List Node :=
  (operations.filterMap Operation.pushed?).mapIdx fun id (block, kind) => ⟨id, block, kind⟩

/-- The nodes that were pushed into a block, in order. -/
def nodesOf : List NodeId :=
  ((nodes operations).filter (·.block = b)).map Node.id

def lastWritten (write : Operation → Option α) : Option α :=
  (operations.filterMap write).getLast?

def normalTarget? : Option BlockId :=
  lastWritten operations (Operation.normalTarget? b)

def branchTargets? : Option (BlockId × BlockId) :=
  lastWritten operations (Operation.branchTargets? b)

/-- An edge that is given no rule carries the state of its own outcome. -/
def rule (branch : Branch) : FlowRule :=
  (lastWritten operations (Operation.rule? b branch)).getD .eachToEach

/-- The exceptions with a handler, in the order in which they were first given one. -/
def handledTypes : List ExceptionType :=
  firstOccurrences ((operations.filterMap (Operation.handler? b)).map (·.1))

def handlerTarget? (e : ExceptionType) : Option BlockId :=
  lastWritten operations fun operation =>
    ((operation.handler? b).filter (·.1 = e)).map (·.2)

/-- What is wrong with single operations, each judged by the blocks that there are before it. -/
def misuses : List GraphError :=
  operations.zipIdx.filterMap fun (operation, i) =>
    operation.misuse? (kinds (operations.take i))

/-! ## One more operation -/

section Concat

variable (operation : Operation)

@[simp] theorem kinds_concat : kinds (operations ++ [operation]) =
    kinds operations ++ operation.addedKind?.toList := by
  rw [kinds, List.filterMap_append, ← List.append_assoc, ← kinds]
  cases h : operation.addedKind? <;> simp [h]

@[simp] theorem nodes_concat : nodes (operations ++ [operation]) = nodes operations ++
    (operation.pushed?.map fun (block, kind) => ⟨(nodes operations).length, block, kind⟩).toList := by
  rw [nodes, List.filterMap_append]
  cases h : operation.pushed? with
  | none => simp [h, nodes]
  | some pushed => simp [h, nodes, List.mapIdx_concat]

@[simp] theorem nodesOf_concat : nodesOf (operations ++ [operation]) b = nodesOf operations b ++
    ((operation.pushed?.filter (·.1 = b)).map fun _ => (nodes operations).length).toList := by
  rw [nodesOf, nodes_concat, List.filter_append, List.map_append, ← nodesOf]
  rcases operation.pushed? with _ | ⟨block, kind⟩
  · rfl
  · by_cases hb : block = b <;> simp [hb, Option.filter]

theorem lastWritten_concat (write : Operation → Option α) :
    lastWritten (operations ++ [operation]) write =
      (write operation).or (lastWritten operations write) := by
  unfold lastWritten
  rw [List.filterMap_append, List.getLast?_append]
  cases h : write operation with
  | none => rw [List.filterMap_cons_none h]; rfl
  | some a => rw [List.filterMap_cons_some h]; rfl

@[simp] theorem normalTarget?_concat : normalTarget? (operations ++ [operation]) b =
    (operation.normalTarget? b).or (normalTarget? operations b) :=
  lastWritten_concat ..

@[simp] theorem branchTargets?_concat : branchTargets? (operations ++ [operation]) b =
    (operation.branchTargets? b).or (branchTargets? operations b) :=
  lastWritten_concat ..

@[simp] theorem handlerTarget?_concat (e : ExceptionType) :
    handlerTarget? (operations ++ [operation]) b e =
      (((operation.handler? b).filter (·.1 = e)).map (·.2)).or (handlerTarget? operations b e) :=
  lastWritten_concat ..

@[simp] theorem rule_concat (branch : Branch) : rule (operations ++ [operation]) b branch =
    (operation.rule? b branch).getD (rule operations b branch) := by
  rw [rule, lastWritten_concat, rule]
  cases operation.rule? b branch <;> rfl

theorem mem_handledTypes {e : ExceptionType} : e ∈ handledTypes operations b ↔
    e ∈ (operations.filterMap (Operation.handler? b)).map (·.1) :=
  mem_firstOccurrences

@[simp] theorem handledTypes_concat : handledTypes (operations ++ [operation]) b =
    match operation.handler? b with
    | none => handledTypes operations b
    | some (e, _) =>
      if e ∈ handledTypes operations b then handledTypes operations b
      else handledTypes operations b ++ [e] := by
  rw [handledTypes, List.filterMap_append, List.map_append]
  rcases h : operation.handler? b with _ | ⟨e, target⟩
  · simp [h, handledTypes]
  · simp only [mem_handledTypes]
    rw [List.filterMap_cons_some h, List.filterMap_nil, List.map_cons, List.map_nil,
      firstOccurrences_concat, ← handledTypes]

@[simp] theorem misuses_concat : misuses (operations ++ [operation]) =
    misuses operations ++ (operation.misuse? (kinds operations)).toList := by
  rw [misuses, List.zipIdx_append, List.filterMap_append, misuses]
  congr 1
  · refine List.filterMap_congr fun ⟨earlier, i⟩ hmem => ?_
    have hlt := (List.mem_zipIdx hmem).2.1
    simp only
    rw [List.take_append_of_le_length (by omega)]
  · simp only [List.zipIdx_singleton, List.filterMap_cons, List.filterMap_nil, Nat.zero_add,
      List.take_left]
    cases operation.misuse? (kinds operations) <;> rfl

theorem misuses_isPrefix_append (more : List Operation) :
    misuses operations <+: misuses (operations ++ more) := by
  induction more using List.reverseRecOn with
  | nil => simp
  | append_singleton more operation ih =>
    rw [← List.append_assoc, misuses_concat]
    exact ih.trans (List.prefix_append _ _)

end Concat

/-! ## Nodes -/

theorem id_of_getElem?_nodes {i : NodeId} {n : Node} (h : (nodes operations)[i]? = some n) :
    n.id = i := by
  rw [nodes, List.getElem?_mapIdx, Option.map_eq_some_iff] at h
  obtain ⟨pushed, -, rfl⟩ := h
  rfl

theorem mem_nodesOf_iff {n : NodeId} : n ∈ nodesOf operations b ↔
    ∃ node, (nodes operations)[n]? = some node ∧ node.block = b := by
  simp only [nodesOf, List.mem_map, List.mem_filter, decide_eq_true_eq]
  constructor
  · rintro ⟨node, ⟨hmem, hb⟩, rfl⟩
    obtain ⟨i, hi⟩ := List.mem_iff_getElem?.1 hmem
    exact ⟨node, id_of_getElem?_nodes operations hi ▸ hi, hb⟩
  · rintro ⟨node, hn, hb⟩
    exact ⟨node, ⟨List.mem_of_getElem? hn, hb⟩, id_of_getElem?_nodes operations hn⟩

theorem pairwise_nodesOf : (nodesOf operations b).Pairwise (· < ·) := by
  have hids : (nodes operations).Pairwise fun m n => m.id < n.id := by
    rw [List.pairwise_iff_getElem]
    intro i j hi hj hlt
    rw [id_of_getElem?_nodes operations (List.getElem?_eq_getElem hi),
      id_of_getElem?_nodes operations (List.getElem?_eq_getElem hj)]
    exact hlt
  exact List.pairwise_map.2 (hids.filter _)

/-! ## Misuses -/

theorem misuse?_eq_none_iff {kinds : List BlockKind} {operation : Operation} :
    operation.misuse? kinds = none ↔ ∀ block, operation.subject? = some block →
      ∃ kind, kinds[block]? = some kind ∧ operation.suits kind := by
  rw [Operation.misuse?, Option.bind_eq_none_iff]
  refine forall₂_congr fun block _ => ?_
  rcases kinds[block]? with _ | kind <;> simp

/-- There is no misuse if every operation finds the block that it is about, and it is for blocks of
its kind. -/
theorem misuses_eq_nil_iff : misuses operations = [] ↔
    ∀ earlier operation later block, operations = earlier ++ operation :: later →
      operation.subject? = some block →
        ∃ kind, (kinds earlier)[block]? = some kind ∧ operation.suits kind := by
  simp only [misuses, List.filterMap_eq_nil_iff, Prod.forall, misuse?_eq_none_iff,
    List.mem_zipIdx_iff_getElem?]
  constructor
  · rintro h earlier operation later block rfl
    simpa using h operation earlier.length (by simp) block
  · intro h operation i hi block hblock
    obtain ⟨hlt, rfl⟩ := List.getElem?_eq_some_iff.1 hi
    exact h (operations.take i) operations[i] (operations.drop (i + 1)) block (by simp) hblock

theorem kinds_isPrefix_append (more : List Operation) :
    kinds operations <+: kinds (operations ++ more) := by
  rw [kinds, kinds, List.filterMap_append, ← List.append_assoc]
  exact List.prefix_append _ _

variable {operations b}

/-- Without a misuse, every block that an operation is about is of a kind that the operation is for. -/
theorem exists_kind_of_subject (h : misuses operations = []) {operation : Operation}
    (hmem : operation ∈ operations) (hb : operation.subject? = some b) :
    ∃ kind, (kinds operations)[b]? = some kind ∧ operation.suits kind := by
  obtain ⟨earlier, later, rfl⟩ := List.append_of_mem hmem
  obtain ⟨kind, hkind, hsuits⟩ := (misuses_eq_nil_iff _).1 h earlier operation later b rfl hb
  obtain ⟨hlt, rfl⟩ := List.getElem?_eq_some_iff.1 hkind
  exact ⟨_, List.prefix_iff_getElem?.1 (kinds_isPrefix_append earlier _) b hlt, hsuits⟩

theorem subject_lt (h : misuses operations = []) {operation : Operation}
    (hmem : operation ∈ operations) (hb : operation.subject? = some b) :
    b < (kinds operations).length := by
  obtain ⟨kind, hkind, -⟩ := exists_kind_of_subject h hmem hb
  exact (List.getElem?_eq_some_iff.1 hkind).1

theorem exists_pushNode_of_mem_nodes {n : Node} (h : n ∈ nodes operations) :
    .pushNode n.block n.kind ∈ operations := by
  rw [nodes, List.mem_mapIdx] at h
  obtain ⟨i, hi, rfl⟩ := h
  obtain ⟨operation, hmem, hpushed⟩ := List.mem_filterMap.1 (List.getElem_mem hi)
  cases operation <;> simp only [Operation.pushed?, reduceCtorEq, Option.some.injEq] at hpushed
  rwa [← hpushed]

/-- Without a misuse, a block with nodes is of a kind that holds them. -/
theorem exists_kind_of_mem_nodesOf (h : misuses operations = []) {n : NodeId}
    (hn : n ∈ nodesOf operations b) : ∃ kind, (kinds operations)[b]? = some kind ∧
      kind ∈ [.regular, .conditional, .exceptional] := by
  obtain ⟨node, hnode, rfl⟩ := (mem_nodesOf_iff ..).1 hn
  have hmem := exists_pushNode_of_mem_nodes (List.mem_of_getElem? hnode)
  simpa [Operation.suits] using exists_kind_of_subject h hmem rfl

end Script

end Dataflow

import Dataflow.Proofs.Drafts

/-!
# Faults

What is wrong with a sequence of operations, in the order of importance: misused operations, operands
that do not come before their nodes, then blocks without the edges that they need (`Script.faults`).
Without any fault the operations are proper (`Script.faults_eq_nil_iff`). Every stage of building
fails with the first fault of its own (`Reports`), and so does building
(`build_reports_first_fault`).
-/

namespace Dataflow

/-! ## Failing with the first fault -/

section Reports

variable {α β ε : Type} {x : Except ε α} {faults : List ε}

/-- A computation fails with the first of these faults, and only if there is one. -/
def Reports (x : Except ε α) (faults : List ε) : Prop :=
  ∀ e, x = .error e ↔ faults.head? = some e

theorem reports_ok (a : α) : Reports (.ok a : Except ε α) [] := by
  simp [Reports]

theorem reports_error (e : ε) (later : List ε) : Reports (.error e : Except ε α) (e :: later) := by
  simp [Reports]

theorem Reports.eq_nil {a : α} (h : Reports x faults) (hx : x = .ok a) : faults = [] := by
  cases faults with
  | nil => rfl
  | cons e later => exact nomatch hx.symm.trans ((h e).2 rfl)

theorem Reports.exists_ok_iff (h : Reports x faults) : (∃ a, x = .ok a) ↔ faults = [] := by
  refine ⟨fun ⟨a, ha⟩ => h.eq_nil ha, fun hnil => ?_⟩
  cases hx : x with
  | ok a => exact ⟨a, rfl⟩
  | error e =>
    have hhead := (h e).1 hx
    simp [hnil] at hhead

theorem Reports.bind {f : α → Except ε β} {later : List ε} (hx : Reports x faults)
    (hf : ∀ a, x = .ok a → Reports (f a) later) : Reports (x >>= f) (faults ++ later) := by
  cases hval : x with
  | ok a =>
    rw [hx.eq_nil hval, List.nil_append]
    exact hf a hval
  | error e =>
    obtain ⟨rest, rfl⟩ := List.head?_eq_some_iff.1 ((hx e).1 hval)
    exact reports_error e (rest ++ later)

theorem Reports.map (h : Reports x faults) (f : α → β) :
    Reports (x >>= fun a => .ok (f a)) faults := by
  have hbind := h.bind fun a _ => reports_ok (ε := ε) (f a)
  rwa [List.append_nil] at hbind

theorem Reports.mapM {f : α → Except ε β} {faultsOf : α → List ε} : ∀ {l : List α},
    (∀ a ∈ l, Reports (f a) (faultsOf a)) → Reports (l.mapM f) (l.flatMap faultsOf)
  | [], _ => reports_ok []
  | a :: l, h => by
    have hrest := Reports.mapM fun b hb => h b (List.mem_cons_of_mem _ hb)
    rw [List.mapM_cons, List.flatMap_cons]
    refine (h a List.mem_cons_self).bind fun b _ => ?_
    exact hrest.map fun bs => b :: bs

end Reports

/-! ## What can be wrong -/

namespace Script

variable (operations : List Operation) (b : BlockId)

/-- An operand has to be a node before; one that is no node at all dangles. -/
def operandFault? (n : Node) (o : NodeId) : Option GraphError :=
  if o < n.id then none
  else if o < (nodes operations).length then some (.operandOrder n.id o)
  else some (.danglingOperand n.id o)

def operandFaults : List GraphError :=
  (nodes operations).flatMap fun n => n.kind.operands.filterMap (operandFault? operations n)

def targetFault? (target : BlockId) : Option GraphError :=
  if target < (kinds operations).length then none else some (.danglingSuccessor b target)

/-- What is wrong with an edge that a block of this kind has to have. -/
def edgeFault? (kind : BlockKind) (edge : EdgeRole) : Option BlockId → Option GraphError
  | none => some (.missingSuccessor b kind edge)
  | some target => targetFault? operations b target

/-- What is wrong with a block of this kind: its arity, then its edges, the handlers last. -/
def blockFaults : BlockKind → List GraphError
  | .special .exit | .special .exceptionalExit => []
  | .special .entry =>
    (edgeFault? operations b (.special .entry) .normal (normalTarget? operations b)).toList
  | .regular => (edgeFault? operations b .regular .normal (normalTarget? operations b)).toList
  | .conditional =>
    (if (nodesOf operations b).length = 1 then [] else [.conditionalArity b]) ++
      ((edgeFault? operations b .conditional (.branch .thenBranch)
          ((branchTargets? operations b).map (·.1))).toList ++
        (edgeFault? operations b .conditional (.branch .elseBranch)
          ((branchTargets? operations b).map (·.2))).toList)
  | .exceptional =>
    (edgeFault? operations b .exceptional .normal (normalTarget? operations b)).toList ++
      ((handledTypes operations b).filterMap (handlerTarget? operations b)).filterMap
        (targetFault? operations b)

/-- Everything that is wrong with a graph, the first to be reported first. -/
def faults : List GraphError :=
  misuses operations ++ operandFaults operations ++
    (kinds operations).zipIdx.flatMap fun (kind, b) => blockFaults operations b kind

/-- Operations that are in order: each is about a block that there is before it and that it is for,
operands come before their nodes, and in the end every block has what its kind needs. -/
structure Proper : Prop where
  suited : ∀ earlier operation later b, operations = earlier ++ operation :: later →
    operation.subject? = some b → ∃ kind, (kinds earlier)[b]? = some kind ∧ operation.suits kind
  operand_lt : ∀ n ∈ nodes operations, ∀ o ∈ n.kind.operands, o < n.id
  connected : ∀ b kind, (kinds operations)[b]? = some kind →
    kind ∈ [.special .entry, .regular, .exceptional] → (normalTarget? operations b).isSome
  branched : ∀ b, (kinds operations)[b]? = some .conditional →
    (branchTargets? operations b).isSome ∧ (nodesOf operations b).length = 1
  normal_lt : ∀ b target, normalTarget? operations b = some target →
    target < (kinds operations).length
  branches_lt : ∀ b thenTarget elseTarget,
    branchTargets? operations b = some (thenTarget, elseTarget) →
      thenTarget < (kinds operations).length ∧ elseTarget < (kinds operations).length
  handler_lt : ∀ b e target, handlerTarget? operations b e = some target →
    target < (kinds operations).length

/-! ## Without faults -/

variable {operations b}

theorem operandFaults_eq_nil_iff :
    operandFaults operations = [] ↔ ∀ n ∈ nodes operations, ∀ o ∈ n.kind.operands, o < n.id := by
  have hfault : ∀ n o, operandFault? operations n o = none ↔ o < n.id := fun n o => by
    unfold operandFault?
    split
    · simp_all
    · split <;> simp_all
  simp only [operandFaults, List.flatMap_eq_nil_iff, List.filterMap_eq_nil_iff, hfault]

@[simp] theorem targetFault?_eq_none_iff {target : BlockId} :
    targetFault? operations b target = none ↔ target < (kinds operations).length := by
  simp [targetFault?]

@[simp] theorem edgeFault?_eq_none_iff {kind : BlockKind} {edge : EdgeRole}
    {target? : Option BlockId} : edgeFault? operations b kind edge target? = none ↔
      ∃ target, target? = some target ∧ target < (kinds operations).length := by
  cases target? <;> simp [edgeFault?]

theorem exists_of_lastWritten {α : Type} {write : Operation → Option α} {a : α}
    (h : lastWritten operations write = some a) :
    ∃ operation ∈ operations, write operation = some a :=
  List.mem_filterMap.1 (List.mem_of_getLast? h)

theorem connect_mem {target : BlockId} (h : normalTarget? operations b = some target) :
    .connect b target ∈ operations := by
  obtain ⟨operation, hmem, hwrite⟩ := exists_of_lastWritten h
  cases operation <;> simp [Operation.normalTarget?] at hwrite
  obtain ⟨rfl, rfl⟩ := hwrite
  exact hmem

theorem connectBranches_mem {t e : BlockId} (h : branchTargets? operations b = some (t, e)) :
    .connectBranches b t e ∈ operations := by
  obtain ⟨operation, hmem, hwrite⟩ := exists_of_lastWritten h
  cases operation <;> simp [Operation.branchTargets?] at hwrite
  obtain ⟨rfl, rfl, rfl⟩ := hwrite
  exact hmem

theorem addHandler_mem {e : ExceptionType} {target : BlockId}
    (h : handlerTarget? operations b e = some target) : .addHandler b e target ∈ operations := by
  obtain ⟨operation, hmem, hwrite⟩ := exists_of_lastWritten h
  simp only [Option.map_eq_some_iff, Option.filter_eq_some_iff, decide_eq_true_eq] at hwrite
  obtain ⟨handler, ⟨hhandler, rfl⟩, rfl⟩ := hwrite
  cases operation <;> simp [Operation.handler?] at hhandler
  obtain ⟨rfl, rfl⟩ := hhandler
  exact hmem

theorem mem_handledTypes_of_addHandler {e : ExceptionType} {target : BlockId}
    (h : .addHandler b e target ∈ operations) : e ∈ handledTypes operations b := by
  rw [mem_handledTypes, List.mem_map]
  exact ⟨(e, target), List.mem_filterMap.2 ⟨_, h, by simp [Operation.handler?]⟩, rfl⟩

theorem blockFaults_eq_nil_iff {kind : BlockKind} : blockFaults operations b kind = [] ↔
    (kind ∈ [.special .entry, .regular, .exceptional] →
      ∃ target, normalTarget? operations b = some target ∧
        target < (kinds operations).length) ∧
    (kind = .conditional → (nodesOf operations b).length = 1 ∧
      ∃ targets, branchTargets? operations b = some targets ∧
        targets.1 < (kinds operations).length ∧ targets.2 < (kinds operations).length) ∧
    (kind = .exceptional → ∀ target, ∀ e ∈ handledTypes operations b,
      handlerTarget? operations b e = some target → target < (kinds operations).length) := by
  cases kind with
  | special kind => cases kind <;> simp [blockFaults]
  | regular => simp [blockFaults]
  | conditional =>
    rcases htargets : branchTargets? operations b with _ | ⟨t, e⟩ <;> simp [blockFaults, htargets]
  | exceptional => simp [blockFaults, List.filterMap_eq_nil_iff]

/-- A target is in order because its edge leaves a block of a kind that has such edges. -/
theorem proper_of_blockFaults_eq_nil (hmisuses : misuses operations = [])
    (hoperands : operandFaults operations = [])
    (hfaults : ∀ b kind, (kinds operations)[b]? = some kind → blockFaults operations b kind = []) :
    Proper operations := by
  have hsource : ∀ {operation b}, operation ∈ operations → operation.subject? = some b →
      ∃ kind, operation.suits kind ∧ blockFaults operations b kind = [] := fun hmem hb => by
    obtain ⟨kind, hkind, hsuits⟩ := exists_kind_of_subject hmisuses hmem hb
    exact ⟨kind, hsuits, hfaults _ kind hkind⟩
  refine
    { suited := (misuses_eq_nil_iff _).1 hmisuses
      operand_lt := operandFaults_eq_nil_iff.1 hoperands
      connected := fun b kind hb hkind => ?connected
      branched := fun b hb => ?branched
      normal_lt := fun b target h => ?normal
      branches_lt := fun b t e h => ?branches
      handler_lt := fun b e target h => ?handler }
  case connected =>
    obtain ⟨target, htarget, -⟩ := (blockFaults_eq_nil_iff.1 (hfaults b kind hb)).1 hkind
    exact Option.isSome_of_mem htarget
  case branched =>
    obtain ⟨hlength, targets, htargets, -⟩ := (blockFaults_eq_nil_iff.1 (hfaults b _ hb)).2.1 rfl
    exact ⟨Option.isSome_of_mem htargets, hlength⟩
  case normal =>
    obtain ⟨kind, hsuits, hnil⟩ := hsource (connect_mem h) rfl
    obtain ⟨other, hother, hlt⟩ :=
      (blockFaults_eq_nil_iff.1 hnil).1 (by simpa [Operation.suits] using hsuits)
    rw [h] at hother
    cases hother
    exact hlt
  case branches =>
    obtain ⟨kind, hsuits, hnil⟩ := hsource (connectBranches_mem h) rfl
    obtain ⟨-, targets, htargets, hlt⟩ :=
      (blockFaults_eq_nil_iff.1 hnil).2.1 (by simpa [Operation.suits] using hsuits)
    rw [h] at htargets
    cases htargets
    exact hlt
  case handler =>
    obtain ⟨kind, hsuits, hnil⟩ := hsource (addHandler_mem h) rfl
    exact (blockFaults_eq_nil_iff.1 hnil).2.2 (by simpa [Operation.suits] using hsuits) target e
      (mem_handledTypes_of_addHandler (addHandler_mem h)) h

theorem Proper.blockFaults_eq_nil (h : Proper operations) {kind : BlockKind}
    (hb : (kinds operations)[b]? = some kind) : blockFaults operations b kind = [] := by
  refine blockFaults_eq_nil_iff.2 ⟨fun hkind => ?_, fun hkind => ?_,
    fun _ target e _ => h.handler_lt b e target⟩
  · obtain ⟨target, htarget⟩ := Option.isSome_iff_exists.1 (h.connected b kind hb hkind)
    exact ⟨target, htarget, h.normal_lt b target htarget⟩
  · obtain ⟨hsome, hlength⟩ := h.branched b (hkind ▸ hb)
    obtain ⟨targets, htargets⟩ := Option.isSome_iff_exists.1 hsome
    exact ⟨hlength, targets, htargets, h.branches_lt b _ _ htargets⟩

theorem faults_eq_nil_iff : faults operations = [] ↔ Proper operations := by
  have hblocks : ((kinds operations).zipIdx.flatMap fun (kind, b) => blockFaults operations b kind)
      = [] ↔ ∀ b kind, (kinds operations)[b]? = some kind → blockFaults operations b kind = [] := by
    simp only [List.flatMap_eq_nil_iff, Prod.forall, List.mem_zipIdx_iff_getElem?]
    exact forall_comm
  simp only [faults, List.append_eq_nil_iff, hblocks]
  constructor
  · rintro ⟨⟨hmisuses, hoperands⟩, hfaults⟩
    exact proper_of_blockFaults_eq_nil hmisuses hoperands hfaults
  · intro h
    exact ⟨⟨(misuses_eq_nil_iff _).2 h.suited, operandFaults_eq_nil_iff.2 h.operand_lt⟩,
      fun _ _ => h.blockFaults_eq_nil⟩

end Script

/-! ## Building reports the first fault -/

section Build

variable {operations : List Operation} {b : Builder}

theorem reports_wired {id : BlockId} {kind : BlockKind} {edge : EdgeRole} (next : Option BlockId) :
    Reports (Draft.wired (Script.kinds operations).length id kind edge next)
      (Script.edgeFault? operations id kind edge next).toList := by
  cases next with
  | none => exact reports_error _ []
  | some target =>
    simp only [Draft.wired, Script.edgeFault?, Script.targetFault?]
    split
    · exact reports_ok target
    · exact reports_error _ []

theorem reports_handlers {id : BlockId} (targets : List BlockId) (shape : BlockShape) :
    Reports (match targets.find? ((Script.kinds operations).length ≤ ·) with
      | some target => .error (.danglingSuccessor id target)
      | none => .ok shape) (targets.filterMap (Script.targetFault? operations id)) := by
  rcases hfind : targets.find? ((Script.kinds operations).length ≤ ·) with _ | target
  · have hnil : targets.filterMap (Script.targetFault? operations id) = [] := by
      rw [List.filterMap_eq_nil_iff]
      simpa using hfind
    rw [hnil]
    exact reports_ok shape
  · obtain ⟨hle, before, after, rfl, hbefore⟩ := List.find?_eq_some_iff_append.1 hfind
    have hnil : before.filterMap (Script.targetFault? operations id) = [] := by
      rw [List.filterMap_eq_nil_iff]
      simpa using hbefore
    have hfault : Script.targetFault? operations id target =
        some (.danglingSuccessor id target) := if_neg (by simpa using hle)
    rw [List.filterMap_append, hnil, List.nil_append, List.filterMap_cons_some hfault]
    exact reports_error _ _

theorem Draft.SaidBy.reports_finish {d : Draft} {id : BlockId} (h : d.SaidBy operations id) :
    Reports (d.finish (Script.kinds operations).length id)
      (Script.blockFaults operations id d.kind) := by
  cases d with
  | entry next =>
    subst h
    exact (reports_wired _).map _
  | exit => exact reports_ok _
  | exceptionalExit => exact reports_ok _
  | regular nodes next =>
    obtain ⟨rfl, rfl⟩ := h
    exact (reports_wired _).map _
  | conditional nodes thenTarget elseTarget thenRule elseRule =>
    obtain ⟨rfl, rfl, rfl, -, -⟩ := h
    simp only [finish, Draft.kind, Script.blockFaults]
    split
    case h_1 condition hnodes =>
      rw [hnodes, if_pos (List.length_singleton ..), List.nil_append]
      exact (reports_wired _).bind fun _ _ => (reports_wired _).map _
    case h_2 hnodes =>
      have harity : (Script.nodesOf operations id).length ≠ 1 := fun hlength => by
        obtain ⟨condition, hcondition⟩ := List.length_eq_one_iff.1 hlength
        exact hnodes condition hcondition
      rw [if_neg harity]
      exact reports_error _ _
  | exceptional nodes next handlers =>
    obtain ⟨rfl, rfl, htypes, htargets⟩ := h
    have hvalues : (Script.handledTypes operations id).filterMap
        (Script.handlerTarget? operations id) = handlers.values := by
      rw [ExceptionMap.values_eq, htypes]
      exact (List.filterMap_congr fun e _ => htargets e).symm
    simp only [finish, Draft.kind, Script.blockFaults, hvalues]
    exact (reports_wired _).bind fun _ _ => reports_handlers _ _

theorem operandFault?_eq {n : Node} (h : n ∈ Script.nodes operations) (o : NodeId) :
    Builder.operandFault? (Script.nodes operations).length n.id o =
      Script.operandFault? operations n o := by
  obtain ⟨i, hi⟩ := List.mem_iff_getElem?.1 h
  have hid := Script.id_of_getElem?_nodes operations hi
  have hlt := (List.getElem?_eq_some_iff.1 hi).1
  unfold Builder.operandFault? Script.operandFault?
  grind

theorem Builder.Follows.firstOperandFault?_eq (h : b.Follows operations) :
    b.firstOperandFault? = (Script.operandFaults operations).head? := by
  have hsize : b.nodes.size = (Script.nodes operations).length := by
    rw [← h.nodes, Array.length_toList]
  have hfaults : Script.operandFaults operations = (Script.nodes operations).flatMap fun n =>
      n.kind.operands.filterMap (Builder.operandFault? (Script.nodes operations).length n.id) :=
    List.flatMap_congr fun n hn => List.filterMap_congr fun o _ => (operandFault?_eq hn o).symm
  rw [hfaults, Builder.firstOperandFault?, h.nodes, hsize, List.head?_flatMap]
  simp only [List.head?_filterMap]

theorem Builder.Follows.reports_finishedBlocks (h : b.Follows operations)
    (hmisuses : Script.misuses operations = []) :
    Reports b.finishedBlocks ((Script.kinds operations).zipIdx.flatMap fun (kind, id) =>
      Script.blockFaults operations id kind) := by
  have hsize : b.drafts.size = (Script.kinds operations).length := by
    rw [← h.kinds, List.length_map, Array.length_toList]
  rw [← h.kinds, List.zipIdx_map, List.flatMap_map, Builder.finishedBlocks, hsize]
  refine Reports.mapM fun (d, id) hmem => ?_
  have hd : b.drafts[id]? = some d := by
    simpa [List.mem_zipIdx_iff_getElem?] using hmem
  exact (h.said hmisuses id d hd).reports_finish.map _

theorem Builder.Follows.reports_build (h : b.Follows operations) :
    Reports b.build (Script.faults operations) := by
  have hfirst : b.error.or b.firstOperandFault? =
      (Script.misuses operations ++ Script.operandFaults operations).head? := by
    rw [h.error, h.firstOperandFault?_eq, List.head?_append]
  unfold Builder.build Script.faults
  rw [hfirst]
  rcases hfaults : Script.misuses operations ++ Script.operandFaults operations with _ | ⟨e, later⟩
  · exact (h.reports_finishedBlocks (List.append_eq_nil_iff.1 hfaults).1).map _
  · exact reports_error e _

/-- Building succeeds on proper operations and no others, and reports the first fault otherwise.
After a misuse the operations that follow change nothing about that. -/
theorem build_reports_first_fault (operations : List Operation) :
    ((∃ g, Graph.build operations = .ok g) ↔ Script.Proper operations) ∧
      (∀ e, Graph.build operations = .error e ↔ (Script.faults operations).head? = some e) ∧
      ∀ e, (Script.misuses operations).head? = some e →
        ∀ more, Graph.build (operations ++ more) = .error e := by
  have hbuild : ∀ operations, Reports (Graph.build operations) (Script.faults operations) :=
    fun operations => (Builder.follows_applyAll operations).reports_build
  refine ⟨?_, hbuild operations, fun e he more => ?_⟩
  · rw [(hbuild operations).exists_ok_iff, Script.faults_eq_nil_iff]
  · obtain ⟨rest, hrest⟩ := Script.misuses_isPrefix_append operations more
    refine (hbuild _ e).2 ?_
    rw [Script.faults, ← hrest, List.append_assoc, List.append_assoc, List.head?_append, he]
    rfl

/-- A misuse comes first, wherever it stands, then an operand, then the blocks by number. -/
example :
    Script.faults [.addConditional, .pushNode 3 (.assignment "x" 9), .connectBranches 3 1 7,
        .connect 1 3] =
      [.wrongBlockKind 1 .withNormalEdge (.special .exit), .danglingOperand 0 9,
        .missingSuccessor 0 (.special .entry) .normal, .danglingSuccessor 3 7] := by
  decide

end Build

end Dataflow

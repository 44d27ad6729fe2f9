import Dataflow.Proofs.Script

/-!
# Builders and their scripts

After a sequence of operations a builder holds what the sequence says by itself (`Builder.Follows`):
the kinds of the blocks, the nodes, the first misuse and, if there is none, drafts that hold what has
been written of their blocks. One operation keeps this (`Follows.apply`), so all do
(`follows_applyAll`). A finished block is a draft whose edges are all there (`Draft.finish_eq_ok`).
-/

namespace Dataflow

theorem bind_eq_ok {α β ε : Type} {x : Except ε α} {f : α → Except ε β} {b : β}
    (h : x >>= f = .ok b) : ∃ a, x = .ok a ∧ f a = .ok b := by
  cases x with
  | error e => cases h
  | ok a => exact ⟨a, rfl, h⟩

/-- The draft that has all the edges of a finished block. -/
def BlockShape.draft : BlockShape → Draft
  | entry next => .entry (some next)
  | exit => .exit
  | exceptionalExit => .exceptionalExit
  | regular nodes next => .regular nodes (some next)
  | conditional condition thenEdge elseEdge =>
    .conditional [condition] (some thenEdge.target) (some elseEdge.target) thenEdge.rule elseEdge.rule
  | exceptional nodes next handlers => .exceptional nodes (some next) handlers

namespace Draft

/-- A draft holds what the operations have written of its block. -/
def SaidBy (operations : List Operation) (b : BlockId) : Draft → Prop
  | entry next => next = Script.normalTarget? operations b
  | exit | exceptionalExit => True
  | regular nodes next =>
    nodes = Script.nodesOf operations b ∧ next = Script.normalTarget? operations b
  | conditional nodes thenTarget elseTarget thenRule elseRule =>
    nodes = Script.nodesOf operations b ∧
      thenTarget = (Script.branchTargets? operations b).map (·.1) ∧
      elseTarget = (Script.branchTargets? operations b).map (·.2) ∧
      thenRule = Script.rule operations b .thenBranch ∧
      elseRule = Script.rule operations b .elseBranch
  | exceptional nodes next handlers =>
    nodes = Script.nodesOf operations b ∧ next = Script.normalTarget? operations b ∧
      handlers.types = Script.handledTypes operations b ∧
      ∀ e, handlers.get? e = Script.handlerTarget? operations b e

/-! ## Finished drafts -/

theorem kind_draft (shape : BlockShape) : shape.draft.kind = shape.kind := by
  cases shape <;> rfl

theorem wired_eq_ok {count : Nat} {id : BlockId} {kind : BlockKind} {edge : EdgeRole}
    {next : Option BlockId} {target : BlockId} (h : wired count id kind edge next = .ok target) :
    next = some target ∧ target < count := by
  cases next with
  | none => cases h
  | some t =>
    simp only [wired] at h
    split at h
    · cases h
      exact ⟨rfl, by assumption⟩
    · cases h

/-- A draft is finished as it is: its edges are all there and stay among the blocks. -/
theorem finish_eq_ok {count : Nat} {id : BlockId} {d : Draft} {shape : BlockShape}
    (h : d.finish count id = .ok shape) : d = shape.draft ∧ ∀ t ∈ shape.targets, t < count := by
  cases d with
  | entry next =>
    obtain ⟨t, ht, hshape⟩ := bind_eq_ok h
    obtain ⟨rfl, hlt⟩ := wired_eq_ok ht
    cases hshape
    exact ⟨rfl, by simpa [BlockShape.targets] using hlt⟩
  | exit =>
    cases h
    exact ⟨rfl, by simp [BlockShape.targets]⟩
  | exceptionalExit =>
    cases h
    exact ⟨rfl, by simp [BlockShape.targets]⟩
  | regular nodes next =>
    obtain ⟨t, ht, hshape⟩ := bind_eq_ok h
    obtain ⟨rfl, hlt⟩ := wired_eq_ok ht
    cases hshape
    exact ⟨rfl, by simpa [BlockShape.targets] using hlt⟩
  | conditional nodes thenTarget elseTarget thenRule elseRule =>
    simp only [finish] at h
    split at h
    case h_2 => cases h
    obtain ⟨t, ht, hrest⟩ := bind_eq_ok h
    obtain ⟨e, he, hshape⟩ := bind_eq_ok hrest
    obtain ⟨rfl, htlt⟩ := wired_eq_ok ht
    obtain ⟨rfl, helt⟩ := wired_eq_ok he
    cases hshape
    exact ⟨rfl, by simpa [BlockShape.targets] using ⟨htlt, helt⟩⟩
  | exceptional nodes next handlers =>
    obtain ⟨t, ht, hshape⟩ := bind_eq_ok h
    obtain ⟨rfl, hlt⟩ := wired_eq_ok ht
    split at hshape
    case h_1 => cases hshape
    case h_2 hnone =>
      cases hshape
      simp only [List.find?_eq_none, decide_eq_true_eq, Nat.not_le] at hnone
      exact ⟨rfl, List.forall_mem_cons.2 ⟨hlt, hnone⟩⟩

/-! ## What one operation changes -/

section Concat

variable {operations : List Operation} {operation : Operation} {b : BlockId} {d d' : Draft}

/-- An operation changes nothing for a block that it is not about. -/
theorem saidBy_concat_iff (hb : operation.subject? ≠ some b) :
    d.SaidBy (operations ++ [operation]) b ↔ d.SaidBy operations b := by
  have hpushed : operation.pushed?.filter (·.1 = b) = none := by
    cases operation <;> simp_all [Operation.pushed?, Operation.subject?, Option.filter]
  have hnormal : operation.normalTarget? b = none := by
    cases operation <;> simp_all [Operation.normalTarget?, Operation.subject?]
  have hbranches : operation.branchTargets? b = none := by
    cases operation <;> simp_all [Operation.branchTargets?, Operation.subject?]
  have hrule : ∀ branch, operation.rule? b branch = none := by
    cases operation <;> simp_all [Operation.rule?, Operation.subject?]
  have hhandler : operation.handler? b = none := by
    cases operation <;> simp_all [Operation.handler?, Operation.subject?]
  cases d <;> simp [SaidBy, hpushed, hnormal, hbranches, hrule, hhandler]

theorem SaidBy.pushNode {kind : NodeKind} (h : d.SaidBy operations b)
    (hd : d.pushNode? (Script.nodes operations).length = some d') :
    d'.SaidBy (operations ++ [.pushNode b kind]) b := by
  cases d <;> simp only [pushNode?, reduceCtorEq, Option.some.injEq] at hd <;> subst hd <;>
    simpa [SaidBy, Operation.pushed?, Operation.normalTarget?, Operation.branchTargets?,
      Operation.rule?, Operation.handler?, Option.filter] using h

theorem SaidBy.connect {target : BlockId} (h : d.SaidBy operations b)
    (hd : d.connect? target = some d') : d'.SaidBy (operations ++ [.connect b target]) b := by
  cases d <;> simp only [connect?, reduceCtorEq, Option.some.injEq] at hd <;> subst hd <;>
    simp_all [SaidBy, Operation.pushed?, Operation.normalTarget?, Operation.handler?]

theorem SaidBy.connectBranches {t e : BlockId} (h : d.SaidBy operations b)
    (hd : d.connectBranches? t e = some d') :
    d'.SaidBy (operations ++ [.connectBranches b t e]) b := by
  cases d <;> simp only [connectBranches?, reduceCtorEq, Option.some.injEq] at hd
  subst hd
  simp_all [SaidBy, Operation.pushed?, Operation.branchTargets?, Operation.rule?]

theorem SaidBy.setRule {branch : Branch} {rule : FlowRule} (h : d.SaidBy operations b)
    (hd : d.setRule? branch rule = some d') :
    d'.SaidBy (operations ++ [.setRule b branch rule]) b := by
  cases d <;> cases branch <;> simp only [setRule?, reduceCtorEq, Option.some.injEq] at hd <;>
    subst hd <;> simp_all [SaidBy, Operation.pushed?, Operation.branchTargets?, Operation.rule?]

theorem SaidBy.addHandler {e : ExceptionType} {target : BlockId} (h : d.SaidBy operations b)
    (hd : d.addHandler? e target = some d') :
    d'.SaidBy (operations ++ [.addHandler b e target]) b := by
  cases d <;> simp only [addHandler?, reduceCtorEq, Option.some.injEq] at hd
  subst hd
  obtain ⟨hnodes, hnext, htypes, htargets⟩ := h
  refine ⟨?_, ?_, ?_, fun other => ?_⟩
  · simpa [Operation.pushed?] using hnodes
  · simpa [Operation.normalTarget?] using hnext
  · simp [Operation.handler?, ExceptionMap.types_insert, htypes]
  · rw [ExceptionMap.get?_insert, htargets]
    by_cases he : e = other
    · simp [Operation.handler?, Option.filter, he]
    · simp [Operation.handler?, Option.filter, he, Ne.symm he]

/-- A block that no operation is about is as it was added. -/
theorem SaidBy.of_forall_subject_ne (h : ∀ operation ∈ operations, operation.subject? ≠ some b)
    (hd : d.SaidBy [] b) : d.SaidBy operations b := by
  induction operations using List.reverseRecOn with
  | nil => exact hd
  | append_singleton operations operation ih =>
    rw [saidBy_concat_iff (h operation (by simp))]
    exact ih fun earlier hmem => h earlier (List.mem_append_left _ hmem)

end Concat

/-- A change of drafts does what the last operation says of the block that it is about. -/
structure Enacts (operations : List Operation) (operation : Operation) (b : BlockId)
    (change : Draft → Option Draft) (wrongKind : BlockKind → GraphError) : Prop where
  subject : operation.subject? = some b
  suits : ∀ d, (change d).isSome = operation.suits d.kind
  unsuited : ∀ kind, wrongKind kind = operation.unsuited b kind
  kind : ∀ {d d'}, change d = some d' → d'.kind = d.kind
  said : ∀ {d d'}, d.SaidBy operations b → change d = some d' →
    d'.SaidBy (operations ++ [operation]) b

section Enacts

variable (operations : List Operation) (b : BlockId)

theorem enacts_pushNode (kind : NodeKind) :
    Enacts operations (.pushNode b kind) b (pushNode? (Script.nodes operations).length)
      fun _ => .nodesInSpecialBlock b where
  subject := rfl
  suits := fun d => by cases d <;> rfl
  unsuited := fun _ => rfl
  kind := fun {d d'} h => by
    cases d <;> simp only [pushNode?, reduceCtorEq, Option.some.injEq] at h <;> subst h <;> rfl
  said := SaidBy.pushNode

theorem enacts_connect (target : BlockId) :
    Enacts operations (.connect b target) b (connect? target)
      (.wrongBlockKind b .withNormalEdge) where
  subject := rfl
  suits := fun d => by cases d <;> rfl
  unsuited := fun _ => rfl
  kind := fun {d d'} h => by
    cases d <;> simp only [connect?, reduceCtorEq, Option.some.injEq] at h <;> subst h <;> rfl
  said := SaidBy.connect

theorem enacts_connectBranches (t e : BlockId) :
    Enacts operations (.connectBranches b t e) b (connectBranches? t e)
      (.wrongBlockKind b .conditional) where
  subject := rfl
  suits := fun d => by cases d <;> rfl
  unsuited := fun _ => rfl
  kind := fun {d d'} h => by
    cases d <;> simp only [connectBranches?, reduceCtorEq, Option.some.injEq] at h
    subst h
    rfl
  said := SaidBy.connectBranches

theorem enacts_setRule (branch : Branch) (rule : FlowRule) :
    Enacts operations (.setRule b branch rule) b (setRule? branch rule)
      (.wrongBlockKind b .conditional) where
  subject := rfl
  suits := fun d => by cases d <;> cases branch <;> rfl
  unsuited := fun _ => rfl
  kind := fun {d d'} h => by
    cases d <;> cases branch <;> simp only [setRule?, reduceCtorEq, Option.some.injEq] at h <;>
      subst h <;> rfl
  said := SaidBy.setRule

theorem enacts_addHandler (e : ExceptionType) (target : BlockId) :
    Enacts operations (.addHandler b e target) b (addHandler? e target)
      (.wrongBlockKind b .exceptional) where
  subject := rfl
  suits := fun d => by cases d <;> rfl
  unsuited := fun _ => rfl
  kind := fun {d d'} h => by
    cases d <;> simp only [addHandler?, reduceCtorEq, Option.some.injEq] at h
    subst h
    rfl
  said := SaidBy.addHandler

end Enacts

end Draft

/-! ## Builders -/

namespace Builder

/-- The builder holds what the operations say. -/
structure Follows (operations : List Operation) (b : Builder) : Prop where
  kinds : b.drafts.toList.map Draft.kind = Script.kinds operations
  nodes : b.nodes.toList = Script.nodes operations
  error : b.error = (Script.misuses operations).head?
  said : Script.misuses operations = [] → ∀ (i : BlockId) (d : Draft), b.drafts[i]? = some d →
    d.SaidBy operations i

variable {operations : List Operation} {operation : Operation} {b : Builder}

theorem follows_start : start.Follows [] where
  kinds := rfl
  nodes := rfl
  error := rfl
  said := fun _ i d hd => by
    rcases i with _ | _ | _ | i <;> simp [start] at hd <;> subst hd
    · rfl
    · trivial
    · trivial

theorem Follows.addBlock (h : Follows operations b) {d : Draft} (hsubject : operation.subject? = none)
    (hkind : operation.addedKind? = some d.kind) (hpushed : operation.pushed? = none)
    (hd : ∀ i, d.SaidBy [] i) : Follows (operations ++ [operation]) (b.addBlock d) := by
  have hmisuses : Script.misuses (operations ++ [operation]) = Script.misuses operations := by
    simp [Operation.misuse?, hsubject]
  refine ⟨?_, ?_, ?_, fun hnone i d' hi => ?_⟩
  · simp [Builder.addBlock, h.kinds, hkind]
  · simp [Builder.addBlock, h.nodes, hpushed]
  · rw [hmisuses]
    exact h.error
  · rw [hmisuses] at hnone
    rw [Draft.saidBy_concat_iff (by simp [hsubject])]
    simp only [Builder.addBlock, Array.getElem?_push] at hi
    split at hi
    · cases hi
      subst_vars
      refine (hd _).of_forall_subject_ne fun earlier hmem hearlier => ?_
      have hlt := Script.subject_lt hnone hmem hearlier
      rw [← h.kinds, List.length_map, Array.length_toList] at hlt
      exact Nat.lt_irrefl _ hlt
    · exact h.said hnone i d' hi

theorem addedKind?_of_subject? {block : BlockId} (h : operation.subject? = some block) :
    operation.addedKind? = none := by
  cases operation <;> simp_all [Operation.subject?, Operation.addedKind?]

theorem getElem?_kinds (hkinds : b.drafts.toList.map Draft.kind = Script.kinds operations)
    (i : BlockId) : (Script.kinds operations)[i]? = b.drafts[i]?.map Draft.kind := by
  rw [← hkinds, List.getElem?_map, Array.getElem?_toList]

theorem revise_cases (b : Builder) (block : BlockId) (change : Draft → Option Draft)
    (wrongKind : BlockKind → GraphError) :
    (b.drafts[block]? = none ∧ b.revise block change wrongKind = b.misuse (.unknownBlock block)) ∨
      (∃ d, b.drafts[block]? = some d ∧ change d = none ∧
        b.revise block change wrongKind = b.misuse (wrongKind d.kind)) ∨
      ∃ d d', b.drafts[block]? = some d ∧ change d = some d' ∧
        b.revise block change wrongKind = { b with drafts := b.drafts.setIfInBounds block d' } := by
  unfold revise
  rcases hd : b.drafts[block]? with _ | d
  · exact .inl ⟨rfl, rfl⟩
  · rcases hd' : change d with _ | d'
    · exact .inr (.inl ⟨d, rfl, hd', by simp only [hd']⟩)
    · exact .inr (.inr ⟨d, d', rfl, hd', by simp only [hd']⟩)

theorem getElem?_drafts_set {block i : BlockId} {d d' : Draft} (hd : b.drafts[block]? = some d) :
    (b.drafts.setIfInBounds block d')[i]? = if i = block then some d' else b.drafts[i]? := by
  have := (Array.getElem?_eq_some_iff.1 hd).1
  rw [Array.getElem?_setIfInBounds]
  grind

/-- A builder that follows the operations but has the nodes of one more follows it as well once it
has enacted it. -/
theorem follows_revise {block : BlockId} {change : Draft → Option Draft}
    {wrongKind : BlockKind → GraphError}
    (henacts : Draft.Enacts operations operation block change wrongKind)
    (hkinds : b.drafts.toList.map Draft.kind = Script.kinds operations)
    (hnodes : b.nodes.toList = Script.nodes (operations ++ [operation]))
    (herror : b.error = (Script.misuses operations).head?)
    (hsaid : Script.misuses operations = [] → ∀ (i : BlockId) (d : Draft), b.drafts[i]? = some d →
      d.SaidBy operations i) :
    Follows (operations ++ [operation]) (b.revise block change wrongKind) := by
  have hadded := addedKind?_of_subject? henacts.subject
  have hkind := getElem?_kinds hkinds block
  have hmisuse : ∀ e, operation.misuse? (Script.kinds operations) = some e →
      Follows (operations ++ [operation]) (b.misuse e) := fun e he =>
    ⟨by simpa [Builder.misuse, hadded] using hkinds, hnodes, by simp [Builder.misuse, herror, he],
      fun hnone => by simp [he] at hnone⟩
  rcases revise_cases b block change wrongKind with
    ⟨hd, heq⟩ | ⟨d, hd, hd', heq⟩ | ⟨d, d', hd, hd', heq⟩ <;> rw [heq]
  · exact hmisuse _ (by simp [Operation.misuse?, henacts.subject, hkind, hd])
  · have hsuits := henacts.suits d
    refine hmisuse _ ?_
    simp [Operation.misuse?, henacts.subject, hkind, hd, ← hsuits, hd', henacts.unsuited]
  · have hsuits := henacts.suits d
    have hmisuses : Script.misuses (operations ++ [operation]) = Script.misuses operations := by
      simp [Operation.misuse?, henacts.subject, hkind, hd, ← hsuits, hd']
    refine ⟨?_, hnodes, by rw [hmisuses]; exact herror, fun hempty i x hx => ?_⟩
    · rw [Script.kinds_concat, hadded, ← hkinds]
      refine List.ext_getElem? fun i => ?_
      simp only [List.getElem?_map, Array.getElem?_toList, getElem?_drafts_set hd,
        Option.toList_none, List.append_nil]
      split
      · subst_vars
        rw [hd, Option.map_some, Option.map_some, henacts.kind hd']
      · rfl
    · rw [hmisuses] at hempty
      simp only [getElem?_drafts_set hd] at hx
      split at hx
      · cases hx
        subst_vars
        exact henacts.said (hsaid hempty _ _ hd) hd'
      · rename_i hne
        refine (Draft.saidBy_concat_iff ?_).2 (hsaid hempty i x hx)
        rw [henacts.subject]
        exact fun heq => hne (Option.some.inj heq).symm

theorem Follows.revise {block : BlockId} {change : Draft → Option Draft}
    {wrongKind : BlockKind → GraphError} (h : Follows operations b)
    (hpushed : operation.pushed? = none)
    (henacts : Draft.Enacts operations operation block change wrongKind) :
    Follows (operations ++ [operation]) (b.revise block change wrongKind) :=
  follows_revise henacts h.kinds (by simp [h.nodes, hpushed]) h.error h.said

theorem Follows.pushNode (h : Follows operations b) (block : BlockId) (kind : NodeKind) :
    Follows (operations ++ [.pushNode block kind]) (b.pushNode block kind) := by
  have hsize : b.nodes.size = (Script.nodes operations).length := by
    rw [← h.nodes, Array.length_toList]
  unfold Builder.pushNode
  rw [hsize]
  refine follows_revise (Draft.enacts_pushNode operations block kind) h.kinds ?_ h.error h.said
  simp [h.nodes, Operation.pushed?]

theorem Follows.apply (h : Follows operations b) (operation : Operation) :
    Follows (operations ++ [operation]) (operation.apply b) := by
  cases operation with
  | addRegular => exact h.addBlock rfl rfl rfl fun _ => ⟨rfl, rfl⟩
  | addConditional => exact h.addBlock rfl rfl rfl fun _ => ⟨rfl, rfl, rfl, rfl, rfl⟩
  | addExceptional => exact h.addBlock rfl rfl rfl fun _ => ⟨rfl, rfl, rfl, fun _ => rfl⟩
  | pushNode block kind => exact h.pushNode block kind
  | connect source target => exact h.revise rfl (Draft.enacts_connect ..)
  | connectBranches block t e => exact h.revise rfl (Draft.enacts_connectBranches ..)
  | setRule block branch rule => exact h.revise rfl (Draft.enacts_setRule ..)
  | addHandler block e target => exact h.revise rfl (Draft.enacts_addHandler ..)

theorem follows_applyAll (operations : List Operation) : Follows operations (applyAll operations) := by
  induction operations using List.reverseRecOn with
  | nil => exact follows_start
  | append_singleton operations operation ih =>
    rw [applyAll, List.foldl_append]
    exact ih.apply operation

end Builder

end Dataflow

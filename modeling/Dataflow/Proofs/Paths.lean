import Dataflow.Proofs.BuiltGraph
import Mathlib.Logic.Relation

/-!
# Paths from the entry

A block lies on every path to another one if no set of blocks around it is closed and keeps the
other one out (`onEveryPath_of_closed`).
-/

namespace Dataflow

/-- Some edges, or none, lead from one vertex to another. -/
def Search.Leads (successors : Nat → List Nat) : Nat → Nat → Prop :=
  Relation.ReflTransGen fun v w => w ∈ successors v

namespace Graph

variable {g : Graph}

theorem mem_successors_iff {b : BlockId} {block : Block} (hb : g.block? b = some block)
    {c : BlockId} : c ∈ g.successors b ↔ c ∈ block.shape.targets := by
  unfold block? at hb
  rw [successors, blockSuccessors, hb]
  exact mem_firstOccurrences

theorem lt_of_mem_successors {b c : BlockId} (hc : c ∈ g.successors b) : b < g.blocks.size := by
  refine Nat.lt_of_not_le fun hle => ?_
  rw [successors, blockSuccessors, Array.getElem?_eq_none hle] at hc
  cases hc

theorem WellFormed.successors_lt (h : g.WellFormed) {b c : BlockId} (hc : c ∈ g.successors b) :
    c < g.blocks.size := by
  have hb : g.block? b = some _ := Array.getElem?_eq_getElem (lt_of_mem_successors hc)
  exact h.target_lt hb c ((mem_successors_iff hb).1 hc)

/-! ## Paths -/

variable (g)

def Leads : BlockId → BlockId → Prop :=
  Search.Leads g.successors

/-- The blocks of a path from the entry, the last one first. -/
inductive Path : List BlockId → Prop
  | entry : Path [entryBlock]
  | step {b c : BlockId} {path : List BlockId} :
    Path (b :: path) → c ∈ g.successors b → Path (c :: b :: path)

def OnEveryPath (d b : BlockId) : Prop :=
  ∀ path, g.Path (b :: path) → d ∈ b :: path

/-- Whoever comes to a node by some path has passed its operands. -/
def OperandsOnPaths : Prop :=
  ∀ {n node}, g.node? n = some node → ∀ o ∈ node.kind.operands,
    ∃ operand, g.node? o = some operand ∧
      (operand.block = node.block ∨ g.OnEveryPath operand.block node.block)

variable {g}

theorem Path.leads {b : BlockId} {path : List BlockId} (h : g.Path (b :: path)) :
    g.Leads entryBlock b := by
  have hall : ∀ {path}, g.Path path → ∀ b ∈ path.head?, g.Leads entryBlock b := by
    intro path h
    induction h with
    | entry =>
      rintro b ⟨⟩
      exact .refl
    | @step b c path _ hc ih =>
      rintro _ ⟨⟩
      exact (ih b rfl).tail hc
  exact hall h b rfl

theorem onEveryPath_of_closed {d b : BlockId} (around : List BlockId)
    (hentry : entryBlock = d ∨ entryBlock ∈ around)
    (hclosed : ∀ c ∈ around, ∀ c' ∈ g.successors c, c' = d ∨ c' ∈ around) (hb : b ∉ around) :
    g.OnEveryPath d b := by
  have hall : ∀ {path}, g.Path path → d ∈ path ∨ ∀ c ∈ path, c ∈ around := by
    intro path h
    induction h with
    | entry => simpa [eq_comm] using hentry
    | @step c c' path _ hc' ih =>
      rcases ih with hd | hpath
      · exact .inl (List.mem_cons_of_mem _ hd)
      · rcases hclosed c (hpath c List.mem_cons_self) c' hc' with rfl | haround
        · exact .inl List.mem_cons_self
        · exact .inr (List.forall_mem_cons.2 ⟨haround, hpath⟩)
  intro path h
  exact (hall h).resolve_right fun hpath => hb (hpath b List.mem_cons_self)

/-- Operands of other blocks are on every path if they lie in a block that no path gets around. -/
theorem operandsOnPaths_of_closed {d : BlockId} (around : List BlockId)
    (hentry : entryBlock = d ∨ entryBlock ∈ around)
    (hclosed : ∀ c ∈ around, ∀ c' ∈ g.successors c, c' = d ∨ c' ∈ around)
    (hoperands : ∀ n ∈ g.nodes, ∀ o ∈ n.kind.operands,
      ∃ m ∈ g.node? o, m.block = n.block ∨ m.block = d ∧ n.block ∉ around) :
    g.OperandsOnPaths := by
  intro n node hn o ho
  obtain ⟨m, hm, hb⟩ := hoperands node (Array.mem_of_getElem? hn) o ho
  refine ⟨m, hm, hb.imp_right fun ⟨hd, hb⟩ => ?_⟩
  rw [hd]
  exact onEveryPath_of_closed around hentry hclosed hb

end Graph

end Dataflow

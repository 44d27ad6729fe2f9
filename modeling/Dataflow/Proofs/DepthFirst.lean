import Dataflow.Proofs.Paths
import Mathlib.Data.List.Perm.Subperm

/-!
# Depth-first order

Below a vertex, a search finishes whatever it comes to see, once and with all successors, and what
it finishes there the vertex leads to (`spec_explore`). From the entry it starts with nothing seen,
so the order holds the blocks that the entry leads to (`mem_order_iff`), and an edge back to an
earlier place lies on a cycle (`leads_of_idxOf_le`). Without cycles every edge goes forward
(`Acyclic.idxOf_lt`). All that is known of the order is put together in `order_of_build`.
-/

namespace Dataflow

namespace Search

variable {count : Nat} {successors : Nat → List Nat}

/-- The search has seen some of `count` vertices, each of them once, and finished some of these. A
finished vertex has its successors seen, and is finished before a successor only if that leads back
to it. -/
structure Sound (count : Nat) (successors : Nat → List Nat) (s : Search) : Prop where
  nodup : s.seen.Nodup
  lt : ∀ v ∈ s.seen, v < count
  nodup_finished : s.finished.Nodup
  finished_seen : ∀ v ∈ s.finished, v ∈ s.seen
  closed : ∀ v ∈ s.finished, ∀ w ∈ successors v, w ∈ s.seen
  sorted : s.finished.Pairwise fun v w => v ∈ successors w → Leads successors v w

/-- A later state of a search, in which whatever is new is finished and has its successors seen. -/
structure Extends (successors : Nat → List Nat) (s s' : Search) : Prop where
  seen : ∀ v ∈ s.seen, v ∈ s'.seen
  finished : ∀ v ∈ s.finished, v ∈ s'.finished
  new : ∀ v ∈ s'.seen, v ∉ s.seen → v ∈ s'.finished ∧ ∀ w ∈ successors v, w ∈ s'.seen

/-- What a search from these vertices on has come to. -/
structure Explored (count : Nat) (successors : Nat → List Nat) (vs : List Nat)
    (s s' : Search) : Prop extends Extends successors s s' where
  sound : s'.Sound count successors
  visited : ∀ v ∈ vs, v ∈ s'.seen
  origin : ∀ w ∈ s'.finished, w ∈ s.finished ∨ w ∉ s.seen ∧ ∃ v ∈ vs, Leads successors v w

theorem Extends.refl (s : Search) : Extends successors s s :=
  ⟨fun _ h => h, fun _ h => h, fun _ h hnew => absurd h hnew⟩

theorem Extends.trans {s s' s'' : Search} (h : Extends successors s s')
    (h' : Extends successors s' s'') : Extends successors s s'' where
  seen := fun v hv => h'.seen v (h.seen v hv)
  finished := fun v hv => h'.finished v (h.finished v hv)
  new := fun v hv hnew => by
    by_cases hs' : v ∈ s'.seen
    · obtain ⟨hfinished, hsuccessors⟩ := h.new v hs' hnew
      exact ⟨h'.finished v hfinished, fun w hw => h'.seen w (hsuccessors w hw)⟩
    · exact h'.new v hv hs'

theorem Sound.length_le {s : Search} (h : s.Sound count successors) : s.seen.length ≤ count := by
  have hsub : s.seen ⊆ List.range count := fun v hv => List.mem_range.2 (h.lt v hv)
  simpa using (List.subperm_of_subset h.nodup hsub).length_le

theorem Sound.length_mono {s s' : Search} (h : s.Sound count successors)
    (hextends : Extends successors s s') : s.seen.length ≤ s'.seen.length :=
  (List.subperm_of_subset h.nodup hextends.seen).length_le

/-- The state in which the search goes on below an unseen vertex. -/
theorem Sound.see {s : Search} (h : s.Sound count successors) {v : Nat} (hseen : v ∉ s.seen)
    (hv : v < count) : Sound count successors { s with seen := v :: s.seen } where
  nodup := List.nodup_cons.2 ⟨hseen, h.nodup⟩
  lt := List.forall_mem_cons.2 ⟨hv, h.lt⟩
  nodup_finished := h.nodup_finished
  finished_seen := fun w hw => List.mem_cons_of_mem _ (h.finished_seen w hw)
  closed := fun w hw u hu => List.mem_cons_of_mem _ (h.closed w hw u hu)
  sorted := h.sorted

/-- The vertex is finished once its successors have been explored. Whatever has been finished before
it was seen has no edge to it, and the rest it leads to. -/
theorem Explored.finish {s below : Search} (hs : s.Sound count successors) {v : Nat}
    (hseen : v ∉ s.seen)
    (h : Explored count successors (successors v) { s with seen := v :: s.seen } below) :
    Explored count successors [v] s { below with finished := v :: below.finished } where
  seen := fun w hw => h.seen w (List.mem_cons_of_mem _ hw)
  finished := fun w hw => List.mem_cons_of_mem _ (h.finished w hw)
  new := fun w hw hnew => by
    by_cases hwv : w = v
    · subst hwv
      exact ⟨List.mem_cons_self, h.visited⟩
    · have hnew' : w ∉ v :: s.seen := by simp [hwv, hnew]
      exact (h.new w hw hnew').imp_left (List.mem_cons_of_mem _)
  sound := by
    have hself : v ∈ below.seen := h.seen v List.mem_cons_self
    refine ⟨h.sound.nodup, h.sound.lt, List.nodup_cons.2 ⟨fun hv => ?_, h.sound.nodup_finished⟩,
      List.forall_mem_cons.2 ⟨hself, h.sound.finished_seen⟩,
      List.forall_mem_cons.2 ⟨h.visited, h.sound.closed⟩,
      List.pairwise_cons.2 ⟨fun w hw hvw => ?_, h.sound.sorted⟩⟩
    · rcases h.origin v hv with hold | ⟨hnew, -⟩
      · exact hseen (hs.finished_seen v hold)
      · exact hnew List.mem_cons_self
    · rcases h.origin w hw with hold | ⟨-, u, hu, hleads⟩
      · exact absurd (hs.closed w hold v hvw) hseen
      · exact .head hu hleads
  visited := by
    simpa using h.seen v List.mem_cons_self
  origin := fun w hw => by
    rcases List.mem_cons.1 hw with rfl | hw
    · exact .inr ⟨hseen, w, List.mem_cons_self, .refl⟩
    · refine (h.origin w hw).imp_right fun ⟨hnew, u, hu, hleads⟩ => ?_
      exact ⟨fun hw => hnew (List.mem_cons_of_mem _ hw), v, List.mem_cons_self, .head hu hleads⟩

theorem spec_foldl {visit : Search → Nat → Search} {depth : Nat}
    (hvisit : ∀ s v, s.Sound count successors → count ≤ depth + s.seen.length → v < count →
      Explored count successors [v] s (visit s v)) :
    ∀ (vs : List Nat) (s : Search), s.Sound count successors → count ≤ depth + s.seen.length →
      (∀ v ∈ vs, v < count) → Explored count successors vs s (vs.foldl visit s)
  | [], s, hs, _, _ => ⟨.refl s, hs, by simp, fun _ hw => .inl hw⟩
  | v :: rest, s, hs, hdepth, hlt => by
    obtain ⟨hv, hrest⟩ := List.forall_mem_cons.1 hlt
    have hfirst := hvisit s v hs hdepth hv
    have hmono := hs.length_mono hfirst.toExtends
    have hothers := spec_foldl hvisit rest _ hfirst.sound (by omega) hrest
    refine ⟨hfirst.toExtends.trans hothers.toExtends, hothers.sound,
      List.forall_mem_cons.2 ⟨?_, hothers.visited⟩, fun w hw => ?_⟩
    · exact hothers.seen v (hfirst.visited v List.mem_cons_self)
    · rcases hothers.origin w hw with hw | ⟨hnew, u, hu, hleads⟩
      · refine (hfirst.origin w hw).imp_right fun ⟨hnew, u, hu, hleads⟩ => ?_
        exact ⟨hnew, v, List.mem_cons_self, List.mem_singleton.1 hu ▸ hleads⟩
      · exact .inr ⟨fun hw => hnew (hfirst.seen w hw), u, List.mem_cons_of_mem _ hu, hleads⟩

theorem spec_explore (hsuccessors : ∀ v < count, ∀ w ∈ successors v, w < count) :
    ∀ (depth : Nat) (s : Search) (v : Nat), s.Sound count successors →
      count ≤ depth + s.seen.length → v < count →
      Explored count successors [v] s (explore successors depth s v)
  | depth, s, v, hs, hdepth, hv => by
    by_cases hseen : v ∈ s.seen
    · have hsame : explore successors depth s v = s := by
        cases depth with
        | zero => rfl
        | succ depth => rw [explore, if_pos hseen]
      rw [hsame]
      exact ⟨.refl s, hs, by simpa using hseen, fun _ hw => .inl hw⟩
    have hs' := hs.see hseen hv
    have hlength := hs'.length_le
    rw [List.length_cons] at hlength
    -- An unseen vertex leaves depth to go on with, or everything would have been seen.
    cases depth with
    | zero => omega
    | succ depth =>
      rw [explore, if_neg hseen]
      exact .finish hs hseen (spec_foldl (spec_explore hsuccessors depth) (successors v) _ hs'
        (by rw [List.length_cons]; omega) (hsuccessors v hv))

theorem head?_reversePostorder (hcount : 0 < count) (start : Nat) :
    (reversePostorder count successors start).head? = some start := by
  obtain ⟨depth, rfl⟩ := Nat.exists_eq_succ_of_ne_zero (Nat.ne_of_gt hcount)
  simp [reversePostorder, explore]

end Search

namespace Graph

variable {g : Graph}

theorem WellFormed.explored_order (h : g.WellFormed) :
    ∃ seen, Search.Explored g.blocks.size g.successors [entryBlock] ⟨[], []⟩ ⟨seen, g.order⟩ := by
  rw [g.order_eq]
  refine ⟨_, Search.spec_explore (fun _ _ _ hc => h.successors_lt hc) g.blocks.size ⟨[], []⟩
    entryBlock ⟨List.nodup_nil, ?_, List.nodup_nil, ?_, ?_, .nil⟩ ?_ h.entry_lt⟩ <;> simp

theorem WellFormed.mem_order_iff (h : g.WellFormed) {b : BlockId} :
    b ∈ g.order ↔ g.Leads entryBlock b := by
  obtain ⟨seen, hexplored⟩ := h.explored_order
  constructor
  · intro hb
    obtain ⟨-, b', hb', hleads⟩ := (hexplored.origin b hb).resolve_left (by simp)
    rwa [List.mem_singleton.1 hb'] at hleads
  · intro hleads
    have hseen : b ∈ seen := by
      induction hleads with
      | refl => exact hexplored.visited entryBlock List.mem_cons_self
      | tail _ hc ih => exact (hexplored.new _ ih (by simp)).2 _ hc
    exact (hexplored.new b hseen (by simp)).1

theorem WellFormed.isReachable_iff (h : g.WellFormed) {b : BlockId} :
    g.isReachable b ↔ g.Leads entryBlock b := by
  rw [isReachable, List.contains_iff_mem, h.mem_order_iff]

theorem WellFormed.lt_of_leads (h : g.WellFormed) {b : BlockId} (hleads : g.Leads entryBlock b) :
    b < g.blocks.size := by
  cases hleads with
  | refl => exact h.entry_lt
  | tail _ hb => exact h.successors_lt hb

theorem WellFormed.nodup_order (h : g.WellFormed) : g.order.Nodup := by
  obtain ⟨seen, hexplored⟩ := h.explored_order
  exact hexplored.sound.nodup_finished

theorem WellFormed.head?_order (h : g.WellFormed) : g.order.head? = some entryBlock := by
  rw [g.order_eq]
  exact Search.head?_reversePostorder h.entry_lt entryBlock

theorem WellFormed.mem_deadBlocks_iff (h : g.WellFormed) {b : BlockId} :
    b ∈ g.deadBlocks ↔ b < g.blocks.size ∧ ¬g.Leads entryBlock b := by
  simp [deadBlocks, blockIds, ← h.isReachable_iff]

/-- An edge back to an earlier place in the order, or to the same one, lies on a cycle. -/
theorem WellFormed.leads_of_idxOf_le (h : g.WellFormed) {b c : BlockId} (hb : b ∈ g.order)
    (hc : c ∈ g.successors b) (hle : g.order.idxOf c ≤ g.order.idxOf b) : g.Leads c b := by
  obtain ⟨seen, hexplored⟩ := h.explored_order
  have hcmem : c ∈ g.order := h.mem_order_iff.2 ((h.mem_order_iff.1 hb).tail hc)
  have hblt := List.idxOf_lt_length_of_mem hb
  have hclt := List.idxOf_lt_length_of_mem hcmem
  rcases Nat.lt_or_eq_of_le hle with hlt | heq
  · have hback := List.pairwise_iff_getElem.1 hexplored.sound.sorted _ _ hclt hblt hlt
    rw [List.getElem_idxOf, List.getElem_idxOf] at hback
    exact hback hc
  · rw [(List.idxOf_inj hcmem).1 heq]
    exact .refl

theorem isReachable_of_path (h : g.WellFormed) {b : BlockId} {path : List BlockId}
    (hpath : g.Path (b :: path)) : g.isReachable b :=
  h.isReachable_iff.2 hpath.leads

/-- No edge between reachable blocks leads back to where it comes from. -/
def Acyclic (g : Graph) : Prop :=
  ∀ b, g.isReachable b → ∀ c ∈ g.successors b, ¬ g.Leads c b

theorem acyclic_of_rank (rank : BlockId → Nat)
    (hrank : ∀ b ∈ g.blockIds, ∀ c ∈ g.successors b, rank b < rank c) : g.Acyclic := by
  have hedge : ∀ {b c}, c ∈ g.successors b → rank b < rank c := by
    intro b c hc
    exact hrank b (List.mem_range.2 (lt_of_mem_successors hc)) c hc
  intro b _ c hc hleads
  have hle : ∀ {d}, g.Leads c d → rank c ≤ rank d := by
    intro d hleads
    induction hleads with
    | refl => exact Nat.le_refl _
    | tail _ hd ih => exact Nat.le_trans ih (Nat.le_of_lt (hedge hd))
  exact Nat.not_lt.2 (hle hleads) (hedge hc)

theorem Acyclic.idxOf_lt (h : g.Acyclic) (hg : g.WellFormed) {b c : BlockId}
    (hb : g.isReachable b) (hc : c ∈ g.successors b) : g.order.idxOf b < g.order.idxOf c :=
  Nat.lt_of_not_le fun hle =>
    h b hb c hc (hg.leads_of_idxOf_le (List.contains_iff_mem.1 hb) hc hle)

/-- The order of a built graph starts at the entry and holds every block once that the entry leads
to. These are the reachable blocks, and all others are dead, by increasing number. An edge that does
not go forward in the order comes from a block that its target leads to, so where there is no cycle
every edge goes forward. -/
theorem order_of_build {operations : List Operation} (hbuild : Graph.build operations = .ok g) :
    (g.order.Nodup ∧ g.order.head? = some entryBlock ∧
      ∀ b, b ∈ g.order ↔ g.Leads entryBlock b) ∧
    (∀ b, g.isReachable b ↔ g.Leads entryBlock b) ∧
    (∀ b, g.blocks.size ≤ b → g.isReachable b = false) ∧
    (g.deadBlocks.Pairwise (· < ·) ∧
      ∀ b, b ∈ g.deadBlocks ↔ b < g.blocks.size ∧ ¬g.Leads entryBlock b) ∧
    (∀ b ∈ g.order, ∀ c ∈ g.successors b, g.order.idxOf c ≤ g.order.idxOf b → g.Leads c b) ∧
    (g.Acyclic → ∀ b ∈ g.order, ∀ c ∈ g.successors b, g.order.idxOf b < g.order.idxOf c) := by
  have hg := wellFormed_of_build hbuild
  refine ⟨⟨hg.nodup_order, hg.head?_order, fun b => hg.mem_order_iff⟩, fun b => hg.isReachable_iff,
    fun b hle => ?_, ⟨List.pairwise_lt_range.filter _, fun b => hg.mem_deadBlocks_iff⟩,
    fun b hb c hc hle => hg.leads_of_idxOf_le hb hc hle,
    fun hacyclic b hb c hc => hacyclic.idxOf_lt hg (List.contains_iff_mem.2 hb) hc⟩
  rw [Bool.eq_false_iff]
  intro hreachable
  exact Nat.not_lt.2 hle (hg.lt_of_leads (hg.isReachable_iff.1 hreachable))

/-- A loop with two ways in, in which a handler leads back to its own block, and a dead block before
it. -/
def crossedLoop : List Operation :=
  [.addConditional, .pushNode 3 (.marker "which"), .addRegular, .addExceptional, .addRegular,
    .connect 0 3, .connectBranches 3 4 5, .connect 4 5, .connect 5 4, .addHandler 5 "E" 5,
    .addHandler 5 "F" 1, .connect 6 4]

/-- The same without the edges back. -/
def uncrossed : List Operation :=
  crossedLoop ++ [.connect 5 1, .addHandler 5 "E" 1]

def crossedLoopGraph : Graph :=
  .ofTables
    #[⟨0, .entry 3⟩, ⟨1, .exit⟩, ⟨2, .exceptionalExit⟩,
      ⟨3, .conditional 0 ⟨4, .eachToEach⟩ ⟨5, .eachToEach⟩⟩, ⟨4, .regular [] 5⟩,
      ⟨5, .exceptional [] 4 ⟨[("E", 5), ("F", 1)], by decide⟩⟩, ⟨6, .regular [] 4⟩]
    #[⟨0, 3, .marker "which"⟩]

def uncrossedGraph : Graph :=
  .ofTables
    #[⟨0, .entry 3⟩, ⟨1, .exit⟩, ⟨2, .exceptionalExit⟩,
      ⟨3, .conditional 0 ⟨4, .eachToEach⟩ ⟨5, .eachToEach⟩⟩, ⟨4, .regular [] 5⟩,
      ⟨5, .exceptional [] 1 ⟨[("E", 1), ("F", 1)], by decide⟩⟩, ⟨6, .regular [] 4⟩]
    #[⟨0, 3, .marker "which"⟩]

theorem build_crossedLoop : Graph.build crossedLoop = .ok crossedLoopGraph := rfl

theorem build_uncrossed : Graph.build uncrossed = .ok uncrossedGraph := rfl

theorem acyclic_uncrossed : uncrossedGraph.Acyclic :=
  acyclic_of_rank (fun b => [0, 4, 4, 1, 2, 3, 0].getD b 0) (by decide)

/-- The edge from block 5 back to block 4 lies on a cycle. Without it every edge goes forward. -/
theorem order_crossedLoop :
    Graph.build crossedLoop = .ok crossedLoopGraph ∧ crossedLoopGraph.order = [0, 3, 4, 5, 1] ∧
      (∀ b, b ∈ crossedLoopGraph.order ↔ crossedLoopGraph.Leads entryBlock b) ∧
      crossedLoopGraph.deadBlocks = [2, 6] ∧ ¬crossedLoopGraph.Leads entryBlock 6 ∧
      crossedLoopGraph.Leads 4 5 ∧ Graph.build uncrossed = .ok uncrossedGraph ∧
      uncrossedGraph.Acyclic ∧ ∀ b ∈ uncrossedGraph.order, ∀ c ∈ uncrossedGraph.successors b,
        uncrossedGraph.order.idxOf b < uncrossedGraph.order.idxOf c := by
  obtain ⟨⟨-, -, hmem⟩, -, -, ⟨-, hdead⟩, hback, -⟩ := order_of_build build_crossedLoop
  obtain ⟨-, -, -, -, -, hforward⟩ := order_of_build build_uncrossed
  exact ⟨build_crossedLoop, by decide, hmem, by decide, ((hdead 6).1 (by decide)).2,
    hback 5 (by decide) 4 (by decide) (by decide), build_uncrossed, acyclic_uncrossed,
    hforward acyclic_uncrossed⟩

end Graph

end Dataflow

import Dataflow.Proofs.Correspondence
import Dataflow.Proofs.LawfulDomain

/-!
# Monotone transfer functions

A block sends along its edges as much as its nodes come to. If every visit of a node comes to more
from a greater state, whatever the values, so does every block (`monotoneOnEdges`).
-/

namespace Dataflow

variable {V S : Type} [DecidableEq S] [AbstractDomain S]

namespace Transfer

variable (t : Transfer V S) (g : Graph)

/-- What a block sends along an edge from a state at its entry, and from no values. -/
def sentFrom (b : Block) (entry : S) (e : Edge) : Option S :=
  Pass.sent b.shape entry (t.pass g.nodes .empty entry (g.nodesOf b)) e

theorem isSome_sentFrom (b : Block) (entry entry' : S) (e : Edge) :
    (t.sentFrom g b entry e).isSome = (t.sentFrom g b entry' e).isSome := by
  rw [sentFrom, sentFrom, Pass.isSome_sent, Pass.isSome_sent]

/-- A block sends more from a greater state. -/
def MonotoneOnEdges : Prop :=
  ∀ {b block}, g.block? b = some block → ∀ {e target}, (e, target) ∈ block.shape.edges →
    ∀ {entry entry' state state' : S}, below entry entry' →
      t.sentFrom g block entry e = some state → t.sentFrom g block entry' e = some state' →
        below state state'

end Transfer

/-- The one result, from the one state, leaves less in every way than the other. -/
structure NodeResult.Below (state state' : S) (r r' : NodeResult V S) : Prop where
  thenState : below r.outflow.thenState r'.outflow.thenState
  elseState : below r.outflow.elseState r'.outflow.elseState
  thrown : ∀ e, below ((r.thrown.get? e).getD state) ((r'.thrown.get? e).getD state')

/-- A visit of a node comes to more from a greater state, whatever the values. -/
def Transfer.GrowsWithState (t : Transfer V S) : Prop :=
  ∀ n nodes {state state' : S} (values values' : Table V), below state state' →
    (t.visit ⟨n, nodes, state, values⟩).Below state state' (t.visit ⟨n, nodes, state', values'⟩)

variable [Inspect S] (hS : Lawful S)

include hS

theorem Outflow.joined_eq (o : Outflow S) : o.joined = join o.thenState o.elseState := by
  cases o with
  | single s => exact (hS.join_self s).symm
  | split t e => rfl

theorem Lawful.join_mono {a a' b b' : S} (ha : below a a') (hb : below b b') :
    below (join a b) (join a' b') :=
  hS.join_below (hS.below_trans ha (hS.below_join_left a' b'))
    (hS.below_trans hb (hS.below_join_right a' b'))

namespace NodeResult.Below

omit [Inspect S] hS in
theorem of_single {state state' s s' : S} (value value' : V) (hstate : below state state')
    (h : below s s') : Below state state' (.single value s) (.single value' s') :=
  ⟨h, h, fun _ => hstate⟩

omit [Inspect S] hS in
theorem of_split {state state' t e t' e' : S} (value value' : V) (hstate : below state state')
    (ht : below t t') (he : below e e') :
    Below state state' (.split value t e) (.split value' t' e') :=
  ⟨ht, he, fun _ => hstate⟩

theorem joined {state state' : S} {r r' : NodeResult V S} (h : r.Below state state' r') :
    below r.outflow.joined r'.outflow.joined := by
  rw [Outflow.joined_eq hS, Outflow.joined_eq hS]
  exact hS.join_mono h.thenState h.elseState

end NodeResult.Below

/-- The order of two states, whatever the values. -/
def Correspondence.order (V S : Type) [DecidableEq S] [AbstractDomain S] :
    Correspondence Bool V S where
  state u := below (u false) (u true)
  value _ _ := True

theorem Transfer.GrowsWithState.respects {t : Transfer V S} (h : t.GrowsWithState) (g : Graph) :
    t.Respects g (fun _ _ => False) (.order V S) where
  join := fun hs hs' => hS.join_mono hs hs'
  visit := fun n _ _ values hstates _ =>
    have hbelow := h n g.nodes (values false) (values true) hstates
    ⟨trivial, hbelow.joined hS, fun _ => hbelow.thenState, fun _ => hbelow.elseState, hbelow.thrown⟩

theorem Transfer.GrowsWithState.monotoneOnEdges {t : Transfer V S} (h : t.GrowsWithState)
    (g : Graph) : t.MonotoneOnEdges g := by
  intro b block _ e target he entry entry' state state' hentry hstate hstate'
  have hrespects := h.respects hS g
  have hmem : ∀ n ∈ g.nodesOf block, n ∈ g.nodes := by
    intro n hn
    obtain ⟨i, -, hi⟩ := List.mem_filterMap.1 hn
    exact Array.mem_of_getElem? hi
  have hstates : (Correspondence.order V S).state fun i => bif i then entry' else entry := hentry
  obtain ⟨visits, hpass, hvisits⟩ := hrespects.exists_visits (g.nodesOf block)
    (fun _ => .empty) hmem hstates fun _ _ _ _ _ ho => ho.elim
  have houtcomes : ∀ F ∈ visits, (F false).result.Below (F false).state (F true).state
      (F true).result := by
    intro F hF
    obtain ⟨n, -, hn⟩ := hvisits F hF
    have hvisit : ∀ i, ∃ values, (F i).result = t.visit ⟨n, g.nodes, (F i).state, values⟩ := by
      intro i
      have hFi : F i ∈ t.pass g.nodes .empty _ (g.nodesOf block) :=
        hpass i ▸ List.mem_map_of_mem hF
      obtain ⟨values, hvisit⟩ := exists_eq_visitNode_of_mem_pass t hFi
      rw [hn.node i] at hvisit
      exact ⟨values, congrArg NodeVisit.result hvisit⟩
    obtain ⟨values, hfalse⟩ := hvisit false
    obtain ⟨values', htrue⟩ := hvisit true
    rw [hfalse, htrue]
    exact h n g.nodes values values' hn.state
  have hout : (Correspondence.order V S).state fun i => bif i then state' else state := by
    refine hrespects.sent_of_visits hstates (fun F hF => (hvisits F hF).imp fun _ => And.right)
      (fun _ F hF => ⟨(houtcomes F hF).thenState, (houtcomes F hF).elseState⟩) he ?_
    rintro (_ | _) <;> rw [hpass] <;> assumption
  exact hout

end Dataflow

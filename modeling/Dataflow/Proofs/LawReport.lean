import Dataflow.Checker.Tabulated
import Dataflow.Proofs.LawfulStores
import Mathlib.Algebra.BigOperators.Group.List.Defs
import Mathlib.Algebra.Group.Action.Defs
import Mathlib.Data.List.Sort
import Mathlib.Tactic.Ring

/-!
# Reports on laws

A check of three states finds the first law that fails of them, and nothing if all hold
(`Law.firstViolation?_eq_some_iff`, `Law.isSome_firstViolation?_iff`). The report on a list of
samples therefore has one violation for every three positions at which a law fails, in the order of
the positions (`Law.report_exact`). On samples of which all laws hold (`Law.HoldOn`) the order test
is a partial order, whether it comes from the join or is one of its own.
-/

namespace Dataflow

/-- What is found in a list, beside where it is found. -/
theorem forall₂_filterMap {α β : Type} (f : α → Option β) : ∀ l : List α,
    List.Forall₂ (fun a b => f a = some b) (l.filter fun a => (f a).isSome) (l.filterMap f)
  | [] => .nil
  | a :: rest => by
    have ih := forall₂_filterMap f rest
    cases h : f a with
    | none => simpa [List.filter_cons, List.filterMap_cons, h] using ih
    | some b => simpa [List.filter_cons, List.filterMap_cons, h] using ih

namespace Law

/-! ## Three states -/

section States

variable {S : Type} [DecidableEq S] [AbstractDomain S] {a b c : S}

/-- The law fails, and no law before it does. -/
def FailsFirst (a b c : S) (law : Law) : Prop :=
  ¬law.Asserts a b c ∧
    ∃ earlier later, all = earlier ++ law :: later ∧ ∀ l ∈ earlier, l.Asserts a b c

variable [Inspect S]

theorem firstViolation?_eq_some_iff {v : Violation} :
    firstViolation? a b c = some v ↔ v.law.FailsFirst a b c ∧ v.detail = v.law.detail a b c := by
  simp only [firstViolation?_eq_find?, Option.map_eq_some_iff, List.find?_eq_some_iff_append,
    decide_not, Bool.not_not, Bool.not_eq_true', decide_eq_false_iff_not, decide_eq_true_eq]
  constructor
  · rintro ⟨law, hfails, rfl⟩
    exact ⟨hfails, rfl⟩
  · rintro ⟨hfails, hdetail⟩
    exact ⟨v.law, hfails, by rw [← hdetail]⟩

theorem isSome_firstViolation?_iff :
    (firstViolation? a b c).isSome ↔ ∃ law : Law, ¬law.Asserts a b c := by
  rw [← Option.ne_none_iff_isSome, ne_eq, firstViolation?_eq_none_iff, not_forall]

end States

/-! ## The triples of a list -/

section Triples

variable {α β : Type} {l : List α}

theorem length_triples (l : List α) : (triples l).length = l.length ^ 3 := by
  simp only [triples, List.length_flatMap, List.length_map, List.map_const', List.sum_replicate,
    smul_eq_mul]
  ring

theorem mem_triples {a b c : α} : (a, b, c) ∈ triples l ↔ a ∈ l ∧ b ∈ l ∧ c ∈ l := by
  simp [triples]

theorem triples_map (f : α → β) (l : List α) :
    triples (l.map f) = (triples l).map fun (a, b, c) => (f a, f b, f c) := by
  simp [triples, List.map_flatMap, List.flatMap_map, Function.comp_def]

/-- The triples are in lexicographic order if the list is in order. -/
theorem pairwise_triples {r : α → α → Prop} (h : l.Pairwise r) :
    (triples l).Pairwise (Prod.Lex r (Prod.Lex r r)) := by
  refine List.pairwise_flatMap.2 ⟨fun a _ => List.pairwise_flatMap.2 ⟨fun b _ => ?_, ?_⟩, ?_⟩
  · exact List.pairwise_map.2 (h.imp fun hr => .right a (.right b hr))
  · refine h.imp fun hr p hp q hq => ?_
    obtain ⟨_, _, rfl⟩ := List.mem_map.1 hp
    obtain ⟨_, _, rfl⟩ := List.mem_map.1 hq
    exact .right a (.left _ _ hr)
  · refine h.imp fun hr p hp q hq => ?_
    simp only [List.mem_flatMap, List.mem_map] at hp hq
    obtain ⟨_, _, _, _, rfl⟩ := hp
    obtain ⟨_, _, _, _, rfl⟩ := hq
    exact .left _ _ hr

end Triples

/-! ## The report -/

section Report

variable {S : Type} [DecidableEq S] [AbstractDomain S] {samples : List S}

/-- Every law holds of every three of the samples. -/
def HoldOn (samples : List S) : Prop :=
  ∀ a ∈ samples, ∀ b ∈ samples, ∀ c ∈ samples, ∀ law : Law, law.Asserts a b c

theorem HoldOn.below_iff (h : HoldOn samples) {a b : S} (ha : a ∈ samples) (hb : b ∈ samples) :
    below a b ↔ join a b = b :=
  h a ha b hb a ha subsumptionConsistency

theorem HoldOn.below_refl (h : HoldOn samples) {a : S} (ha : a ∈ samples) : below a a :=
  (h.below_iff ha ha).2 (h a ha a ha a ha idempotence)

theorem HoldOn.below_antisymm (h : HoldOn samples) {a b : S} (ha : a ∈ samples)
    (hb : b ∈ samples) (hab : below a b) (hba : below b a) : a = b := by
  have hcomm : join a b = join b a := h a ha b hb a ha commutativity
  rw [h.below_iff ha hb] at hab
  rw [h.below_iff hb ha] at hba
  rw [← hba, ← hcomm, hab]

theorem HoldOn.below_trans (h : HoldOn samples) {a b c : S} (ha : a ∈ samples) (hb : b ∈ samples)
    (hc : c ∈ samples) (hab : below a b) (hbc : below b c) : below a c := by
  have hassoc : join (join a b) c = join a (join b c) := h a ha b hb c hc associativity
  rw [h.below_iff ha hb] at hab
  rw [h.below_iff hb hc] at hbc
  rw [h.below_iff ha hc]
  calc join a c = join a (join b c) := by rw [hbc]
    _ = join (join a b) c := hassoc.symm
    _ = c := by rw [hab, hbc]

variable [Inspect S]

theorem isLawful_report_iff : (report samples).isLawful ↔ HoldOn samples := by
  simp only [LawReport.isLawful, report, List.isEmpty_iff, List.filterMap_eq_nil_iff, Prod.forall,
    mem_triples, firstViolation?_eq_none_iff]
  exact ⟨fun h a ha b hb c hc => h a b c ⟨ha, hb, hc⟩, fun h a b c hmem =>
    h a hmem.1 b hmem.2.1 c hmem.2.2⟩

/-- Three positions of a list. -/
abbrev Positions (samples : List S) : Type :=
  Fin samples.length × Fin samples.length × Fin samples.length

/-- What the check finds at three positions. -/
def violationAt? (samples : List S) : Positions samples → Option Violation
  | (i, j, k) => firstViolation? samples[i] samples[j] samples[k]

/-- Where the check finds something. -/
def violatedAt (samples : List S) : List (Positions samples) :=
  (triples (List.finRange samples.length)).filter fun p => (violationAt? samples p).isSome

theorem pairwise_violatedAt (samples : List S) :
    (violatedAt samples).Pairwise (Prod.Lex (· < ·) (Prod.Lex (· < ·) (· < ·))) :=
  (pairwise_triples (List.sortedLT_finRange _).pairwise).filter _

theorem mem_violatedAt {i j k : Fin samples.length} :
    (i, j, k) ∈ violatedAt samples ↔
      ∃ law : Law, ¬law.Asserts samples[i] samples[j] samples[k] := by
  rw [violatedAt, List.mem_filter, mem_triples, violationAt?, isSome_firstViolation?_iff]
  simp only [List.mem_finRange, true_and]

theorem violations_report (samples : List S) :
    (report samples).violations =
      (triples (List.finRange samples.length)).filterMap (violationAt? samples) := by
  have hsamples : (List.finRange samples.length).map (fun i => samples[i]) = samples :=
    List.map_getElem_finRange samples
  have htriples := triples_map (fun i : Fin samples.length => samples[i])
    (List.finRange samples.length)
  rw [hsamples] at htriples
  rw [report, htriples, List.filterMap_map]
  rfl

theorem forall₂_violatedAt (samples : List S) :
    List.Forall₂ (fun p v => violationAt? samples p = some v) (violatedAt samples)
      (report samples).violations := by
  rw [violations_report]
  exact forall₂_filterMap _ _

/-- The report counts every three positions of the samples. It has one violation for each of them at
which a law fails, in lexicographic order, which is the first law that fails there. So it has none
exactly if all laws hold of all samples, and then the order test is a partial order on them. -/
theorem report_exact (samples : List S) :
    (report samples).checked = samples.length ^ 3 ∧
      (∃ positions : List (Positions samples),
        positions.Pairwise (Prod.Lex (· < ·) (Prod.Lex (· < ·) (· < ·))) ∧
        (∀ i j k, (i, j, k) ∈ positions ↔
          ∃ law : Law, ¬law.Asserts samples[i] samples[j] samples[k]) ∧
        List.Forall₂ (fun (i, j, k) v => v.law.FailsFirst samples[i] samples[j] samples[k] ∧
            v.detail = v.law.detail samples[i] samples[j] samples[k])
          positions (report samples).violations) ∧
      ((report samples).isLawful ↔ HoldOn samples) ∧
      ((report samples).isLawful →
        (∀ a ∈ samples, below a a) ∧
        (∀ a ∈ samples, ∀ b ∈ samples, below a b → below b a → a = b) ∧
        ∀ a ∈ samples, ∀ b ∈ samples, ∀ c ∈ samples, below a b → below b c → below a c) := by
  refine ⟨length_triples samples, ⟨violatedAt samples, pairwise_violatedAt samples,
    fun _ _ _ => mem_violatedAt, (forall₂_violatedAt samples).imp fun _ _ => ?_⟩,
    isLawful_report_iff, fun hlawful => ?_⟩
  · exact firstViolation?_eq_some_iff.1
  · have hold : HoldOn samples := isLawful_report_iff.1 hlawful
    exact ⟨fun a ha => hold.below_refl ha, fun a ha b hb => hold.below_antisymm ha hb,
      fun a ha b hb c hc => hold.below_trans ha hb hc⟩

end Report

/-! ## Samples -/

/-- Two elements, each of which claims to be below the other. -/
def tangled : OperationTable where
  join := [[0, 1], [1, 1]]
  below := some [[true, true], [true, true]]

example : (report [(⟨0⟩ : Element tangled), ⟨1⟩]).violations =
    [⟨subsumptionConsistency, "Elem(1) ⊑ Elem(0) disagrees with Elem(1) ⊔ Elem(0) = Elem(1)"⟩,
      ⟨subsumptionConsistency, "Elem(1) ⊑ Elem(0) disagrees with Elem(1) ⊔ Elem(0) = Elem(1)"⟩] := by
  decide +kernel

def fourStores : List (VarStore (Flat Int64)) :=
  [.empty, .single "x" (.exact 1), .single "x" (.exact 2), (VarStore.single "x" .top).set "y" .bottom]

/-- Four stores are lawful, on which their order is therefore partial. -/
theorem report_exact_fourStores :
    (report fourStores).isLawful ∧ (report fourStores).checked = 4 ^ 3 ∧ HoldOn fourStores ∧
      (∀ s ∈ fourStores, below s s) ∧
      (∀ s ∈ fourStores, ∀ t ∈ fourStores, below s t → below t s → s = t) ∧
      ∀ s ∈ fourStores, ∀ t ∈ fourStores, ∀ u ∈ fourStores,
        below s t → below t u → below s u := by
  have hlawful : (report fourStores).isLawful := by decide +kernel
  obtain ⟨hchecked, -, hiff, horder⟩ := report_exact fourStores
  exact ⟨hlawful, hchecked, hiff.1 hlawful, horder hlawful⟩

end Law

end Dataflow

import Dataflow.Domain.Basic
import Dataflow.Text.Inspect

/-!
# Lattice laws

Six laws that a domain has to keep for its analyses to end in a sound fixed point, and their check
on samples. `firstViolation?` reports the first law that fails on a triple; `report` checks every
ordered triple of samples.
-/

namespace Dataflow

inductive Law
  | commutativity
  | associativity
  | idempotence
  | upperBound
  | subsumptionConsistency
  | wideningUpperBound
  deriving DecidableEq

namespace Law

def all : List Law :=
  [commutativity, associativity, idempotence, upperBound, subsumptionConsistency,
    wideningUpperBound]

def name : Law → String
  | commutativity => "Commutativity"
  | associativity => "Associativity"
  | idempotence => "Idempotence"
  | upperBound => "UpperBound"
  | subsumptionConsistency => "SubsumptionConsistency"
  | wideningUpperBound => "WideningUpperBound"

def title : Law → String
  | commutativity => "commutativity"
  | associativity => "associativity"
  | idempotence => "idempotence"
  | upperBound => "upper bound"
  | subsumptionConsistency => "subsumption consistency"
  | wideningUpperBound => "widening upper bound"

variable {S : Type} [DecidableEq S] [AbstractDomain S]

/-- What is wrong with three states of which the law fails. -/
def detail [Inspect S] (a b c : S) : Law → String
  | commutativity =>
    s!"{inspect a} ⊔ {inspect b} = {inspect (join a b)} but " ++
      s!"{inspect b} ⊔ {inspect a} = {inspect (join b a)}"
  | associativity =>
    s!"({inspect a} ⊔ {inspect b}) ⊔ {inspect c} = {inspect (join (join a b) c)} but " ++
      s!"{inspect a} ⊔ ({inspect b} ⊔ {inspect c}) = {inspect (join a (join b c))}"
  | idempotence => s!"{inspect a} ⊔ {inspect a} = {inspect (join a a)}"
  | upperBound => s!"{inspect (join a b)} does not subsume {inspect a} and {inspect b}"
  | subsumptionConsistency =>
    s!"{inspect a} ⊑ {inspect b} disagrees with " ++
      s!"{inspect a} ⊔ {inspect b} = {inspect (join a b)}"
  | wideningUpperBound =>
    s!"{inspect a} ∇ {inspect b} = {inspect (widen a b)} is not an upper bound"

end Law

structure Violation where
  law : Law
  detail : String
  deriving DecidableEq

def Violation.text (v : Violation) : String :=
  s!"{v.law.title} violated: {v.detail}"

/-- The outcome of a check: how many triples were looked at, and what was found. -/
structure LawReport where
  checked : Nat
  violations : List Violation
  deriving DecidableEq

def LawReport.isLawful (r : LawReport) : Bool :=
  r.violations.isEmpty

namespace Law

variable {S : Type} [DecidableEq S] [AbstractDomain S] [Inspect S]

/-- Checks one law after the other, up to the first that fails. -/
def firstViolation? (a b c : S) : Option Violation :=
  let violation (law : Law) : Option Violation := some ⟨law, law.detail a b c⟩
  let ab := join a b
  if ab ≠ join b a then violation commutativity
  else if join ab c ≠ join a (join b c) then violation associativity
  else if join a a ≠ a then violation idempotence
  else if !below a ab || !below b ab then violation upperBound
  else if below a b != decide (ab = b) then violation subsumptionConsistency
  else
    let widened := widen a b
    if !below a widened || !below b widened then violation wideningUpperBound
    else none

/-- All ordered triples, the first component varying slowest. -/
def triples {α : Type} (samples : List α) : List (α × α × α) :=
  samples.flatMap fun a => samples.flatMap fun b => samples.map fun c => (a, b, c)

def report (samples : List S) : LawReport where
  checked := (triples samples).length
  violations := (triples samples).filterMap fun (a, b, c) => firstViolation? a b c

end Law

end Dataflow

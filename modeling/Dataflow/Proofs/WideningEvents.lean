import Dataflow.Checker.Tabulated
import Dataflow.Proofs.CounterLaws
import Dataflow.Proofs.Lockstep

/-!
# Announcements of widening

A run announces an update that widens right before it tells of it, and only the first one of a block
as the start of widening. What taking in a state adds to the events is up to the update that it
makes (`RunState.told_receive`), so that the announcements about a block are those of its updates in
turn (`Reaches.announces`), in whatever way the run ends (`widening_announced`).
-/

namespace Dataflow

namespace Event

/-- The event announces that an update of the block widens. -/
def widens (b : BlockId) : Event → Bool
  | wideningStarted block _ | widened block _ => block = b
  | _ => false

/-- The event tells that a state has been recorded at the block. -/
def records (b : BlockId) : Event → Bool
  | updated _ target => target = b
  | _ => false

/-- What a reader of the event sees. -/
def line (e : Event) : Level × String × List (String × String) :=
  (e.level, e.message, e.fields)

/-- The event has nothing to do with what is recorded. -/
def isAside : Event → Bool
  | wideningStarted .. | widened .. | updated .. => false
  | _ => true

theorem widens_of_isAside {e : Event} (h : e.isAside) (b : BlockId) : e.widens b = false := by
  cases e <;> first | rfl | cases h

theorem records_of_isAside {e : Event} (h : e.isAside) (b : BlockId) : e.records b = false := by
  cases e <;> first | rfl | cases h

/-- Every announcement is followed right away by the update of its block. -/
def AnnouncedInTime (events : List Event) : Prop :=
  ∀ pre e post b, events = pre ++ e :: post → e.widens b →
    ∃ source rest, post = .updated source b :: rest

theorem AnnouncedInTime.append {events more : List Event} (h : AnnouncedInTime events)
    (hmore : AnnouncedInTime more) : AnnouncedInTime (events ++ more) := by
  intro pre e post b heq he
  rcases List.append_eq_append_iff.1 heq with ⟨skipped, rfl, hsplit⟩ | ⟨rest, hsplit, hrest⟩
  · exact hmore skipped e post b hsplit he
  · rcases rest with _ | ⟨e', rest⟩
    · exact hmore [] e post b hrest.symm he
    · obtain ⟨rfl, rfl⟩ := List.cons.inj hrest
      obtain ⟨source, rest', rfl⟩ := h pre e rest b hsplit he
      exact ⟨source, rest' ++ more, rfl⟩

theorem announcedInTime_of_forall {events : List Event}
    (h : ∀ e ∈ events, ∀ b, e.widens b = false) : AnnouncedInTime events := by
  rintro pre e post b rfl he
  rw [h e (by simp) b] at he
  cases he

end Event

namespace Widening

/-- What the update after `updates` earlier ones announces. -/
def announcement (w : Widening) (b : BlockId) (updates : Nat) : List Event :=
  if w.startsAfter updates then [.wideningStarted b updates]
  else if w.widensAfter updates then [.widened b updates]
  else []

theorem announcement_delayed (n : Nat) (b : BlockId) (updates : Nat) :
    (delayed n).announcement b updates =
      if updates < n then []
      else if updates = n then [.wideningStarted b n]
      else [.widened b updates] := by
  unfold announcement startsAfter widensAfter
  grind

theorem announcement_always (b : BlockId) (updates : Nat) :
    always.announcement b updates = (delayed 0).announcement b updates := by
  unfold announcement startsAfter widensAfter
  grind

/-- Every update from the `n`th on is announced, the `n`th as the start. -/
theorem flatMap_announcement_delayed (n : Nat) (b : BlockId) : ∀ updates : Nat,
    (List.range updates).flatMap ((delayed n).announcement b) =
      (List.range' n (updates - n)).map fun k =>
        if k = n then .wideningStarted b k else .widened b k
  | 0 => by simp
  | updates + 1 => by
    rw [List.range_succ, List.flatMap_append, flatMap_announcement_delayed n b updates,
      List.flatMap_singleton, announcement_delayed]
    rcases Nat.lt_or_ge updates n with hlt | hge
    · rw [if_pos hlt, Nat.sub_eq_zero_of_le (Nat.le_of_lt hlt), Nat.sub_eq_zero_of_le hlt]
      rfl
    · rw [if_neg (Nat.not_lt.2 hge), Nat.succ_sub hge, List.range'_1_concat, List.map_append,
        Nat.add_sub_cancel' hge]
      split_ifs <;> simp_all

section Announcement

variable (w : Widening) (b target : BlockId) (updates : Nat)

theorem announcement_cases :
    w.announcement target updates = [] ∨
      ∃ e, w.announcement target updates = [e] ∧ (∀ b, e.widens b = decide (target = b)) ∧
        ∀ b, e.records b = false := by
  unfold announcement
  split_ifs
  · exact .inr ⟨_, rfl, fun _ => rfl, fun _ => rfl⟩
  · exact .inr ⟨_, rfl, fun _ => rfl, fun _ => rfl⟩
  · exact .inl rfl

theorem filter_widens_announcement :
    (w.announcement target updates).filter (Event.widens b) =
      if b = target then w.announcement target updates else [] := by
  rcases w.announcement_cases target updates with h | ⟨e, h, hwidens, -⟩ <;> rw [h]
  · simp
  · rw [List.filter_singleton, hwidens]
    by_cases hb : b = target
    · simp [hb]
    · simp [hb, Ne.symm hb]

theorem countP_records_announcement :
    (w.announcement target updates).countP (Event.records b) = 0 := by
  rcases w.announcement_cases target updates with h | ⟨e, h, -, hrecords⟩ <;> rw [h]
  · rfl
  · rw [List.countP_singleton, hrecords]
    rfl

theorem announcedInTime_announcement (source : BlockId) :
    Event.AnnouncedInTime (w.announcement target updates ++ [.updated source target]) := by
  rcases w.announcement_cases target updates with h | ⟨e, h, hwidens, -⟩ <;> rw [h]
  · exact Event.announcedInTime_of_forall fun e he b => by
      rw [List.mem_singleton.1 he]
      rfl
  · intro pre e' post b heq he'
    rcases pre with _ | ⟨e'', pre⟩
    · obtain ⟨rfl, rfl⟩ := List.cons.inj heq
      rw [hwidens, decide_eq_true_eq] at he'
      exact ⟨source, [], by rw [he']; rfl⟩
    · have hmem : e' ∈ [Event.updated source target] := by
        rw [show [Event.updated source target] = pre ++ e' :: post from (List.cons.inj heq).2]
        simp
      rw [List.mem_singleton.1 hmem] at he'
      cases he'

end Announcement

end Widening

/-! ## What is told of a state -/

namespace RunState

variable {V S : Type}

/-- What the second state tells of its taking in a state along an edge, after the first one. -/
structure Told (w : Widening) (s s' : RunState V S) (source target : BlockId) : Prop where
  /-- The first recording is no update. -/
  first : s.before.get? target = none →
    s'.events = s.events.push (.updated source target) ∧ s'.updatesOf target = s.updatesOf target
  replaced : (s.before.get? target).isSome → s'.before.get? target ≠ s.before.get? target →
    s'.events = s.events ++ (w.announcement target (s.updatesOf target)).toArray.push
      (.updated source target) ∧ s'.updatesOf target = s.updatesOf target + 1
  kept : s'.before.get? target = s.before.get? target →
    (s'.events = s.events ∨ s'.events = s.events.push (.subsumed source target)) ∧
      s'.updatesOf target = s.updatesOf target
  other : ∀ b, b ≠ target →
    s'.before.get? b = s.before.get? b ∧ s'.updatesOf b = s.updatesOf b

@[simp] theorem events_enqueue (order : WorklistOrder) (g : Graph) (s : RunState V S)
    (b : BlockId) : (enqueue order g s b).events = s.events := by
  unfold enqueue
  split <;> rfl

theorem events_record (order : WorklistOrder) (g : Graph) (s : RunState V S)
    (source target : BlockId) (state : S) :
    (s.record order g source target state).events = s.events.push (.updated source target) := by
  rw [record, events_enqueue]
  rfl

theorem events_announce (w : Widening) (s : RunState V S) (target : BlockId) :
    (s.announce w target).events =
      s.events ++ (w.announcement target (s.updatesOf target)).toArray := by
  simp only [announce, Widening.announcement]
  split_ifs <;> simp [emit]

theorem told_receive [DecidableEq S] [AbstractDomain S] (c : AnalysisConfig) (g : Graph)
    (s : RunState V S) (source target : BlockId) (incoming : S) :
    Told c.widening s (s.receive c g source target incoming) source target := by
  have hbefore := get?_before_receive c g s source target incoming
  have hupdates := updatesOf_receive c g s source target incoming
  refine ⟨fun hnone => ⟨?_, ?_⟩, fun hsome hne => ?_, fun hsame => ?_, fun b hb =>
    ⟨by rw [hbefore, if_neg hb], by rw [hupdates, if_neg (fun h => hb h.1), Nat.add_zero]⟩⟩
  · rw [receive, hnone]
    exact events_record ..
  · rw [hupdates, if_neg (by simp [hnone]), Nat.add_zero]
  · rw [hbefore, if_pos rfl] at hne
    refine ⟨?_, by rw [hupdates, if_pos ⟨rfl, hsome, hne.symm⟩]⟩
    obtain ⟨recorded, hrec⟩ := Option.isSome_iff_exists.1 hsome
    simp only [merged, hrec, ne_eq, Option.some.injEq] at hne
    split_ifs at hne with hbelow
    · exact absurd rfl hne
    · simp only [receive, hrec, if_neg hbelow, if_neg hne]
      rw [events_record, events_announce, Array.append_push]
  · rw [hbefore, if_pos rfl] at hsame
    refine ⟨?_, by rw [hupdates, if_neg (by simp [hsame]), Nat.add_zero]⟩
    simp only [merged] at hsame
    rcases hrec : s.before.get? target with _ | recorded <;> rw [hrec] at hsame
    · cases hsame
    · simp only [receive, hrec, Option.some.injEq] at hsame ⊢
      split_ifs at hsame ⊢ with hbelow
      · exact .inr rfl
      · exact .inl rfl

/-! ## What is told along a run -/

/-- The events tell of every update of a block, and announce those that widen. -/
structure Announces (w : Widening) (s : RunState V S) : Prop where
  widens : ∀ b, s.events.toList.filter (Event.widens b) =
    (List.range (s.updatesOf b)).flatMap (w.announcement b)
  records : ∀ b, s.events.toList.countP (Event.records b) =
    s.updatesOf b + if (s.before.get? b).isSome then 1 else 0
  inTime : Event.AnnouncedInTime s.events.toList

namespace Announces

variable {w : Widening} {s s' : RunState V S}

theorem empty (w : Widening) : (empty : RunState V S).Announces w where
  widens _ := rfl
  records _ := rfl
  inTime := Event.announcedInTime_of_forall nofun

/-- More is told, of which each block is told as much as has come of it. -/
theorem append (h : s.Announces w) (more : List Event)
    (hevents : s'.events = s.events ++ more.toArray) (hinTime : Event.AnnouncedInTime more)
    (hwidens : ∀ b, (List.range (s.updatesOf b)).flatMap (w.announcement b) ++
      more.filter (Event.widens b) = (List.range (s'.updatesOf b)).flatMap (w.announcement b))
    (hrecords : ∀ b, s.updatesOf b + (if (s.before.get? b).isSome then 1 else 0) +
      more.countP (Event.records b) =
        s'.updatesOf b + if (s'.before.get? b).isSome then 1 else 0) : s'.Announces w := by
  have hlist : s'.events.toList = s.events.toList ++ more := by simp [hevents]
  refine ⟨fun b => ?_, fun b => ?_, ?_⟩
  · rw [hlist, List.filter_append, h.widens, hwidens]
  · rw [hlist, List.countP_append, h.records, hrecords]
  · rw [hlist]
    exact h.inTime.append hinTime

/-- Other events may come in between. -/
theorem aside (h : s.Announces w) (more : List Event) (hmore : ∀ e ∈ more, e.isAside)
    (hevents : s'.events = s.events ++ more.toArray)
    (hbefore : ∀ b, s'.before.get? b = s.before.get? b)
    (hupdates : ∀ b, s'.updatesOf b = s.updatesOf b) : s'.Announces w := by
  have hnone : ∀ e ∈ more, ∀ b, e.widens b = false := fun e he =>
    Event.widens_of_isAside (hmore e he)
  refine h.append more hevents (Event.announcedInTime_of_forall hnone) (fun b => ?_) fun b => ?_
  · have hfilter : more.filter (Event.widens b) = [] :=
      List.filter_eq_nil_iff.2 fun e he => by simp [hnone e he b]
    rw [hfilter, List.append_nil, hupdates]
  · have hcount : more.countP (Event.records b) = 0 :=
      List.countP_eq_zero.2 fun e he => by simp [Event.records_of_isAside (hmore e he) b]
    rw [hcount, Nat.add_zero, hbefore, hupdates]

theorem told (h : s.Announces w) {source target : BlockId} (ht : Told w s s' source target)
    (hsome : (s'.before.get? target).isSome) : s'.Announces w := by
  by_cases hsame : s'.before.get? target = s.before.get? target
  · obtain ⟨hevents, hupdates⟩ := ht.kept hsame
    have hbefore : ∀ b, s'.before.get? b = s.before.get? b := fun b =>
      if hb : b = target then hb ▸ hsame else (ht.other b hb).1
    have hupdatesOf : ∀ b, s'.updatesOf b = s.updatesOf b := fun b =>
      if hb : b = target then hb ▸ hupdates else (ht.other b hb).2
    rcases hevents with hevents | hevents
    · exact h.aside [] nofun (by simpa using hevents) hbefore hupdatesOf
    · exact h.aside [.subsumed source target] (by simp [Event.isAside]) (by simpa using hevents)
        hbefore hupdatesOf
  · rcases hrec : s.before.get? target with _ | recorded
    · obtain ⟨hevents, hupdates⟩ := ht.first hrec
      have hupdatesOf : ∀ b, s'.updatesOf b = s.updatesOf b := fun b =>
        if hb : b = target then hb ▸ hupdates else (ht.other b hb).2
      refine h.append [.updated source target] (by simpa using hevents)
        (Event.announcedInTime_of_forall fun e he b => by rw [List.mem_singleton.1 he]; rfl)
        (fun b => by rw [hupdatesOf]; exact List.append_nil _) fun b => ?_
      rw [hupdatesOf, List.countP_singleton]
      by_cases hb : b = target
      · simp [hb, hrec, hsome, Event.records]
      · simp [(ht.other b hb).1, Event.records, Ne.symm hb]
    · have hrecorded : (s.before.get? target).isSome := by rw [hrec]; rfl
      obtain ⟨hevents, hupdates⟩ := ht.replaced hrecorded hsame
      refine h.append (w.announcement target (s.updatesOf target) ++ [.updated source target])
        (by simpa using hevents) (w.announcedInTime_announcement _ _ _) (fun b => ?_) fun b => ?_
      · rw [List.filter_append, w.filter_widens_announcement]
        by_cases hb : b = target
        · rw [if_pos hb, hb, hupdates, List.range_succ, List.flatMap_append, List.flatMap_singleton]
          exact congrArg _ (List.append_nil _)
        · rw [if_neg hb, (ht.other b hb).2]
          exact List.append_nil _
      · rw [List.countP_append, w.countP_records_announcement, List.countP_singleton]
        by_cases hb : b = target
        · simp [hb, hupdates, hrec, hsome, Event.records]
        · simp [ht.other b hb, Event.records, Ne.symm hb]

theorem emit (h : s.Announces w) {e : Event} (he : e.isAside) : (s.emit e).Announces w :=
  h.aside [e] (by simpa using he) (by simp [RunState.emit]) (fun _ => rfl) fun _ => rfl

theorem closed (h : s.Announces w) (b : BlockId) : (s.closed b).Announces w := by
  unfold RunState.closed
  split
  · exact h.aside [] nofun (by simp [setStatus]) (fun _ => rfl) fun _ => rfl
  · exact h

section Run

variable [DecidableEq S] [AbstractDomain S] {c : AnalysisConfig} (g : Graph)

theorem receive (h : s.Announces c.widening) (source target : BlockId) (state : S) :
    (s.receive c g source target state).Announces c.widening :=
  h.told (told_receive c g s source target state) <| by
    rw [get?_before_receive, if_pos rfl]
    rfl

theorem deliver (h : s.Announces c.widening) (source : BlockId) (sending : Sending S) :
    (s.deliver c g source sending).Announces c.widening := by
  cases sending with
  | normal target state => exact h.receive g source target state
  | withheld branch rule => exact h.emit rfl
  | thrown exception target state => exact (h.emit rfl).receive g source target state

theorem foldl_deliver (source : BlockId) : ∀ (sendings : List (Sending S)) {s : RunState V S},
    s.Announces c.widening → (sendings.foldl (RunState.deliver c g source) s).Announces c.widening
  | [], _, h => h
  | sending :: rest, _, h => foldl_deliver source rest (h.deliver g source sending)

theorem opened (h : s.Announces w) (c : AnalysisConfig) (v : BlockVisit V S) :
    (s.opened c v).Announces w := by
  let visiting : Event := .visiting v.block.id v.block.kind (s.visitsOf v.block.id + 1)
  let notes : List Event := v.nodes.flatMap fun n => n.notes.map Event.noted
  have hnotes : ∀ e ∈ notes, e.isAside := by
    intro e he
    obtain ⟨n, -, he⟩ := List.mem_flatMap.1 he
    obtain ⟨note, -, rfl⟩ := List.mem_map.1 he
    rfl
  refine h.aside (visiting :: notes) (List.forall_mem_cons.2 ⟨rfl, hnotes⟩) ?_ (fun _ => rfl)
    fun _ => rfl
  simp [RunState.opened, visiting, notes]

theorem visited (h : s.Announces c.widening) (v : BlockVisit V S) :
    (s.visited c g v).Announces c.widening :=
  (foldl_deliver g v.block.id _ (h.opened c v)).closed v.block.id

end Run

end Announces

end RunState

variable {V S : Type} [DecidableEq S] [AbstractDomain S]

namespace Analysis

variable {a : Analysis V S} {g : Graph} {visits : List (BlockVisit V S)} {s : RunState V S}

theorem announces_firstState (a : Analysis V S) (g : Graph) :
    (a.firstState g).Announces a.config.widening := by
  refine RunState.Announces.receive g (RunState.Announces.emit ?_ rfl) _ _ _
  split
  · exact .empty _
  · exact (RunState.Announces.empty _).emit rfl

theorem Reaches.announces (hg : g.WellFormed) (h : a.Reaches g visits s) :
    s.Announces a.config.widening := by
  induction h with
  | start hstart =>
    rw [(eq_firstState hg hstart).2]
    exact announces_firstState a g
  | visit _ _ ih => exact ih.visited g _

omit [DecidableEq S] [AbstractDomain S] in
theorem Ends.announces {w : Widening} (hs : s.Announces w) {r : Run V S} (h : a.Ends s r) :
    r.state.Announces w := by
  cases h with
  | finished _ => exact hs.emit rfl
  | @cancelled b rest _ _ =>
    exact hs.aside [.cancelled b] (List.forall_mem_singleton.2 rfl) (by simp [RunState.emit])
      (fun _ => rfl) fun _ => rfl
  | exceeded _ _ =>
    exact hs.aside [] (List.forall_mem_nil _) (by simp) (fun _ => rfl) fun _ => rfl

end Analysis

/-- In a run, however it ends, a block that has been updated `u` times after its first recording has
`u - n` announcements if the run widens after `n` updates, with the numbers from `n` on: the first
tells that widening starts, and each stands right before the update that it is about. Without
widening there are none. What is told of a state that comes to a block is up to whether it is the
first, replaces what is recorded, or leaves it as it is. -/
theorem widening_announced {operations : List Operation} {g : Graph}
    (hbuild : Graph.build operations = .ok g) (a : Analysis V S) {fuel : Nat} {r : Run V S}
    (hr : a.runFor g fuel = some r) :
    (∀ b, r.state.events.toList.countP (Event.records b) =
      r.state.updatesOf b + if (r.state.stateBefore? b).isSome then 1 else 0) ∧
    (a.config.widening = .never →
      ∀ b, r.state.events.toList.filter (Event.widens b) = []) ∧
    (∀ n, a.config.widening = .delayed n ∨ a.config.widening = .always ∧ n = 0 →
      ∀ b, r.state.events.toList.filter (Event.widens b) =
        (List.range' n (r.state.updatesOf b - n)).map fun k =>
          if k = n then .wideningStarted b k else .widened b k) ∧
    (∀ pre e post b, r.state.events.toList = pre ++ e :: post → e.widens b →
      ∃ source rest, post = .updated source b :: rest) ∧
    (∀ b k, (Event.wideningStarted b k).line =
        (.warn, "widening started", [("block", b.text), ("updates", inspect k)]) ∧
      (Event.widened b k).line =
        (.trace, "widening store", [("block", b.text), ("updates", inspect k)])) ∧
    ∀ (s : RunState V S) source target incoming,
      s.Told a.config.widening (s.receive a.config g source target incoming) source target := by
  have hg := wellFormed_of_build hbuild
  have hannounces : r.state.Announces a.config.widening := by
    rcases Analysis.exists_reaches_visitsFor (a := a) hg fuel with ⟨b, -, hr'⟩ | ⟨s, hs, hends⟩
    · obtain rfl := Option.some.inj (hr.symm.trans hr')
      exact .empty _
    · exact (hends r hr).announces (hs.announces hg)
  refine ⟨hannounces.records, fun hnever b => ?_, fun n hwiden b => ?_, hannounces.inTime,
    fun _ _ => ⟨rfl, rfl⟩, RunState.told_receive a.config g⟩
  · rw [hannounces.widens, hnever]
    exact List.flatMap_eq_nil_iff.2 fun _ _ => rfl
  · rw [hannounces.widens, ← Widening.flatMap_announcement_delayed]
    rcases hwiden with hwiden | ⟨hwiden, rfl⟩ <;> rw [hwiden]
    exact congrArg (List.flatMap · _) (funext (Widening.announcement_always b))

/-- Four elements in a row, and a step up for every body of a loop. Widening does no more than a
join, so that it goes on for several updates. -/
def climbing (config : AnalysisConfig) : Analysis (Flat Int64)
    (Element { join := [[0, 1, 2, 3], [1, 1, 2, 3], [2, 2, 2, 3], [3, 3, 3, 3]] }) where
  transfer := TabulatedChecker.transfer { initial := ⟨0⟩, effects := [("body", [1, 2, 3, 3])] }
  config := config

/-- The head of the loop is updated three times. The first update does not widen, and the run fails
after the last one. -/
theorem widening_announced_countingLoop :
    let a := climbing { widening := .delayed 1, maxBlockVisits := some 3 }
    ∃ g r, Graph.build countingLoop = .ok g ∧ a.runFor g 20 = some r ∧
      r.failure = some (.nonConvergence 3 4) ∧ r.state.updatesOf 3 = 3 ∧
      r.state.events.toList.filter (Event.widens 3) = [.wideningStarted 3 1, .widened 3 2] ∧
      ∀ pre e post b, r.state.events.toList = pre ++ e :: post → e.widens b →
        ∃ source rest, post = .updated source b :: rest := by
  intro a
  have hran : (a.runFor countingLoopGraph 20).any fun r =>
      r.failure = some (.nonConvergence 3 4) ∧ r.state.updatesOf 3 = 3 := by
    decide +kernel
  obtain ⟨r, hr, hfailed⟩ := (Option.any_eq_true _ _).1 hran
  obtain ⟨hfailure, hupdates⟩ := of_decide_eq_true hfailed
  obtain ⟨-, -, hannounced, hinTime, -⟩ := widening_announced build_countingLoop a hr
  refine ⟨_, r, build_countingLoop, hr, hfailure, hupdates, ?_, hinTime⟩
  rw [hannounced 1 (.inl rfl), hupdates]
  rfl

end Dataflow

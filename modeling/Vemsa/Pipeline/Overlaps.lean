import Vemsa.Support.Spans
import Vemsa.Pipeline.SpeakerReview

/-!
# Pipeline — Overlaps

`detect_overlaps` is the pointwise overlap.  The set of speakers at a time (`activeAt`) is a function
of time, and the sweep finds the maximal spans on which it is constant and has two speakers or more.

* Counting: between two events the counters hold the number of each speaker's turns at the time
  (`active_count`), so the set they show is the set of speakers (`positives_eq`).
* The sweep keeps a list of maximal spans up to where it is (`Swept`, `sweepStep_ok`).
* `detect_overlaps_pointwise`: so the overlaps are the maximal spans.  There is only one such list,
  so permuting the turns or cutting one into pieces changes nothing.
-/

namespace Vemsa.Pipeline
open Vemsa.Support Vemsa.Jobs

/-- The turn covers the time. -/
def Turn.Covers (turn : Turn ℚ) (t : ℚ) : Prop := turn.start ≤ t ∧ t < turn.stop

instance (turn : Turn ℚ) (t : ℚ) : Decidable (turn.Covers t) := inferInstanceAs (Decidable (_ ∧ _))

/-- Who speaks at a time. -/
def activeAt (turns : List (Turn ℚ)) (t : ℚ) : Finset String :=
  ((turns.filter fun turn => turn.Covers t).map Turn.speaker).toFinset

theorem mem_activeAt {turns : List (Turn ℚ)} {t : ℚ} {s : String} :
    s ∈ activeAt turns t ↔ ∃ turn ∈ turns, turn.Covers t ∧ turn.speaker = s := by
  simp [activeAt, and_assoc]

/-! ### Events -/

/-- The turn has a part after the start of the recording. -/
def Turn.Real (turn : Turn ℚ) : Prop := max 0 turn.start < turn.stop

instance (turn : Turn ℚ) : Decidable turn.Real := inferInstanceAs (Decidable (_ < _))

/-- What a turn adds to the counter of `s` at `t`. -/
def change (t : ℚ) (s : String) (turn : Turn ℚ) : ℤ :=
  if turn.Real ∧ turn.speaker = s then
    (if max 0 turn.start = t then 1 else 0) - if turn.stop = t then 1 else 0
  else 0

theorem Events.count_add (events : Events) (time : ℚ) (speaker : String) (n : ℤ) (t : ℚ) (s : String) :
    ((events.add time speaker n).counter t).count s =
      (events.counter t).count s + if time = t ∧ speaker = s then n else 0 := by
  by_cases h : time = t
  · subst h
    simp [Events.add, Counter.count_add]
  · simp [Events.add, h, Ne.symm h]

theorem count_addTurn (events : Events) (turn : Turn ℚ) (t : ℚ) (s : String) :
    ((addTurn events turn).counter t).count s = (events.counter t).count s + change t s turn := by
  unfold addTurn change Turn.Real
  dsimp only
  split
  · rename_i h
    simp [not_lt.mpr h]
  · rename_i h
    rw [Events.count_add, Events.count_add]
    by_cases hs : turn.speaker = s
    · simp only [not_le.mp h, hs, and_true, if_true]
      split_ifs <;> omega
    · simp [hs]

theorem times_addTurn (events : Events) (turn : Turn ℚ) (t : ℚ) :
    t ∈ (addTurn events turn).times ↔
      t ∈ events.times ∨ (turn.Real ∧ (t = max 0 turn.start ∨ t = turn.stop)) := by
  unfold addTurn Turn.Real
  dsimp only
  split
  · rename_i h
    simp [not_lt.mpr h]
  · rename_i h
    simp only [Events.add, Finset.mem_insert, not_le.mp h, true_and]
    tauto

theorem turnEvents_spec (turns : List (Turn ℚ)) :
    (∀ t s, ((turnEvents turns).counter t).count s = (turns.map (change t s)).sum) ∧
      ∀ t, t ∈ (turnEvents turns).times ↔
        ∃ turn ∈ turns, turn.Real ∧ (t = max 0 turn.start ∨ t = turn.stop) := by
  have general (events : Events) :
      (∀ t s, ((turns.foldl addTurn events).counter t).count s =
        (events.counter t).count s + (turns.map (change t s)).sum) ∧
      ∀ t, t ∈ (turns.foldl addTurn events).times ↔
        t ∈ events.times ∨ ∃ turn ∈ turns, turn.Real ∧ (t = max 0 turn.start ∨ t = turn.stop) := by
    induction turns generalizing events with
    | nil => simp
    | cons turn turns ih =>
        obtain ⟨hcount, htimes⟩ := ih (addTurn events turn)
        refine ⟨fun t s => ?_, fun t => ?_⟩
        · rw [List.foldl_cons, hcount, count_addTurn, List.map_cons, List.sum_cons, add_assoc]
        · rw [List.foldl_cons, htimes, times_addTurn, or_assoc, List.exists_mem_cons_iff]
  obtain ⟨hcount, htimes⟩ := general {}
  refine ⟨fun t s => (hcount t s).trans (zero_add _), fun t => (htimes t).trans ?_⟩
  exact or_iff_right (Finset.notMem_empty t)

/-! ### Counting -/

section Count

variable {turns : List (Turn ℚ)}

/-- How many turns of `s` cover `t`, of those that have a part after the start. -/
def activeCount (turns : List (Turn ℚ)) (s : String) (t : ℚ) : ℕ :=
  turns.countP fun turn => turn.Real ∧ turn.speaker = s ∧ max 0 turn.start ≤ t ∧ t < turn.stop

/-- No turn starts or ends strictly between. -/
def Quiet (turns : List (Turn ℚ)) (p t : ℚ) : Prop :=
  ∀ time ∈ (turnEvents turns).times, time ≤ p ∨ t ≤ time

theorem Quiet.turn {p t : ℚ} (h : Quiet turns p t) {turn : Turn ℚ} (hturn : turn ∈ turns)
    (hreal : turn.Real) :
    (max 0 turn.start ≤ p ∨ t ≤ max 0 turn.start) ∧ (turn.stop ≤ p ∨ t ≤ turn.stop) :=
  ⟨h _ ((turnEvents_spec turns).2 _ |>.mpr ⟨turn, hturn, hreal, .inl rfl⟩),
    h _ ((turnEvents_spec turns).2 _ |>.mpr ⟨turn, hturn, hreal, .inr rfl⟩)⟩

/-- One turn, from one event to the next. -/
theorem covered_step {p t : ℚ} (hpt : p < t) {turn : Turn ℚ} (hreal : turn.Real)
    (hquiet : (max 0 turn.start ≤ p ∨ t ≤ max 0 turn.start) ∧ (turn.stop ≤ p ∨ t ≤ turn.stop)) :
    (if max 0 turn.start ≤ t ∧ t < turn.stop then 1 else 0 : ℤ) =
      (if max 0 turn.start ≤ p ∧ p < turn.stop then 1 else 0) +
        ((if max 0 turn.start = t then 1 else 0) - if turn.stop = t then 1 else 0) := by
  unfold Turn.Real at hreal
  generalize max 0 turn.start = start at *
  generalize turn.stop = stop at *
  rcases hquiet with ⟨hstart | hstart, hstop | hstop⟩
  · -- over already
    have h₁ : ¬ t < stop := not_lt.mpr (hstop.trans hpt.le)
    have h₂ : ¬ p < stop := not_lt.mpr hstop
    simp [h₁, h₂, (hstart.trans_lt hpt).ne, (hstop.trans_lt hpt).ne]
  · -- going on, or ending here
    have h₁ : start ≤ t := hstart.trans hpt.le
    have h₂ : p < stop := hpt.trans_le hstop
    rcases hstop.eq_or_lt with rfl | hlt
    · simp [h₁, h₂, hstart, (hstart.trans_lt hpt).ne]
    · simp [h₁, h₂, hstart, hlt, (hstart.trans_lt hpt).ne, hlt.ne']
  · exact absurd hreal (not_lt.mpr ((hstop.trans hpt.le).trans hstart))
  · -- still to come, or starting here
    have h₁ : ¬ start ≤ p := not_le.mpr (hpt.trans_le hstart)
    rcases hstart.eq_or_lt with rfl | hlt
    · simp [h₁, hreal, hreal.ne']
    · simp [h₁, not_le.mpr hlt, hlt.ne', (hlt.trans hreal).ne']

/-- **From one event to the next**, the counts change by what happens there. -/
theorem activeCount_step {p t : ℚ} (hpt : p < t) (hquiet : Quiet turns p t) (s : String) :
    (activeCount turns s t : ℤ) =
      activeCount turns s p + ((turnEvents turns).counter t).count s := by
  rw [(turnEvents_spec turns).1]
  have hall : ∀ turn ∈ turns, turn.Real → (max 0 turn.start ≤ p ∨ t ≤ max 0 turn.start) ∧
      (turn.stop ≤ p ∨ t ≤ turn.stop) := fun turn hturn => hquiet.turn hturn
  clear hquiet
  unfold activeCount
  induction turns with
  | nil => rfl
  | cons turn turns ih =>
      obtain ⟨hturn, hrest⟩ := List.forall_mem_cons.mp hall
      rw [List.countP_cons, List.countP_cons, List.map_cons, List.sum_cons]
      push_cast
      rw [ih hrest, change]
      by_cases h : turn.Real ∧ turn.speaker = s
      · have hstep := covered_step hpt h.1 (hturn h.1)
        simp only [h.1, h.2, true_and, decide_eq_true_eq, and_self, if_true]
        omega
      · have hnone (q : Prop) : ¬ (turn.Real ∧ turn.speaker = s ∧ q) := fun hq => h ⟨hq.1, hq.2.1⟩
        simp only [hnone, h, decide_false, Bool.false_eq_true, if_false]
        omega

/-- Before the first event nobody speaks. -/
theorem activeCount_neg {t : ℚ} (ht : t < 0) (s : String) : activeCount turns s t = 0 := by
  refine List.countP_eq_zero.mpr fun turn _ h => ?_
  have hle := (of_decide_eq_true h).2.2.1
  exact absurd (le_max_left 0 turn.start) (not_le.mpr (hle.trans_lt ht))

/-- Those whose count is positive are those who speak. -/
theorem activeCount_pos {t : ℚ} (ht : 0 ≤ t) {s : String} :
    0 < activeCount turns s t ↔ s ∈ activeAt turns t := by
  rw [activeCount, List.countP_pos_iff, mem_activeAt]
  refine exists_congr fun turn => and_congr_right fun _ => ?_
  rw [decide_eq_true_eq, Turn.Covers, Turn.Real, max_le_iff, and_iff_right ht]
  exact ⟨fun h => ⟨h.2.2, h.2.1⟩, fun h => ⟨max_lt (ht.trans_lt h.1.2) (h.1.1.trans_lt h.1.2), h.2, h.1⟩⟩

/-- Between two events the same people speak. -/
theorem activeAt_quiet {p t u : ℚ} (hp : 0 ≤ p) (hquiet : Quiet turns p t) (hpu : p ≤ u)
    (hut : u < t) : activeAt turns u = activeAt turns p := by
  ext s
  rw [mem_activeAt, mem_activeAt]
  refine exists_congr fun turn => and_congr_right fun hturn => and_congr_left fun _ => ?_
  have hquiet := hquiet.turn hturn
  constructor
  · intro h
    have hreal : turn.Real := max_lt (hp.trans_lt (hpu.trans_lt h.2)) (h.1.trans_lt h.2)
    have hstart : max 0 turn.start ≤ p := (hquiet hreal).1.resolve_right fun hge =>
      absurd (max_le (hp.trans hpu) h.1) (not_le.mpr (hut.trans_le hge))
    exact ⟨(le_max_right _ _).trans hstart, hpu.trans_lt h.2⟩
  · intro h
    have hreal : turn.Real := max_lt (hp.trans_lt h.2) (h.1.trans_lt h.2)
    have hstop : t ≤ turn.stop := (hquiet hreal).2.resolve_left (not_le.mpr h.2)
    exact ⟨h.1.trans hpu, hut.trans_le hstop⟩

end Count

/-! ### Intervals -/

/-- What an overlap says: its id, its bounds and its count. -/
def described (o : SpeechOverlap) : String × ℚ × ℚ × ℕ :=
  (o.id, o.start, o.stop, o.detectedSpeakerCount)

theorem described_injective : Function.Injective described := fun a b h => by
  cases a
  cases b
  simp_all [described]

/-- The intervals that say of the spans, numbered, how many speak. -/
def describing (spans : List (Span ℚ (Finset String))) : List (String × ℚ × ℚ × ℕ) :=
  spans.zipIdx.map fun (span, n) => (overlapId n, span.start, span.stop, span.value.card)

theorem describing_concat (spans : List (Span ℚ (Finset String))) (span : Span ℚ (Finset String)) :
    describing (spans ++ [span]) =
      describing spans ++ [(overlapId spans.length, span.start, span.stop, span.value.card)] := by
  simp [describing, List.zipIdx_append]

/-- Two speakers or more. -/
def Several (speakers : Finset String) : Prop := 2 ≤ speakers.card

/-- The sweep has come by the event at `hi`. -/
structure Swept (turns : List (Turn ℚ)) (hi : ℚ) (sweep : Sweep)
    (spans : List (Span ℚ (Finset String))) : Prop where
  previous : sweep.previous = some hi
  nonneg : 0 ≤ hi
  active : ∀ s, sweep.active.count s = activeCount turns s hi
  maximal : Maximal (activeAt turns) Several 0 hi spans
  last : ∀ span ∈ spans.getLast?, span.stop = hi → span.value = sweep.previousSpeakers
  intervals : sweep.intervals.map described = describing spans

theorem newOverlap_ok (id : String) {start stop : ℚ} {count : ℕ} (h₀ : 0 ≤ start)
    (h₁ : start < stop) (h₂ : 2 ≤ count) :
    ∃ o, newOverlap id start stop count = .ok o ∧ described o = (id, start, stop, count) := by
  unfold newOverlap
  rw [dif_pos h₀, if_pos (h₀.trans_lt h₁), dif_pos h₂, dif_pos h₁]
  exact ⟨_, rfl, rfl⟩

section Sweeping

variable {turns : List (Turn ℚ)} {hi time : ℚ} {sweep : Sweep}
  {spans : List (Span ℚ (Finset String))}

theorem Swept.positives_eq (h : Swept turns hi sweep spans) :
    sweep.active.positives = activeAt turns hi := by
  ext s
  rw [Counter.mem_positives, h.active, Nat.cast_pos, activeCount_pos h.nonneg]

theorem Swept.length_eq (h : Swept turns hi sweep spans) :
    sweep.intervals.length = spans.length := by
  simpa [describing] using congrArg List.length h.intervals

/-- **A stretch with several speakers** is recorded as a span of its own, or makes the last one
longer. -/
theorem Swept.record_ok (h : Swept turns hi sweep spans) (hlt : hi < time)
    (hquiet : Quiet turns hi time) (hseveral : Several (activeAt turns hi)) :
    ∃ intervals spans', sweep.record hi time hlt (activeAt turns hi) = .ok intervals ∧
      Maximal (activeAt turns) Several 0 time spans' ∧
      (∀ span ∈ spans'.getLast?, span.value = activeAt turns hi) ∧
      intervals.map described = describing spans' := by
  have hconst : ∀ u, hi ≤ u → u < time → activeAt turns u = activeAt turns hi :=
    fun u => activeAt_quiet h.nonneg hquiet
  obtain ⟨o, ho, hdesc⟩ := newOverlap_ok (overlapId sweep.intervals.length) h.nonneg hlt hseveral
  -- a span of its own
  have append (hnew : ∀ span ∈ spans.getLast?, span.stop = hi → span.value ≠ activeAt turns hi) :
      ∃ intervals spans', (newOverlap (overlapId sweep.intervals.length) hi time
          (activeAt turns hi).card).map (fun o => sweep.intervals ++ [o]) = .ok intervals ∧
        Maximal (activeAt turns) Several 0 time spans' ∧
        (∀ span ∈ spans'.getLast?, span.value = activeAt turns hi) ∧
        intervals.map described = describing spans' := by
    refine ⟨sweep.intervals ++ [o], spans ++ [⟨hi, time, activeAt turns hi⟩], by rw [ho]; rfl,
      h.maximal.snoc hlt hconst h.nonneg hseveral hnew, by simp, ?_⟩
    rw [List.map_append, h.intervals, describing_concat, List.map_singleton, hdesc, h.length_eq]
  unfold Sweep.record
  dsimp only
  split
  · rename_i hnone
    have hnil : spans = [] := by
      rw [← List.length_eq_zero_iff, ← h.length_eq, List.length_eq_zero_iff]
      exact List.getLast?_eq_none_iff.mp hnone
    exact append (by simp [hnil])
  · rename_i last hlast
    obtain ⟨before, hbefore⟩ := List.getLast?_eq_some_iff.mp hlast
    obtain ⟨spansBefore, span, hspans⟩ : ∃ l x, spans = l ++ [x] := by
      refine (List.eq_nil_or_concat' spans).resolve_left fun hnil => ?_
      simpa [hnil, hbefore] using h.length_eq
    have hdescribed := h.intervals
    rw [hspans, describing_concat, hbefore, List.map_append, List.map_singleton] at hdescribed
    obtain ⟨hinit, hend⟩ := List.append_inj' hdescribed rfl
    have hend : described last =
        (overlapId spansBefore.length, span.start, span.stop, span.value.card) :=
      List.singleton_inj.mp hend
    have hstop : last.stop = span.stop := congrArg (fun d => d.2.2.1) hend
    have hspan : ∀ x ∈ spans.getLast?, x = span := by simp [hspans, eq_comm]
    split
    · rename_i hsame
      have hvalue : span.value = activeAt turns hi :=
        (h.last span (by simp [hspans]) (hstop ▸ hsame.1)).trans hsame.2.symm
      refine ⟨_, spansBefore ++ [{ span with stop := time }], rfl,
        (hspans ▸ h.maximal).extend hlt hconst (hstop ▸ hsame.1) hvalue, by simp [hvalue], ?_⟩
      have hdesc' : described (SpeechOverlap.until last time (hsame.1.trans_lt hlt)) =
          (overlapId spansBefore.length, span.start, time, span.value.card) := by
        simp only [described, Prod.mk.injEq] at hend
        simp only [described, SpeechOverlap.until, hend]
      rw [hbefore, List.dropLast_concat, List.map_append, hinit, List.map_singleton, hdesc',
        describing_concat]
    · rename_i hother
      refine append fun x hx hxstop hxvalue => hother ⟨?_, ?_⟩
      · rw [hstop, ← hspan x hx, hxstop]
      · rw [← hxvalue]
        exact h.last x hx hxstop

/-- **One event**: the list of maximal spans reaches up to it. -/
theorem Swept.step (h : Swept turns hi sweep spans) (hlt : hi < time)
    (hquiet : Quiet turns hi time) :
    ∃ sweep' spans', sweepStep (turnEvents turns) sweep time = .ok sweep' ∧
      Swept turns time sweep' spans' := by
  have hactive (s : String) :
      (sweep.active.update ((turnEvents turns).counter time)).positive.count s =
        activeCount turns s time := by
    rw [Counter.count_positive, Counter.count_update, h.active, ← activeCount_step hlt hquiet]
    exact max_eq_right (Int.natCast_nonneg _)
  simp only [sweepStep, h.previous, h.positives_eq, bind, Except.bind, pure, Except.pure]
  by_cases hseveral : Several (activeAt turns hi)
  · obtain ⟨intervals, spans', hok, hmax, hvalue, hdesc⟩ := h.record_ok hlt hquiet hseveral
    rw [dif_pos ⟨hlt, hseveral⟩, hok]
    exact ⟨_, spans', rfl, rfl, h.nonneg.trans hlt.le, hactive, hmax, fun x hx _ => hvalue x hx, hdesc⟩
  · rw [dif_neg fun hc => hseveral hc.2]
    refine ⟨_, spans, rfl, rfl, h.nonneg.trans hlt.le, hactive, ?_, fun x hx hstop => ?_, h.intervals⟩
    · refine h.maximal.skip (WithTop.coe_le_coe.mpr hlt.le) fun u _ hge hu => ?_
      rwa [activeAt_quiet h.nonneg hquiet (WithTop.coe_le_coe.mp hge) (WithTop.coe_lt_coe.mp hu)]
    · -- no span reaches this far
      have hle := (h.maximal.within x (List.mem_of_getLast? hx)).2.2
      exact absurd (hstop ▸ WithTop.coe_le_coe.mp hle) (not_le.mpr hlt)

/-- The first event.  Any time before the start of the recording will do for the one before. -/
theorem swept_first (htime : 0 ≤ time) (hfirst : ∀ t ∈ (turnEvents turns).times, time ≤ t) :
    ∃ sweep, sweepStep (turnEvents turns) {} time = .ok sweep ∧ Swept turns time sweep [] := by
  have hneg : (-1 : ℚ) < 0 := by norm_num
  refine ⟨_, rfl, rfl, htime, fun s => ?_, ?_, by simp, rfl⟩
  · have hstep := activeCount_step (hneg.trans_le htime) (fun t ht => .inr (hfirst t ht)) s
    rw [activeCount_neg hneg, Nat.cast_zero] at hstep
    rw [Counter.count_positive, Counter.count_update, hstep]
    exact max_eq_right (hstep ▸ Int.natCast_nonneg _)
  · refine (Maximal.nil _ _ 0).skip (WithTop.coe_le_coe.mpr htime) fun u hu _ hlt hseveral => ?_
    -- a turn that covers `u` starts before the first event
    obtain ⟨s, hs⟩ := Finset.card_pos.mp (lt_of_lt_of_le Nat.zero_lt_two hseveral)
    obtain ⟨turn, hturn, hcovers, -⟩ := mem_activeAt.mp hs
    have hreal : turn.Real := max_lt (hu.trans_lt hcovers.2) (hcovers.1.trans_lt hcovers.2)
    have hevent := ((turnEvents_spec turns).2 _).mpr ⟨turn, hturn, hreal, .inl rfl⟩
    exact absurd (max_le hu hcovers.1)
      (not_le.mpr ((WithTop.coe_lt_coe.mp hlt).trans_le (hfirst _ hevent)))

/-- The rest of the events. -/
theorem Swept.run (h : Swept turns hi sweep spans) {times : List ℚ}
    (hsorted : (hi :: times).Pairwise (· < ·))
    (hall : ∀ t ∈ (turnEvents turns).times, t ≤ hi ∨ t ∈ times) :
    ∃ last sweep' spans', times.foldlM (sweepStep (turnEvents turns)) sweep = .ok sweep' ∧
      Swept turns last sweep' spans' ∧ ∀ t ∈ (turnEvents turns).times, t ≤ last := by
  induction times generalizing hi sweep spans with
  | nil => exact ⟨hi, sweep, spans, rfl, h, fun t ht => (hall t ht).resolve_right List.not_mem_nil⟩
  | cons time times ih =>
      have hlt : hi < time := List.rel_of_pairwise_cons hsorted List.mem_cons_self
      have hrest := hsorted.of_cons
      have hquiet : Quiet turns hi time := fun t ht => (hall t ht).imp_right fun hmem => by
        rcases List.mem_cons.mp hmem with rfl | hmem
        · exact le_rfl
        · exact (List.rel_of_pairwise_cons hrest hmem).le
      obtain ⟨sweep', spans', hok, hswept⟩ := h.step hlt hquiet
      obtain ⟨last, sweep'', spans'', hfold, hrun⟩ := ih hswept hrest fun t ht => by
        rcases hall t ht with hle | hmem
        · exact .inl (hle.trans hlt.le)
        · exact (List.mem_cons.mp hmem).imp_left fun heq => heq.le
      exact ⟨last, sweep'', spans'', by rw [List.foldlM_cons, hok]; exact hfold, hrun⟩

/-- Where no turn has a part after the start, nobody speaks. -/
theorem maximal_nil (hnone : ∀ turn ∈ turns, ¬ turn.Real) :
    Maximal (activeAt turns) Several 0 ⊤ [] := by
  refine (Maximal.nil _ _ 0).skip le_top fun u hu _ _ hseveral => ?_
  obtain ⟨s, hs⟩ := Finset.card_pos.mp (lt_of_lt_of_le Nat.zero_lt_two hseveral)
  obtain ⟨turn, hturn, hcovers, -⟩ := mem_activeAt.mp hs
  exact hnone turn hturn (max_lt (hu.trans_lt hcovers.2) (hcovers.1.trans_lt hcovers.2))

/-- After the last event nobody speaks. -/
theorem Swept.maximal_top (h : Swept turns hi sweep spans)
    (hlast : ∀ t ∈ (turnEvents turns).times, t ≤ hi) :
    Maximal (activeAt turns) Several 0 ⊤ spans := by
  refine h.maximal.skip le_top fun u hu hge _ hseveral => ?_
  obtain ⟨s, hs⟩ := Finset.card_pos.mp (lt_of_lt_of_le Nat.zero_lt_two hseveral)
  obtain ⟨turn, hturn, hcovers, -⟩ := mem_activeAt.mp hs
  have hreal : turn.Real := max_lt (hu.trans_lt hcovers.2) (hcovers.1.trans_lt hcovers.2)
  have hevent := ((turnEvents_spec turns).2 _).mpr ⟨turn, hturn, hreal, .inr rfl⟩
  exact absurd hcovers.2 (not_lt.mpr ((hlast _ hevent).trans (WithTop.coe_le_coe.mp hge)))

/-- **The whole sweep** finds the maximal spans. -/
theorem sweep_ok (turns : List (Turn ℚ)) :
    ∃ sweep spans,
      ((turnEvents turns).times.sort (· ≤ ·)).foldlM (sweepStep (turnEvents turns)) {} = .ok sweep ∧
        Maximal (activeAt turns) Several 0 ⊤ spans ∧
        sweep.intervals.map described = describing spans := by
  have hmem (t : ℚ) : t ∈ (turnEvents turns).times.sort (· ≤ ·) ↔ t ∈ (turnEvents turns).times :=
    Finset.mem_sort _
  have hsorted : ((turnEvents turns).times.sort (· ≤ ·)).Pairwise (· < ·) :=
    (Finset.sortedLT_sort _).pairwise
  cases htimes : (turnEvents turns).times.sort (· ≤ ·) with
  | nil =>
      refine ⟨{}, [], rfl, maximal_nil fun turn hturn hreal => ?_, rfl⟩
      have hevent := ((turnEvents_spec turns).2 _).mpr ⟨turn, hturn, hreal, .inl rfl⟩
      rw [← hmem, htimes] at hevent
      cases hevent
  | cons time times =>
      simp only [htimes, List.mem_cons] at hmem hsorted
      have hnonneg : 0 ≤ time := by
        obtain ⟨turn, -, hreal, rfl | rfl⟩ :=
          ((turnEvents_spec turns).2 time).mp ((hmem time).mp (.inl rfl))
        · exact le_max_left _ _
        · exact (le_max_left _ _).trans hreal.le
      have hfirst : ∀ t ∈ (turnEvents turns).times, time ≤ t := fun t ht => by
        rcases (hmem t).mpr ht with rfl | ht
        · exact le_rfl
        · exact (List.rel_of_pairwise_cons hsorted ht).le
      obtain ⟨sweep, hok, hswept⟩ := swept_first hnonneg hfirst
      obtain ⟨last, sweep', spans, hfold, hrun, hlast⟩ := hswept.run hsorted fun t ht =>
        ((hmem t).mpr ht).imp_left fun heq => heq.le
      exact ⟨sweep', spans, by rw [List.foldlM_cons, hok]; exact hfold, hrun.maximal_top hlast,
        hrun.intervals⟩

end Sweeping

/-! ### The overlaps -/

/-- `pieces` are adjacent pieces of the turn, one after the other, of its speaker. -/
structure CutInto (turn : Turn ℚ) (pieces : List (Turn ℚ)) : Prop where
  first : pieces.head?.map Turn.start = some turn.start
  last : pieces.getLast?.map Turn.stop = some turn.stop
  adjacent : pieces.IsChain fun a b => a.stop = b.start
  direction : (∀ p ∈ pieces, p.start ≤ p.stop) ∨ ∀ p ∈ pieces, p.stop ≤ p.start
  speaker : ∀ p ∈ pieces, p.speaker = turn.speaker

/-- `detect_overlaps` gives the review of the maximal spans. -/
theorem detectOverlaps_eq (turns : List (Turn ℚ)) :
    ∃ intervals spans, detectOverlaps turns = newReview .available intervals ∧
      Maximal (activeAt turns) Several 0 ⊤ spans ∧ intervals.map described = describing spans := by
  obtain ⟨sweep, spans, hok, hmax, hdesc⟩ := sweep_ok turns
  refine ⟨sweep.intervals, spans, ?_, hmax, hdesc⟩
  rw [detectOverlaps, hok]
  rfl

/-- **The result is a function of who speaks when.** -/
theorem detectOverlaps_congr {turns turns' : List (Turn ℚ)}
    (h : ∀ t, 0 ≤ t → activeAt turns t = activeAt turns' t) :
    detectOverlaps turns = detectOverlaps turns' := by
  obtain ⟨intervals, spans, hok, hmax, hdesc⟩ := detectOverlaps_eq turns
  obtain ⟨intervals', spans', hok', hmax', hdesc'⟩ := detectOverlaps_eq turns'
  obtain rfl := (hmax.congr h).unique hmax'
  rw [hok, hok', described_injective.list_map (hdesc.trans hdesc'.symm)]

theorem activeAt_perm {turns turns' : List (Turn ℚ)} (h : turns'.Perm turns) (t : ℚ) :
    activeAt turns t = activeAt turns' t := by
  ext s
  simp only [mem_activeAt, h.mem_iff]

/-- Pieces that go forward cover what lies between their ends. -/
theorem forward_covers {pieces : List (Turn ℚ)} {start stop : ℚ}
    (hfirst : pieces.head?.map Turn.start = some start)
    (hlast : pieces.getLast?.map Turn.stop = some stop)
    (hadjacent : pieces.IsChain fun a b => a.stop = b.start)
    (hforward : ∀ p ∈ pieces, p.start ≤ p.stop) :
    start ≤ stop ∧ ∀ t, (∃ p ∈ pieces, p.Covers t) ↔ start ≤ t ∧ t < stop := by
  induction pieces generalizing start with
  | nil => cases hfirst
  | cons p pieces ih =>
      obtain rfl : p.start = start := Option.some.inj hfirst
      have hp : p.start ≤ p.stop := hforward p List.mem_cons_self
      cases pieces with
      | nil =>
          obtain rfl : p.stop = stop := Option.some.inj hlast
          exact ⟨hp, fun t => by simp [Turn.Covers]⟩
      | cons q pieces =>
          have hpq : p.stop = q.start := (List.isChain_cons_cons.mp hadjacent).1
          obtain ⟨hle, hcovers⟩ := ih (congrArg some hpq.symm) (by simpa using hlast)
            hadjacent.tail fun a ha => hforward a (List.mem_cons_of_mem p ha)
          refine ⟨hp.trans hle, fun t => ?_⟩
          rw [List.exists_mem_cons_iff, hcovers, Turn.Covers]
          constructor
          · rintro (⟨h₀, h₁⟩ | ⟨h₀, h₁⟩)
            · exact ⟨h₀, h₁.trans_le hle⟩
            · exact ⟨hp.trans h₀, h₁⟩
          · rintro ⟨h₀, h₁⟩
            exact (lt_or_ge t p.stop).imp (fun h => ⟨h₀, h⟩) fun h => ⟨h, h₁⟩

/-- Where every piece goes backward, so does the turn. -/
theorem backward_le {pieces : List (Turn ℚ)} {start stop : ℚ}
    (hfirst : pieces.head?.map Turn.start = some start)
    (hlast : pieces.getLast?.map Turn.stop = some stop)
    (hadjacent : pieces.IsChain fun a b => a.stop = b.start)
    (hbackward : ∀ p ∈ pieces, p.stop ≤ p.start) : stop ≤ start := by
  induction pieces generalizing start with
  | nil => cases hfirst
  | cons p pieces ih =>
      obtain rfl : p.start = start := Option.some.inj hfirst
      have hp : p.stop ≤ p.start := hbackward p List.mem_cons_self
      cases pieces with
      | nil =>
          obtain rfl : p.stop = stop := Option.some.inj hlast
          exact hp
      | cons q pieces =>
          have hpq : p.stop = q.start := (List.isChain_cons_cons.mp hadjacent).1
          exact (ih (congrArg some hpq.symm) (by simpa using hlast) hadjacent.tail fun a ha =>
            hbackward a (List.mem_cons_of_mem p ha)).trans hp

/-- The pieces of a turn cover what it covers. -/
theorem CutInto.covers {turn : Turn ℚ} {pieces : List (Turn ℚ)} (h : CutInto turn pieces) (t : ℚ) :
    (∃ p ∈ pieces, p.Covers t) ↔ turn.Covers t := by
  rcases h.direction with hforward | hbackward
  · exact (forward_covers h.first h.last h.adjacent hforward).2 t
  · have hle := backward_le h.first h.last h.adjacent hbackward
    refine iff_of_false ?_ fun hc => absurd (hc.1.trans_lt hc.2) (not_lt.mpr hle)
    rintro ⟨p, hp, hc⟩
    exact absurd (hc.1.trans_lt hc.2) (not_lt.mpr (hbackward p hp))

theorem CutInto.activeAt_eq {turn : Turn ℚ} {pieces : List (Turn ℚ)} (h : CutInto turn pieces)
    (before after : List (Turn ℚ)) (t : ℚ) :
    activeAt (before ++ turn :: after) t = activeAt (before ++ pieces ++ after) t := by
  have hspeaker (s : String) :
      (∃ p ∈ pieces, p.Covers t ∧ p.speaker = s) ↔ turn.Covers t ∧ turn.speaker = s := by
    rw [← h.covers t]
    constructor
    · rintro ⟨p, hp, hc, hs⟩
      exact ⟨⟨p, hp, hc⟩, (h.speaker p hp).symm.trans hs⟩
    · rintro ⟨⟨p, hp, hc⟩, hs⟩
      exact ⟨p, hp, hc, (h.speaker p hp).trans hs⟩
  ext s
  simp only [mem_activeAt, List.mem_append, List.mem_cons, or_and_right, exists_or, exists_eq_left,
    hspeaker, or_assoc]

theorem overlapId_injective : Function.Injective overlapId := fun a b h => by
  have h := congrArg String.toList h
  simp only [overlapId, String.toList_append] at h
  exact zeroPadded_injective 4 (String.toList_injective (List.append_cancel_left h))

/-- Without the ids, an interval says the bounds and the number of its span. -/
theorem map_described_snd {intervals : List SpeechOverlap} {spans : List (Span ℚ (Finset String))}
    (h : intervals.map described = describing spans) :
    (intervals.map fun o => (described o).2) =
      spans.map fun span => (span.start, span.stop, span.value.card) := by
  have h := congrArg (List.map Prod.snd) h
  rw [describing, List.map_map, List.map_map] at h
  calc intervals.map (fun o => (described o).2)
      = spans.zipIdx.map ((fun span => (span.start, span.stop, span.value.card)) ∘ Prod.fst) := h
    _ = spans.map fun span => (span.start, span.stop, span.value.card) := by
        rw [← List.map_map, List.zipIdx_map_fst]

theorem ids_nodup_of_described {intervals : List SpeechOverlap}
    {spans : List (Span ℚ (Finset String))} (h : intervals.map described = describing spans) :
    (intervals.map SpeechOverlap.id).Nodup := by
  have h := congrArg (List.map Prod.fst) h
  rw [describing, List.map_map, List.map_map] at h
  have hids : intervals.map SpeechOverlap.id = (spans.zipIdx.map Prod.snd).map overlapId := by
    rw [List.map_map]
    exact h
  rw [hids, List.zipIdx_map_snd]
  exact (List.nodup_range' 1).map overlapId_injective

/-- The spans that touch have different speakers at every two times in them. -/
theorem touching_differ {turns : List (Turn ℚ)} {spans : List (Span ℚ (Finset String))}
    (h : Maximal (activeAt turns) Several 0 ⊤ spans) :
    spans.IsChain fun a b => a.stop = b.start → ∀ t u, a.start ≤ t ∧ t < a.stop →
      b.start ≤ u ∧ u < b.stop → activeAt turns t ≠ activeAt turns u := by
  refine h.apart.imp_of_mem_imp fun a b ha hb hne htouch t u ht hu => ?_
  rw [(h.constant a ha).2 t ht, (h.constant b hb).2 u hu]
  exact hne htouch

/-- **The overlaps are the times at which two speakers or more speak**, in maximal intervals with one
set of speakers each; and so they are a function of who speaks when. -/
theorem detect_overlaps_pointwise (turns : List (Turn ℚ)) :
    ∃ review, detectOverlaps turns = .ok review ∧ review.overlapDetection = .available ∧
      (∀ t, 0 ≤ t → ((∃ o ∈ review.overlaps, o.start ≤ t ∧ t < o.stop) ↔
        2 ≤ (activeAt turns t).card)) ∧
      (∀ o ∈ review.overlaps, ∀ t, o.start ≤ t ∧ t < o.stop →
        o.detectedSpeakerCount = (activeAt turns t).card) ∧
      (∀ o ∈ review.overlaps, 0 ≤ o.start ∧ o.start < o.stop) ∧
      review.overlaps.Pairwise (fun a b => a.stop ≤ b.start) ∧
      (review.overlaps.map SpeechOverlap.id).Nodup ∧
      review.overlaps.IsChain (fun a b => a.stop = b.start → ∀ t u, a.start ≤ t ∧ t < a.stop →
        b.start ≤ u ∧ u < b.stop → activeAt turns t ≠ activeAt turns u) ∧
      (∀ turns', turns'.Perm turns → detectOverlaps turns' = .ok review) ∧
      ∀ before turn after pieces, turns = before ++ turn :: after → CutInto turn pieces →
        detectOverlaps (before ++ pieces ++ after) = .ok review := by
  obtain ⟨intervals, spans, hok, hmax, hdesc⟩ := detectOverlaps_eq turns
  -- the overlaps are the maximal spans one by one, so what holds of the spans holds of them
  have hbounds := map_described_snd hdesc
  have hnodup := ids_nodup_of_described hdesc
  have hspan : ∀ o ∈ intervals, ∃ span ∈ spans,
      o.start = span.start ∧ o.stop = span.stop ∧ o.detectedSpeakerCount = span.value.card := by
    intro o ho
    obtain ⟨span, hs, heq⟩ := List.mem_map.mp (hbounds ▸ List.mem_map_of_mem ho)
    simp only [described, Prod.mk.injEq] at heq
    exact ⟨span, hs, heq.1.symm, heq.2.1.symm, heq.2.2.symm⟩
  have hinterval : ∀ span ∈ spans, ∃ o ∈ intervals, o.start = span.start ∧ o.stop = span.stop := by
    intro span hs
    obtain ⟨o, ho, heq⟩ := List.mem_map.mp (hbounds ▸ List.mem_map_of_mem hs)
    simp only [described, Prod.mk.injEq] at heq
    exact ⟨o, ho, heq.1, heq.2.1⟩
  have hordered : intervals.Pairwise fun a b => a.stop ≤ b.start := by
    have h : (spans.map fun span => (span.start, span.stop, span.value.card)).Pairwise
        fun a b => a.2.1 ≤ b.1 := List.pairwise_map.mpr hmax.ordered
    exact List.pairwise_map.mp (hbounds ▸ h)
  have htouch : intervals.IsChain fun a b => a.stop = b.start → ∀ t u, a.start ≤ t ∧ t < a.stop →
      b.start ≤ u ∧ u < b.stop → activeAt turns t ≠ activeAt turns u := by
    have h : (spans.map fun span => (span.start, span.stop, span.value.card)).IsChain fun a b =>
        a.2.1 = b.1 → ∀ t u, a.1 ≤ t ∧ t < a.2.1 → b.1 ≤ u ∧ u < b.2.1 →
          activeAt turns t ≠ activeAt turns u := List.isChain_map _ |>.mpr (touching_differ hmax)
    exact List.isChain_map _ |>.mp (hbounds ▸ h)
  have hreview : newReview .available intervals =
      .ok ⟨.available, intervals, by simp, hnodup, hordered.isChain⟩ := by
    rw [newReview, dif_pos (by simp), dif_pos hnodup, dif_pos hordered.isChain]
  refine ⟨_, hok.trans hreview, rfl, fun t ht => ⟨?_, fun h => ?_⟩, fun o ho t hot => ?_,
    fun o _ => ⟨o.start_nonneg, o.start_lt_stop⟩, hordered, hnodup, htouch,
    fun turns' hperm => ?_, fun before turn after pieces hturns hcut => ?_⟩
  · rintro ⟨o, ho, hot⟩
    obtain ⟨span, hs, hstart, hstop, -⟩ := hspan o ho
    obtain ⟨hseveral, hconst⟩ := hmax.constant span hs
    rw [hconst t ⟨hstart ▸ hot.1, hstop ▸ hot.2⟩]
    exact hseveral
  · obtain ⟨span, hs, hholds⟩ := hmax.covers t ht (WithTop.coe_lt_top t) h
    obtain ⟨o, ho, hstart, hstop⟩ := hinterval span hs
    exact ⟨o, ho, hstart ▸ hholds.1, hstop ▸ hholds.2⟩
  · obtain ⟨span, hs, hstart, hstop, hcount⟩ := hspan o ho
    rw [hcount, (hmax.constant span hs).2 t ⟨hstart ▸ hot.1, hstop ▸ hot.2⟩]
  -- the last two: the outcome only depends on who is active when
  · rw [← hok.trans hreview]
    exact (detectOverlaps_congr fun t _ => activeAt_perm hperm t).symm
  · subst hturns
    rw [← hok.trans hreview]
    exact (detectOverlaps_congr fun t _ => hcut.activeAt_eq before after t).symm

end Vemsa.Pipeline

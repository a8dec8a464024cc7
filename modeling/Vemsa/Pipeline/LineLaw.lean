import Vemsa.Pipeline.AssignSpeakers

/-!
# Pipeline — LineLaw

A diarized line is to be broken only at a speaker change or at one of the two documented pauses.
Grouping breaks lines so (`lineLaw_groupLabelled`); merging an orphan changes its speaker, and
with it the change on the orphan's other side.  Smoothing absorbs most orphans between two lines of
one speaker before they are lines, but it runs before snapping, which can shorten a run to one.

`line_law_iff` says exactly when the law survives: at every `Glue` of the pass, the line on the
orphan's other side has another speaker than the neighbour it is glued to, or one of the pauses lies
between.  `clipped_orphan` is the interplay that breaks it.
-/

namespace Vemsa.Pipeline
open Vemsa.Support Vemsa.Jobs

variable {τ : Type} [Clock τ]

section Law

variable (tuning : AttributionKnobs τ)

instance (p q : Word τ) : Decidable (Paused tuning p q) := inferInstanceAs (Decidable (_ ∨ _))

/-- One of the pauses lies between the two lines. -/
def PausedBetween (line next : Segment τ) : Prop :=
  ∀ p ∈ line.words.getLast?, ∀ q ∈ next.words.head?, Paused tuning p q

/-- Two lines in a row with one speaker are separated by one of the pauses. -/
def LineLaw (line next : Segment τ) : Prop :=
  line.speaker = next.speaker → PausedBetween tuning line next

instance (line next : Segment τ) : Decidable (PausedBetween tuning line next) :=
  inferInstanceAs (Decidable (∀ p ∈ _, ∀ q ∈ _, _))

instance (line next : Segment τ) : Decidable (LineLaw tuning line next) :=
  inferInstanceAs (Decidable (_ → _))

/-- The line on the orphan's other side stays apart. -/
def Glue.Apart : Glue τ → Prop
  | ahead previous orphan following =>
    ∀ before ∈ previous, before.speaker = following.speaker → PausedBetween tuning before orphan
  | behind previous orphan following =>
    ∀ after ∈ following, previous.speaker = after.speaker → PausedBetween tuning orphan after

end Law

/-! ### Merging and the law -/

section Merging

variable {tuning : AttributionKnobs τ}

/-- The law looks at the speakers and at the words at the boundary only. -/
theorem lineLaw_congr {a a' b b' : Segment τ} (ha : a.speaker = a'.speaker)
    (hb : b.speaker = b'.speaker) (hlast : a.words.getLast? = a'.words.getLast?)
    (hhead : b.words.head? = b'.words.head?) : LineLaw tuning a b ↔ LineLaw tuning a' b' := by
  rw [LineLaw, LineLaw, PausedBetween, PausedBetween, ha, hb, hlast, hhead]

/-- A segment as `assign_speakers` builds it when there are turns. -/
def Spoken (segment : Segment τ) : Prop := segment.words ≠ [] ∧ segment.speaker.isSome

omit [Clock τ] in
theorem Spoken.joinAhead {a b : Segment τ} (ha : Spoken a) (hb : Spoken b) :
    Spoken (joinSegments a b none) :=
  ⟨List.append_ne_nil_of_left_ne_nil ha.1 _, hb.2⟩

omit [Clock τ] in
theorem Spoken.joinBehind {a : Segment τ} (ha : Spoken a) (b : Segment τ) :
    Spoken (joinSegments a b a.speaker) ∧ (joinSegments a b a.speaker).speaker = a.speaker := by
  have hspeaker : (joinSegments a b a.speaker).speaker = a.speaker := Option.or_of_isSome ha.2
  exact ⟨⟨List.append_ne_nil_of_left_ne_nil ha.1 _, by rw [hspeaker]; exact ha.2⟩, hspeaker⟩

theorem orphan_ne {maxWords : ℤ} {maxDurationS : τ} {segment before : Segment τ}
    {following : Option (Segment τ)}
    (h : orphan maxWords maxDurationS segment (some before) following) :
    before.speaker ≠ segment.speaker := by
  simp only [orphan, Bool.and_eq_true, List.all_eq_true, decide_eq_true_eq] at h
  exact (h.2 before (by simp)).1

variable {maxWords : ℤ} {maxDurationS : τ} {previous : Option (Segment τ)}
  {before segment : Segment τ} {rest out : List (Segment τ)} {gs : List (Glue τ)}

/-- What comes out first begins as the segment before did, and speaks with its voice. -/
theorem Merges.head (h : Merges maxWords maxDurationS previous segment rest out gs)
    (hp : previous = some before) (hbefore : Spoken before) :
    ∃ s out', out = s :: out' ∧ s.speaker = before.speaker ∧
      s.words.head? = before.words.head? := by
  induction h generalizing before with
  | lone | first => cases hp
  | last b s =>
      obtain rfl := Option.some.inj hp
      exact ⟨b, [s], rfl, rfl, rfl⟩
  | lastBehind =>
      obtain rfl := Option.some.inj hp
      exact ⟨_, [], rfl, (hbefore.joinBehind _).2, List.head?_append_of_ne_nil _ hbefore.1⟩
  | ahead _ _ ih => exact ih hp hbefore
  | @behind b segment _ _ _ _ _ _ ih =>
      obtain rfl := Option.some.inj hp
      obtain ⟨hjoin, hspeaker⟩ := hbefore.joinBehind segment
      obtain ⟨s, out', rfl, hs, hw⟩ := ih rfl hjoin
      exact ⟨s, out', rfl, hs.trans hspeaker,
        hw.trans (List.head?_append_of_ne_nil _ hbefore.1)⟩
  | push =>
      obtain rfl := Option.some.inj hp
      exact ⟨_, _, rfl, rfl, rfl⟩

/-- The first line out follows `line` lawfully exactly when the segment before did. -/
theorem Merges.isChain_cons (h : Merges maxWords maxDurationS (some before) segment rest out gs)
    (hbefore : Spoken before) (line : Segment τ) :
    (line :: out).IsChain (LineLaw tuning) ↔
      LineLaw tuning line before ∧ out.IsChain (LineLaw tuning) := by
  obtain ⟨s, out', rfl, hs, hw⟩ := h.head rfl hbefore
  rw [List.isChain_cons_cons, lineLaw_congr rfl hs rfl hw]

/-- Two lines of one speaker stay two, so an unlawful boundary between them stays. -/
theorem Merges.not_isChain (h : Merges maxWords maxDurationS (some before) segment rest out gs)
    (hspeaker : before.speaker = segment.speaker) (hsegment : Spoken segment)
    (hlaw : ¬ LineLaw tuning before segment) : ¬ out.IsChain (LineLaw tuning) := by
  cases h with
  | last => simpa using hlaw
  | lastBehind horphan => exact absurd hspeaker (orphan_ne horphan)
  | ahead horphan _ => exact absurd hspeaker (orphan_ne horphan)
  | behind horphan _ => exact absurd hspeaker (orphan_ne horphan)
  | push h =>
      rw [h.isChain_cons hsegment]
      exact fun hc => hlaw hc.1

/-- **Exactly when merging keeps the law.** -/
theorem Merges.isChain_iff (h : Merges maxWords maxDurationS previous segment rest out gs)
    (hspoken : ∀ s ∈ previous.toList ++ segment :: rest, Spoken s)
    (hlaw : (previous.toList ++ segment :: rest).IsChain (LineLaw tuning)) :
    out.IsChain (LineLaw tuning) ↔ ∀ g ∈ gs, g.Apart tuning := by
  induction h with
  | lone => simp
  | last => simpa using hlaw
  | lastBehind => simp [Glue.Apart]
  | @ahead previous segment following rest out gs _ h ih =>
      -- glued to the line after it, so what can break is the law with the line before
      have hs : Spoken segment := hspoken segment (by simp)
      have hf : Spoken following := hspoken following (by simp)
      have hjoin (before : Segment τ) : LineLaw tuning before (joinSegments segment following none) ↔
          (before.speaker = following.speaker → PausedBetween tuning before segment) := by
        rw [LineLaw, PausedBetween, PausedBetween, joinSegments,
          List.head?_append_of_ne_nil _ hs.1, Option.none_or]
      by_cases hg : Glue.Apart tuning (.ahead previous segment following)
      · rw [List.forall_mem_cons, and_iff_right hg]
        obtain ⟨hprev, hlater, -⟩ := List.isChain_append.mp hlaw
        obtain ⟨-, hrest⟩ := List.isChain_cons_cons.mp hlater
        refine ih (fun t ht => ?_) (List.isChain_append.mpr ⟨hprev, ?_, fun x hx y hy => ?_⟩)
        · simp only [List.mem_append, List.mem_cons] at ht
          rcases ht with ht | rfl | ht
          · exact hspoken t (List.mem_append_left _ ht)
          · exact hs.joinAhead hf
          · exact hspoken t (by simp [ht])
        · -- the joined line ends as the line it joined
          refine List.isChain_cons.mpr ⟨fun y hy => ?_, (List.isChain_cons.mp hrest).2⟩
          have hend : LineLaw tuning (joinSegments segment following none) y ↔
              LineLaw tuning following y :=
            lineLaw_congr rfl rfl (List.getLast?_append_of_ne_nil _ hf.1) rfl
          exact hend.mpr ((List.isChain_cons.mp hrest).1 y hy)
        · obtain rfl := Option.mem_some_iff.mp hy
          exact (hjoin x).mpr (hg x (by cases previous <;> simp_all))
      · -- the line before and the joined line stay next to each other to the end
        refine iff_of_false ?_ fun hall => hg (hall _ List.mem_cons_self)
        cases previous with
        | none => exact absurd (fun _ hb => by cases hb) hg
        | some before =>
            simp only [Glue.Apart, Option.mem_some_iff, forall_eq', Classical.not_imp] at hg
            exact h.not_isChain hg.1 (hs.joinAhead hf) fun hc => hg.2 ((hjoin before).mp hc hg.1)
  | first _ ih => exact ih hspoken hlaw
  | @behind before segment following rest out gs _ h ih =>
      -- glued to the line before it, so what can break is the law with the line after
      obtain ⟨hb, hs, hf, hrest⟩ : Spoken before ∧ Spoken segment ∧ Spoken following ∧
          ∀ s ∈ rest, Spoken s := by simpa using hspoken
      obtain ⟨hjoin, hspeaker⟩ := hb.joinBehind segment
      have hboundary : LineLaw tuning (joinSegments before segment before.speaker) following ↔
          (before.speaker = following.speaker → PausedBetween tuning segment following) := by
        rw [LineLaw, hspeaker, PausedBetween, PausedBetween, joinSegments,
          List.getLast?_append_of_ne_nil _ hs.1]
      by_cases hg : Glue.Apart tuning (.behind before segment (some following))
      · rw [List.forall_mem_cons, and_iff_right hg]
        refine ih (by simpa using ⟨hjoin, hf, hrest⟩) ?_
        have hlater := (List.isChain_cons_cons.mp (List.isChain_cons_cons.mp hlaw).2).2
        exact List.isChain_cons_cons.mpr ⟨hboundary.mpr (hg following rfl), hlater⟩
      · refine iff_of_false ?_ fun hall => hg (hall _ List.mem_cons_self)
        simp only [Glue.Apart, Option.mem_some_iff, forall_eq', Classical.not_imp] at hg
        exact h.not_isChain (hspeaker.trans hg.1) hf fun hc => hg.2 (hboundary.mp hc hg.1)
  | @push before segment following rest out gs h ih =>
      obtain ⟨hb, hrest⟩ := List.forall_mem_cons.mp hspoken
      obtain ⟨hbs, hchain⟩ := List.isChain_cons_cons.mp hlaw
      rw [h.isChain_cons (hrest segment (by simp)), ih hrest hchain, and_iff_right hbs]

theorem isChain_mergeShortOrphans_iff (L : Letters) (maxWords : ℤ) (maxDurationS : τ)
    {segments : List (Segment τ)} (hspoken : ∀ s ∈ segments, Spoken s)
    (hlaw : segments.IsChain (LineLaw tuning)) :
    (mergeShortOrphans L maxWords maxDurationS segments).IsChain (LineLaw tuning) ↔
      ∀ g ∈ glues L maxWords maxDurationS segments, g.Apart tuning := by
  rcases segments with _ | ⟨segment, _ | ⟨following, rest⟩⟩
  · simp [mergeShortOrphans, glues]
  · simp [mergeShortOrphans, glues]
  · exact (merges_mergeFrom L maxWords maxDurationS none segment (following :: rest)).isChain_iff
      hspoken hlaw

end Merging

/-! ### The law -/

/-- Grouping breaks a line only where it may be broken. -/
theorem lineLaw_groupLabelled {tuning : AttributionKnobs τ} (words : List (Labelled τ)) :
    (groupLabelled tuning false words).IsChain (LineLaw tuning) := by
  refine isChain_groupLabelled words fun first line q rest _ _ h hspeaker p hp q' hq' => ?_
  rw [words_lineSegment, List.getLast?_map] at hp
  obtain ⟨last, hlast, rfl⟩ := Option.mem_map.mp hp
  obtain rfl : q.1 = q' := by simpa using hq'
  cases h.cut q rfl last hlast with
  | label hne =>
      rw [speaker_lineSegment, h.head] at hspeaker
      exact absurd hspeaker.symm hne
  | paused hpause => exact hpause
  | sentence hb => cases hb
  | cap hb => cases hb

section Assign

variable (L : Letters) (tuning : AttributionKnobs τ)

/-- The lines `assign_speakers` hands to the merging of orphans are all spoken. -/
theorem spoken_speakerLines {words : List (Word τ)} {labels : List String} :
    ∀ s ∈ groupLabelled tuning false (words.zip (labels.map some)), Spoken s := fun s hs => by
  refine ⟨(lined_groupLabelled _ s hs).ne_nil, ?_⟩
  obtain ⟨p, hp, hspeaker⟩ := speaker_groupLabelled _ s hs
  obtain ⟨label, -, heq⟩ := List.mem_map.mp (List.of_mem_zip hp).2
  rw [hspeaker, ← heq]
  rfl

/-- **Exactly when a line is broken only where it may be.**  Over all words, turns and knobs: two
consecutive lines of one speaker are always separated by one of the pauses if and only if, at every
orphan the pass over the grouped lines glues to a neighbour, the line on the orphan's other side has
another speaker than that neighbour, or one of the pauses between. -/
theorem line_law_iff (words : List (Word τ)) {turns : List (Turn τ)} (hturns : turns ≠ []) :
    ∃ lines segments,
      speakerLines L tuning (sortedBy Word.start words) (sortedBy Turn.start turns) = .ok lines ∧
      assignSpeakers L tuning words turns = .ok segments ∧
      (segments.IsChain (LineLaw tuning) ↔
        ∀ g ∈ glues L tuning.minSegmentWords tuning.minSegmentDurationS lines, g.Apart tuning) := by
  have hne : sortedBy Turn.start turns ≠ [] := mt sortedBy_eq_nil.mp hturns
  obtain ⟨labels, hlabels, -, -⟩ := speakerLabels_ok L tuning hne (sortedBy Word.start words)
  have hlines : speakerLines L tuning (sortedBy Word.start words) (sortedBy Turn.start turns) =
      .ok (groupLabelled tuning false ((sortedBy Word.start words).zip (labels.map some))) := by
    rw [speakerLines, hlabels]
    rfl
  exact ⟨_, _, hlines, assignSpeakers_eq hturns hlabels,
    isChain_mergeShortOrphans_iff L _ _ (spoken_speakerLines tuning) (lineLaw_groupLabelled _)⟩

end Assign

/-! ### An orphan made by snapping

One voice throughout, but the diarizer gives three seconds of it to another.  "gick hem. ja" is too
long to be smoothed away; snapping then moves "gick hem." to the sentence it ends, and "ja" is left
to be glued to "men": the same voice on both sides, and no pause. -/

def clippedWords : List (Word ℚ) :=
  [⟨"jag", 0, 1, none⟩, ⟨"gick", 1, 2, none⟩, ⟨"hem.", 2, 3, none⟩, ⟨"ja", 3, 7 / 2, none⟩,
    ⟨"men", 4, 5, none⟩, ⟨"sen", 5, 6, none⟩, ⟨"igen", 6, 7, none⟩, ⟨"hem.", 7, 8, none⟩]

def clippedTurns : List (Turn ℚ) := [⟨0, 1, "A"⟩, ⟨1, 4, "B"⟩, ⟨4, 9, "A"⟩]

def clippedLines : List (Segment ℚ) :=
  [⟨0, 3, some "A", "jag gick hem.", clippedWords.take 3, none, []⟩,
    ⟨3, 8, some "A", "ja men sen igen hem.", clippedWords.drop 3, none, []⟩]

theorem clipped_run : assignSpeakers .latin {} clippedWords clippedTurns = .ok clippedLines ∧
    ¬ clippedLines.IsChain (LineLaw {}) := by
  decide +kernel

theorem clipped_orphan :
    ∃ segments, assignSpeakers .latin {} clippedWords clippedTurns = .ok segments ∧
      segments.map (fun s => (s.speaker, s.text)) =
        [(some "A", "jag gick hem."), (some "A", "ja men sen igen hem.")] ∧
      ¬ segments.IsChain (LineLaw {}) :=
  ⟨clippedLines, clipped_run.1, rfl, clipped_run.2⟩

/-- The orphan is glued next to a line of the speaker it comes to. -/
theorem line_law_iff_clipped :
    ∃ lines, speakerLines .latin {} (sortedBy Word.start clippedWords)
        (sortedBy Turn.start clippedTurns) = .ok lines ∧
      ∃ g ∈ glues .latin (1 : ℤ) (0.6 : ℚ) lines, ¬ g.Apart ({} : AttributionKnobs ℚ) := by
  have hturns : clippedTurns ≠ [] := List.cons_ne_nil _ _
  obtain ⟨lines, segments, hlines, hsegments, hiff⟩ := line_law_iff .latin {} clippedWords hturns
  cases Except.ok.inj (clipped_run.1.symm.trans hsegments)
  have hbroken := mt hiff.mpr clipped_run.2
  push Not at hbroken
  exact ⟨lines, hlines, hbroken⟩

end Vemsa.Pipeline

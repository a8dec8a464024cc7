import Vemsa.Pipeline.LineLaw

/-!
# Pipeline — Orphans

Merging an orphan changes what its neighbours are judged by, and they are not judged again.
`merge_short_orphans_settles`: still, no orphan is left that the pass would merge, so a second pass
changes nothing.

The invariant is `¬ Mergeable` of the segment emitted last, with the segment before it and the one
under the cursor, whatever becomes of these.

* Joined ahead, the segment under the cursor keeps its first word.  It has another speaker then, but
  its own was already different from the speaker before it.
* Joined behind, the segment emitted last ends a sentence.  If it were short, it would have been
  an orphan that reads on, and been joined ahead.
-/

namespace Vemsa.Pipeline
open Vemsa.Support Vemsa.Jobs

variable {τ : Type}

section Mergeable

variable [Clock τ] (L : Letters) (maxWords : ℤ) (maxDurationS : τ)

/-- The segment is an orphan between its neighbours, and reads on into or from one of them. -/
def Mergeable (previous : Option (Segment τ)) (segment : Segment τ) (following : Option (Segment τ)) :
    Prop :=
  orphan maxWords maxDurationS segment previous following = true ∧
    ((∃ f ∈ following, gluedAhead L segment f = true) ∨
      ∃ p ∈ previous, gluedBehind L p segment = true)

/-- No segment is mergeable; `previous` is the segment before the first. -/
def Settled (previous : Option (Segment τ)) : List (Segment τ) → Prop
  | [] => True
  | segment :: rest =>
    ¬ Mergeable L maxWords maxDurationS previous segment rest.head? ∧ Settled (some segment) rest

variable {L maxWords maxDurationS} {previous following : Option (Segment τ)}
  {before segment next : Segment τ} {rest segments : List (Segment τ)}

theorem settled_iff : Settled L maxWords maxDurationS previous segments ↔
    ∀ front segment rest, segments = front ++ segment :: rest →
      ¬ Mergeable L maxWords maxDurationS (front.getLast?.or previous) segment rest.head? := by
  induction segments generalizing previous with
  | nil => simp [Settled]
  | cons first segments ih =>
      rw [Settled, ih]
      constructor
      · rintro ⟨hfirst, hlater⟩ front segment rest heq
        cases front with
        | nil =>
            obtain ⟨rfl, rfl⟩ := List.cons.inj heq
            exact hfirst
        | cons b front =>
            obtain ⟨rfl, hrest⟩ := List.cons.inj heq
            have h := hlater front segment rest hrest
            cases front with
            | nil => exact h
            | cons c front =>
                rw [List.getLast?_cons_cons]
                rwa [Option.or_of_isSome (by simp)] at h ⊢
      · rintro hall
        refine ⟨hall [] first segments rfl, fun front segment rest heq => ?_⟩
        have h := hall (first :: front) segment rest (by rw [heq, List.cons_append])
        cases front with
        | nil => exact h
        | cons c front =>
            rw [List.getLast?_cons_cons] at h
            rwa [Option.or_of_isSome (by simp)] at h ⊢

/-- A segment with few words that is over soon. -/
def Short (maxWords : ℤ) (maxDurationS : τ) (segment : Segment τ) : Prop :=
  segment.words.length ≤ maxWords ∧ segment.stop - segment.start ≤ maxDurationS

/-- What an orphan is, among segments that have words. -/
theorem orphan_iff (hsegment : segment.words ≠ []) (hprevious : ∀ p ∈ previous, p.words ≠ [])
    (hfollowing : ∀ f ∈ following, f.words ≠ []) :
    orphan maxWords maxDurationS segment previous following = true ↔
      Short maxWords maxDurationS segment ∧ (previous.isSome ∨ following.isSome) ∧
        (∀ p ∈ previous, p.speaker ≠ segment.speaker) ∧
        ∀ f ∈ following, f.speaker ≠ segment.speaker := by
  cases previous <;> cases following <;> simp_all [orphan, Short]

/-- A neighbour is seen by its speaker and its first word. -/
theorem mergeable_congr {f f' : Segment τ} (hf : f.words ≠ []) (hf' : f'.words ≠ [])
    (hspeaker : f.speaker = f'.speaker) (hhead : f.words.head? = f'.words.head?) :
    Mergeable L maxWords maxDurationS previous segment (some f) ↔
      Mergeable L maxWords maxDurationS previous segment (some f') := by
  simp only [Mergeable, orphan, gluedAhead, firstWord, Option.mem_some_iff, exists_eq_left', hspeaker,
    hhead, Option.toList_some, List.all_append, List.all_cons, List.all_nil]
  simp [hf, hf']

end Mergeable

/-! ### The pass -/

section Pass

variable [SteadyClock τ] {L : Letters} {maxWords : ℤ} {maxDurationS : τ} {previous : Option (Segment τ)}
  {before segment following : Segment τ}

/-- **Joined ahead**, the segment under the cursor still gives the one before it no ground to merge. -/
theorem not_mergeable_joinAhead (hbefore : before.words ≠ []) (hsegment : segment.words ≠ [])
    (hprevious : ∀ p ∈ previous, p.words ≠ [])
    (hspeaker : before.speaker ≠ segment.speaker)
    (h : ¬ Mergeable L maxWords maxDurationS previous before (some segment)) :
    ¬ Mergeable L maxWords maxDurationS previous before
      (some (joinSegments segment following none)) := by
  have hjoin : (joinSegments segment following none).words ≠ [] :=
    List.append_ne_nil_of_left_ne_nil hsegment _
  rintro ⟨horphan, hglued⟩
  rw [orphan_iff hbefore hprevious (by simpa using hjoin)] at horphan
  obtain ⟨hshort, -, hp, -⟩ := horphan
  refine h ⟨(orphan_iff hbefore hprevious (by simpa using hsegment)).mpr
    ⟨hshort, .inr rfl, hp, by simpa using hspeaker.symm⟩, ?_⟩
  have hfirst : firstWord (joinSegments segment following none) = firstWord segment := by
    rw [firstWord, joinSegments, List.head?_append_of_ne_nil _ hsegment, firstWord]
  simpa only [Option.mem_some_iff, exists_eq_left', gluedAhead, hfirst] using hglued

/-- **Joined behind**, the segment before ends a sentence, and had it been short, it would have been
mergeable. -/
theorem not_mergeable_joinBehind {next : Option (Segment τ)} (hbefore : Spoken before)
    (hsegment : segment.words ≠ [])
    (hprevious : ∀ p ∈ previous, p.words ≠ []) (hnext : ∀ f ∈ next, f.words ≠ [])
    (hstop : before.stop ≤ segment.stop) (hspeaker : before.speaker ≠ segment.speaker)
    (hglued : gluedBehind L before segment = true)
    (h : ¬ Mergeable L maxWords maxDurationS previous before (some segment)) :
    ¬ Mergeable L maxWords maxDurationS previous (joinSegments before segment before.speaker) next := by
  obtain ⟨⟨hwords, -⟩, hsame⟩ := hbefore.joinBehind segment
  simp only [gluedBehind, Bool.and_eq_true, Bool.not_eq_true'] at hglued
  obtain ⟨⟨hunended, hreads⟩, hends⟩ := hglued
  have hlast : lastWord (joinSegments before segment before.speaker) = lastWord segment := by
    rw [lastWord, joinSegments, List.getLast?_append_of_ne_nil _ hsegment, lastWord]
  rintro ⟨horphan, hmerge⟩
  rw [orphan_iff hwords hprevious hnext] at horphan
  obtain ⟨⟨hcount, hduration⟩, -, hp, -⟩ := horphan
  have hshort : Short maxWords maxDurationS before := by
    refine ⟨le_trans ?_ hcount, (SteadyClock.sub_le_sub hstop).trans hduration⟩
    simp [joinSegments]
  refine h ⟨(orphan_iff hbefore.1 hprevious (by simpa using hsegment)).mpr
    ⟨hshort, .inr rfl, by rwa [hsame] at hp, by simpa using hspeaker.symm⟩,
    .inl ⟨segment, rfl, ?_⟩⟩
  simp [gluedAhead, hunended, hreads]

/-- A segment joined ahead ends where the later one does. -/
theorem stops_joinAhead (segment : Segment τ) {rest : List (Segment τ)}
    (h : (following :: rest).IsChain fun a b => a.stop ≤ b.stop) :
    (joinSegments segment following none :: rest).IsChain fun a b => a.stop ≤ b.stop :=
  List.isChain_cons.mpr ⟨(List.isChain_cons.mp h).1, (List.isChain_cons.mp h).2⟩

/-- What comes out of the pass with `before` at the end, if `before` is not mergeable. -/
theorem settled_mergeFrom {rest : List (Segment τ)} (hprevious : ∀ p ∈ previous, p.words ≠ [])
    (hspoken : ∀ s ∈ before :: segment :: rest, Spoken s)
    (hstops : (before :: segment :: rest).IsChain fun a b => a.stop ≤ b.stop)
    (h : ¬ Mergeable L maxWords maxDurationS previous before (some segment)) :
    Settled L maxWords maxDurationS previous
      (mergeFrom L maxWords maxDurationS (some before) segment rest) := by
  obtain ⟨hb, hs⟩ : Spoken before ∧ Spoken segment := by simp_all
  obtain ⟨hstop, hlater⟩ := List.isChain_cons_cons.mp hstops
  induction rest generalizing previous before segment with
  | nil =>
      rw [mergeFrom]
      split
      · rename_i hglue
        exact ⟨not_mergeable_joinBehind hb hs.1 hprevious (by simp) hstop (orphan_ne hglue.1) hglue.2 h,
          trivial⟩
      · rename_i hfree
        refine ⟨h, ?_, trivial⟩
        rintro ⟨horphan, ⟨f, hf, -⟩ | ⟨p, hp, hglued⟩⟩
        · cases hf
        · obtain rfl := Option.some.inj hp
          exact hfree ⟨horphan, hglued⟩
  | cons following rest ih =>
      have hf : Spoken following := hspoken following (by simp)
      have hrest : ∀ s ∈ rest, Spoken s := fun s h => hspoken s (by simp [h])
      obtain ⟨hstop', hlater'⟩ := List.isChain_cons_cons.mp hlater
      rw [mergeFrom.eq_def]
      dsimp only
      split
      · rename_i hglue
        have hjoined := hs.joinAhead hf
        have hchain := stops_joinAhead segment hlater'
        refine ih hprevious (by simpa using ⟨hb, hjoined, hrest⟩) ?_
          (not_mergeable_joinAhead hb.1 hs.1 hprevious (orphan_ne hglue.1) h) hb hjoined
          (hstop.trans hstop') hchain
        exact List.isChain_cons_cons.mpr ⟨hstop.trans hstop', hchain⟩
      rename_i hfree
      split
      · rename_i hglue
        obtain ⟨hjoined, -⟩ := hb.joinBehind segment
        exact ih hprevious (by simpa using ⟨hjoined, hf, hrest⟩)
          (List.isChain_cons_cons.mpr ⟨hstop', hlater'⟩)
          (not_mergeable_joinBehind hb hs.1 hprevious (by simpa using hf.1) hstop (orphan_ne hglue.1)
            hglue.2 h) hjoined hf hstop' hlater'
      · rename_i hfree'
        obtain ⟨s, out, hout, hspeaker, hhead⟩ :=
          (merges_mergeFrom L maxWords maxDurationS (some segment) following rest).head rfl hs
        have hwords : s.words ≠ [] := fun hnil => by
          rw [hnil, List.head?_nil] at hhead
          exact hs.1 (List.head?_eq_none_iff.mp hhead.symm)
        have hnext := ih (show ∀ p ∈ some before, p.words ≠ [] by simpa using hb.1)
          (by simpa using ⟨hs, hf, hrest⟩) hlater
          (by
            rintro ⟨horphan, ⟨f, hf, hglued⟩ | ⟨p, hp, hglued⟩⟩
            · obtain rfl := Option.some.inj hf
              exact hfree ⟨horphan, hglued⟩
            · obtain rfl := Option.some.inj hp
              exact hfree' ⟨horphan, hglued⟩) hs hf hstop' hlater'
        refine ⟨?_, hnext⟩
        rw [hout, List.head?_cons, mergeable_congr hwords hs.1 hspeaker hhead]
        exact h

theorem settled_mergeFrom_none {rest : List (Segment τ)} (hspoken : ∀ s ∈ segment :: rest, Spoken s)
    (hstops : (segment :: rest).IsChain fun a b => a.stop ≤ b.stop) :
    Settled L maxWords maxDurationS none (mergeFrom L maxWords maxDurationS none segment rest) := by
  induction rest generalizing segment with
  | nil =>
      refine ⟨?_, trivial⟩
      rintro ⟨-, ⟨f, hf, -⟩ | ⟨p, hp, -⟩⟩
      · cases hf
      · cases hp
  | cons following rest ih =>
      obtain ⟨hs, hf, hrest⟩ : Spoken segment ∧ Spoken following ∧ ∀ s ∈ rest, Spoken s := by
        simpa using hspoken
      obtain ⟨hstop, hlater⟩ := List.isChain_cons_cons.mp hstops
      rw [mergeFrom.eq_def]
      dsimp only
      split
      · exact ih (by simpa using ⟨hs.joinAhead hf, hrest⟩) (stops_joinAhead _ hlater)
      · rename_i hfree
        refine settled_mergeFrom (by simp) hspoken hstops ?_
        rintro ⟨horphan, ⟨f, hf, hglued⟩ | ⟨p, hp, -⟩⟩
        · obtain rfl := Option.some.inj hf
          exact hfree ⟨horphan, hglued⟩
        · cases hp

end Pass

/-! ### A second pass -/

section Again

variable [Clock τ] {L : Letters} {maxWords : ℤ} {maxDurationS : τ} {before segment : Segment τ}
  {rest segments : List (Segment τ)}

theorem mergeFrom_of_settled
    (h : Settled L maxWords maxDurationS (some before) (segment :: rest)) :
    mergeFrom L maxWords maxDurationS (some before) segment rest = before :: segment :: rest := by
  induction rest generalizing before segment with
  | nil =>
      rw [mergeFrom, if_neg fun hglue => h.1 ⟨hglue.1, .inr ⟨before, rfl, hglue.2⟩⟩]
  | cons following rest ih =>
      rw [mergeFrom.eq_def]
      dsimp only
      rw [if_neg fun hglue => h.1 ⟨hglue.1, .inl ⟨following, rfl, hglue.2⟩⟩,
        if_neg fun hglue => h.1 ⟨hglue.1, .inr ⟨before, rfl, hglue.2⟩⟩, ih h.2]

/-- Nothing is merged where nothing is mergeable. -/
theorem mergeShortOrphans_of_settled (h : Settled L maxWords maxDurationS none segments) :
    mergeShortOrphans L maxWords maxDurationS segments = segments := by
  rcases segments with _ | ⟨segment, _ | ⟨following, rest⟩⟩
  · rfl
  · rfl
  · rw [mergeShortOrphans, mergeFrom.eq_def]
    dsimp only
    rw [if_neg fun hglue => h.1 ⟨hglue.1, .inl ⟨following, rfl, hglue.2⟩⟩, mergeFrom_of_settled h.2]

end Again

section Stable

variable [SteadyClock τ] (L : Letters) (maxWords : ℤ) (maxDurationS : τ)

/-- **Merging orphans is complete and stable.**  The words stay as they are, no orphan is left that
reads on into or from a neighbour, and a second pass changes nothing. -/
theorem merge_short_orphans_settles {segments : List (Segment τ)}
    (hspoken : ∀ s ∈ segments, Spoken s)
    (hordered : segments.IsChain fun a b => a.start ≤ b.start ∧ a.stop ≤ b.stop) :
    let out := mergeShortOrphans L maxWords maxDurationS segments
    out.flatMap Segment.words = segments.flatMap Segment.words ∧
      (∀ front segment rest, out = front ++ segment :: rest →
        ¬ Mergeable L maxWords maxDurationS front.getLast? segment rest.head?) ∧
      mergeShortOrphans L maxWords maxDurationS out = out := by
  intro out
  have hstops : segments.IsChain fun a b => a.stop ≤ b.stop := hordered.imp fun _ _ h => h.2
  have hsettled : Settled L maxWords maxDurationS none out := by
    rcases segments with _ | ⟨segment, _ | ⟨following, rest⟩⟩
    · trivial
    · exact settled_mergeFrom_none hspoken hstops
    · exact settled_mergeFrom_none hspoken hstops
  refine ⟨flatMap_words_mergeShortOrphans L maxWords maxDurationS segments, fun front segment rest heq => ?_,
    mergeShortOrphans_of_settled hsettled⟩
  rw [← Option.or_none (o := front.getLast?)]
  exact settled_iff.mp hsettled front segment rest heq

end Stable

/-- "att" is credited to a third voice. -/
def jitter : List (Segment ℚ) :=
  [⟨0, 1, some "A", "Ja.", [⟨"Ja.", 0, 1, none⟩], none, []⟩,
    ⟨1, 1.4, some "B", "att", [⟨"att", 1, 1.4, none⟩], none, []⟩,
    ⟨1.4, 3, some "C", "ni kom", [⟨"ni", 1.4, 2, none⟩, ⟨"kom", 2, 3, none⟩], none, []⟩]

theorem merge_short_orphans_settles_jitter :
    let out := mergeShortOrphans .latin 1 0.6 jitter
    out.flatMap Segment.words = jitter.flatMap Segment.words ∧
      (∀ front segment rest, out = front ++ segment :: rest →
        ¬ Mergeable .latin 1 0.6 front.getLast? segment rest.head?) ∧
      mergeShortOrphans .latin 1 0.6 out = out :=
  merge_short_orphans_settles .latin 1 0.6 (by simp [jitter, Spoken]) (by decide +kernel)

end Vemsa.Pipeline

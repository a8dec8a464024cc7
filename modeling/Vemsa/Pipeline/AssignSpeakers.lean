import Vemsa.Pipeline.Lines

/-!
# Pipeline — AssignSpeakers

`assign_speakers` from its words to its segments.

* Labelling gives every word the speaker of a turn, and smoothing and snapping only move labels
  around (`labelWords_ok`, `smoothIslands_subset`, `snapBoundaries_ok`).
* Grouping and merging keep the words in order and each segment made of its words (`Lined`,
  `flatMap_words_mergeFrom`).
* `assign_speakers_conserves`: so the words come out as they went in, each once.
-/

namespace Vemsa.Pipeline
open Vemsa.Support Vemsa.Jobs

variable {τ : Type} [Clock τ]

/-! ### Labelling -/

section Label

variable (minCoverage inheritMaxGapS : τ) {turns : List (Turn τ)}

theorem nearestTurn_ok (hturns : turns ≠ []) (start stop : τ) :
    ∃ turn ∈ turns, nearestTurn start stop turns = .ok turn := by
  unfold nearestTurn
  dsimp only
  split
  · rename_i hnone
    exact absurd (List.argmin_eq_none.mp hnone) hturns
  · rename_i turn hsome
    exact ⟨turn, List.argmin_mem hsome, rfl⟩

/-- The turn that wins is a turn, or there is none. -/
theorem bestTurn_mem (word : Word τ) {best : Option String} {bestOverlap : τ}
    {candidates : List (Turn τ)} {speaker : String}
    (h : (bestTurn word best bestOverlap candidates).1 = some speaker) :
    best = some speaker ∨ speaker ∈ candidates.map Turn.speaker := by
  induction candidates generalizing best bestOverlap with
  | nil => exact .inl h
  | cons turn rest ih =>
      rw [bestTurn] at h
      rw [List.map_cons, List.mem_cons]
      split at h
      · split at h
        · exact .inr ((ih h).imp_left fun heq => (Option.some.inj heq).symm)
        · exact (ih h).imp_right .inr
      · exact .inl h

theorem labelWord_ok (hturns : turns ≠ []) {previous : Option (Word τ × String)}
    (hprevious : ∀ p ∈ previous, p.2 ∈ turns.map Turn.speaker) {candidates : List (Turn τ)}
    (hcandidates : candidates ⊆ turns) (word : Word τ) :
    ∃ label ∈ turns.map Turn.speaker,
      labelWord minCoverage inheritMaxGapS turns previous candidates word = .ok label := by
  have nearest : ∃ label ∈ turns.map Turn.speaker,
      (nearestTurn word.start word.stop turns).map Turn.speaker = .ok label := by
    obtain ⟨turn, hturn, hok⟩ := nearestTurn_ok hturns word.start word.stop
    exact ⟨turn.speaker, List.mem_map_of_mem hturn, by rw [hok]; rfl⟩
  unfold labelWord
  dsimp only
  split
  · rename_i speaker hbest
    refine ⟨speaker, ?_, rfl⟩
    split at hbest
    · cases hbest
    · rcases bestTurn_mem word hbest with h | h
      · cases h
      · exact List.map_subset _ hcandidates h
  · exact nearest
  · rename_i before label _
    split
    · exact ⟨label, hprevious _ rfl, rfl⟩
    · exact nearest

/-- **Every word gets the speaker of a turn.** -/
theorem labelFrom_ok (hturns : turns ≠ []) (previous : Option (Word τ × String))
    (hprevious : ∀ p ∈ previous, p.2 ∈ turns.map Turn.speaker) {candidates : List (Turn τ)}
    (hcandidates : candidates ⊆ turns) (words : List (Word τ)) :
    ∃ labels, labelFrom minCoverage inheritMaxGapS turns previous candidates words = .ok labels ∧
      labels.length = words.length ∧ labels ⊆ turns.map Turn.speaker := by
  induction words generalizing previous candidates with
  | nil => exact ⟨[], rfl, rfl, List.nil_subset _⟩
  | cons word words ih =>
      have hsub : candidates.dropWhile (fun turn => turn.stop ≤ word.start) ⊆ turns :=
        fun _ h => hcandidates ((List.dropWhile_sublist _).subset h)
      obtain ⟨label, hlabel, hok⟩ := labelWord_ok minCoverage inheritMaxGapS hturns hprevious hsub word
      obtain ⟨labels, hrest, hlen, hmem⟩ :=
        ih (some (word, label)) (by simpa using hlabel) hsub
      refine ⟨label :: labels, ?_, by simp [hlen], List.cons_subset.mpr ⟨hlabel, hmem⟩⟩
      simp only [labelFrom, hok, hrest]

theorem labelWords_ok (hturns : turns ≠ []) (words : List (Word τ)) :
    ∃ labels, labelWords minCoverage inheritMaxGapS turns words = .ok labels ∧
      labels.length = words.length ∧ labels ⊆ turns.map Turn.speaker :=
  labelFrom_ok _ _ hturns none (by simp) (List.Subset.refl _) words

end Label

/-! ### Smoothing -/

section Smooth

variable (L : Letters) (maxWords : ℤ) (maxDurationS maxSpanS : τ)

omit [Clock τ] in
/-- The runs hold one word for each label, and no label of their own. -/
theorem labelRuns_spec (labelled : List (Word τ × String)) :
    ((labelRuns labelled).map LabelRun.count).sum = labelled.length ∧
      (labelRuns labelled).map LabelRun.label ⊆ labelled.map Prod.snd := by
  induction labelled with
  | nil => simp [labelRuns]
  | cons p rest ih =>
      obtain ⟨word, label⟩ := p
      rw [labelRuns]
      split
      · rename_i h
        rw [h] at ih
        have hrest : rest = [] := List.length_eq_zero_iff.mp (by simpa using ih.1.symm)
        simp [hrest, LabelRun.count]
      · rename_i run runs h
        rw [h] at ih
        obtain ⟨hsum, hsub⟩ := ih
        simp only [List.map_cons, List.sum_cons, LabelRun.count, List.cons_subset] at hsum hsub
        split
        · rename_i heq
          refine ⟨?_, ?_⟩
          · simp only [List.map_cons, List.sum_cons, LabelRun.count, List.length_cons]
            omega
          · exact List.cons_subset.mpr
              ⟨by simp, fun l hl => List.mem_cons_of_mem _ (hsub.2 hl)⟩
        · refine ⟨?_, ?_⟩
          · simp only [List.map_cons, List.sum_cons, LabelRun.count, List.length_cons,
              List.length_nil]
            omega
          · refine List.cons_subset.mpr ⟨by simp, fun l hl => List.mem_cons_of_mem _ ?_⟩
            exact (List.cons_subset.mpr hsub) hl

theorem smoothedLabel_mem (previous : Option (Word τ × String)) (run : LabelRun τ)
    (next : Option (LabelRun τ)) :
    smoothedLabel L maxWords maxDurationS maxSpanS previous run next ∈
      (previous.map Prod.snd).toList ++ [run.label] := by
  unfold smoothedLabel
  split
  · split <;> simp
  · simp

theorem smoothFrom_spec (previous : Option (Word τ × String)) (runs : List (LabelRun τ)) :
    (smoothFrom L maxWords maxDurationS maxSpanS previous runs).length =
        (runs.map LabelRun.count).sum ∧
      smoothFrom L maxWords maxDurationS maxSpanS previous runs ⊆
        (previous.map Prod.snd).toList ++ runs.map LabelRun.label := by
  induction runs generalizing previous with
  | nil => simp [smoothFrom]
  | cons run runs ih =>
      have hlabel := smoothedLabel_mem L maxWords maxDurationS maxSpanS previous run runs.head?
      have hruns : (run :: runs).map LabelRun.label = [run.label] ++ runs.map LabelRun.label := rfl
      rw [smoothFrom, hruns, ← List.append_assoc]
      obtain ⟨hlen, hsub⟩ := ih (some (run.last, _))
      refine ⟨?_, List.append_subset.mpr ⟨fun l h => ?_, fun l h => ?_⟩⟩
      · rw [List.length_append, List.length_replicate, hlen]
        rfl
      · exact List.mem_append_left _ (List.eq_of_mem_replicate h ▸ hlabel)
      · rcases List.mem_append.mp (hsub h) with h | h
        · rw [Option.map_some, Option.toList_some, List.mem_singleton] at h
          exact List.mem_append_left _ (h ▸ hlabel)
        · exact List.mem_append_right _ h

theorem length_smoothIslands {words : List (Word τ)} {labels : List String}
    (hlen : labels.length = words.length) :
    (smoothIslands L maxWords maxDurationS maxSpanS words labels).length = labels.length := by
  rw [smoothIslands, (smoothFrom_spec _ _ _ _ none _).1, (labelRuns_spec _).1, List.length_zip, hlen,
    min_self]

/-- Smoothing makes up no label. -/
theorem smoothIslands_subset (words : List (Word τ)) (labels : List String) :
    smoothIslands L maxWords maxDurationS maxSpanS words labels ⊆ labels := fun l h => by
  have h₁ := (labelRuns_spec (words.zip labels)).2 ((smoothFrom_spec _ _ _ _ none _).2 h)
  obtain ⟨p, hp, rfl⟩ := List.mem_map.mp h₁
  exact (List.of_mem_zip hp).2

end Smooth

/-! ### Snapping -/

section Snap

variable (words : List (Word τ)) (labels : List String)

theorem pyIndex_ok {α : Type} (items : List α) {index : ℕ} (h : index < items.length) :
    pyIndex items index = .ok items[index] := by
  rw [pyIndex, List.getElem?_eq_getElem h]

omit [Clock τ] in
theorem sentenceEndBehindFrom_ok (left : String) (steps next : ℕ)
    (hlabels : next ≤ labels.length) (hwords : next ≤ words.length) :
    ∃ r, sentenceEndBehindFrom words labels left steps next = .ok r ∧ ∀ i ∈ r, i < next := by
  induction steps generalizing next with
  | zero => exact ⟨none, rfl, by simp⟩
  | succ steps ih =>
      cases next with
      | zero => exact ⟨none, rfl, by simp⟩
      | succ index =>
          obtain ⟨r, hr, hlt⟩ := ih index (by omega) (by omega)
          rw [sentenceEndBehindFrom, pyIndex_ok labels (by omega), pyIndex_ok words (by omega)]
          simp only [bind, Except.bind, pure, Except.pure]
          split
          · exact ⟨none, rfl, by simp⟩
          split
          · exact ⟨some index, rfl, by simp⟩
          · exact ⟨r, hr, fun i hi => Nat.lt_succ_of_lt (hlt i hi)⟩

omit [Clock τ] in
theorem sentenceEndAheadFrom_ok (right : String) (hlen : labels.length = words.length)
    (steps index : ℕ) :
    ∃ r, sentenceEndAheadFrom words labels right steps index = .ok r ∧
      ∀ i ∈ r, index ≤ i ∧ i + 1 < words.length := by
  induction steps generalizing index with
  | zero => exact ⟨none, rfl, by simp⟩
  | succ steps ih =>
      obtain ⟨r, hr, hle⟩ := ih (index + 1)
      rw [sentenceEndAheadFrom]
      split
      · exact ⟨none, rfl, by simp⟩
      rename_i hlt
      rw [pyIndex_ok labels (by omega), pyIndex_ok words (by omega)]
      simp only [bind, Except.bind, pure, Except.pure]
      split
      · exact ⟨none, rfl, by simp⟩
      split
      · split
        · rename_i hnext
          rw [pyIndex_ok labels (by omega)]
          dsimp only
          split
          · exact ⟨some index, rfl, by simpa using hnext⟩
          · exact ⟨none, rfl, by simp⟩
        · exact ⟨none, rfl, by simp⟩
      · exact ⟨r, hr, fun i hi => ⟨(Nat.le_succ _).trans (hle i hi).1, (hle i hi).2⟩⟩

theorem gapAfter_ok (index : ℕ) (h : index + 1 < words.length) :
    ∃ gap, gapAfter words index = .ok gap := by
  rw [gapAfter, pyIndex_ok words h, pyIndex_ok words (by omega)]
  exact ⟨_, rfl⟩

theorem pullRight_ok (boundary : ℕ) {behind ahead : Option ℕ}
    (hbehind : ∀ i ∈ behind, i + 1 < words.length) (hahead : ∀ i ∈ ahead, i + 1 < words.length) :
    ∃ r, pullRight words boundary behind ahead = .ok r := by
  cases behind with
  | none => cases ahead <;> exact ⟨_, rfl⟩
  | some i =>
      cases ahead with
      | none => exact ⟨_, rfl⟩
      | some j =>
          obtain ⟨g, hg⟩ := gapAfter_ok words i (hbehind i rfl)
          obtain ⟨g', hg'⟩ := gapAfter_ok words j (hahead j rfl)
          simp only [pullRight, hg, hg', bind, Except.bind, pure, Except.pure]
          split
          · exact ⟨_, rfl⟩
          · split <;> exact ⟨_, rfl⟩

theorem length_fill {α : Type} {items : List α} {first last : ℕ} (h : first ≤ last)
    (hlast : last ≤ items.length) (item : α) : (fill items first last item).length = items.length := by
  simp only [fill, List.length_append, List.length_take, List.length_replicate, List.length_drop]
  omega

theorem fill_subset {α : Type} {items : List α} {item : α} (h : item ∈ items) (first last : ℕ) :
    fill items first last item ⊆ items := by
  refine List.append_subset.mpr ⟨List.append_subset.mpr ⟨List.take_subset _ _, fun x hx => ?_⟩,
    List.drop_subset _ _⟩
  exact List.eq_of_mem_replicate hx ▸ h

variable {words labels} (L : Letters) (maxWords : ℤ) (maxGapS : τ)

/-- One boundary: no index is out of range, and labels only move. -/
theorem snapBoundary_ok (hlen : labels.length = words.length) {boundary : ℕ} (h₀ : 0 < boundary)
    (h₁ : boundary < words.length) :
    ∃ out, snapBoundary L words maxWords maxGapS labels boundary = .ok out ∧
      out.length = labels.length ∧ out ⊆ labels := by
  have unchanged : ∃ out, (Except.ok labels : Except String (List String)) = .ok out ∧
      out.length = labels.length ∧ out ⊆ labels := ⟨labels, rfl, rfl, List.Subset.refl _⟩
  obtain ⟨gap, hgap⟩ := gapAfter_ok words (boundary - 1) (by omega)
  obtain ⟨behind, hb, hblt⟩ := sentenceEndBehindFrom_ok words labels labels[boundary - 1]
    maxWords.toNat (boundary - 1) (by omega) (by omega)
  obtain ⟨ahead, ha, hale⟩ := sentenceEndAheadFrom_ok words labels labels[boundary] hlen
    maxWords.toNat boundary
  obtain ⟨pull, hpull⟩ := pullRight_ok words boundary
    (fun i hi => by have := hblt i hi; omega) (fun i hi => (hale i hi).2)
  simp only [snapBoundary, sentenceEndBehind, sentenceEndAhead, bind, Except.bind, pure, Except.pure,
    pyIndex_ok labels (show boundary - 1 < labels.length by omega),
    pyIndex_ok labels (show boundary < labels.length by omega),
    pyIndex_ok words (show boundary - 1 < words.length by omega), pyIndex_ok words h₁, hgap, hb, ha,
    hpull]
  split
  · exact unchanged
  split
  · exact unchanged
  split
  · exact unchanged
  split
  · exact unchanged
  split
  · have := hblt _ rfl
    exact ⟨_, rfl, length_fill (by omega) (by omega) _, fill_subset (List.getElem_mem _) _ _⟩
  · have := hale _ rfl
    exact ⟨_, rfl, length_fill (by omega) (by omega) _, fill_subset (List.getElem_mem _) _ _⟩
  · exact unchanged

/-- **Snapping reads no word out of range and makes up no label.** -/
theorem snapBoundaries_ok (hlen : labels.length = words.length) :
    ∃ out, snapBoundaries L words maxWords maxGapS labels = .ok out ∧
      out.length = labels.length ∧ out ⊆ labels := by
  refine foldlM_ok _ (fun boundary hb snapped hs => ?_) ⟨rfl, List.Subset.refl labels⟩
  rw [List.mem_range'_1] at hb
  obtain ⟨out, hout, hlen', hsub⟩ := snapBoundary_ok L maxWords maxGapS (hs.1.trans hlen)
    (show 0 < boundary by omega) (by omega)
  exact ⟨out, hout, hlen'.trans hs.1, List.Subset.trans hsub hs.2⟩

end Snap

/-! ### The labels -/

/-- `assign_speakers` labels every word with the speaker of a turn. -/
theorem speakerLabels_ok (L : Letters) (tuning : AttributionKnobs τ) {turns : List (Turn τ)}
    (hturns : turns ≠ []) (words : List (Word τ)) :
    ∃ labels, speakerLabels L tuning words turns = .ok labels ∧ labels.length = words.length ∧
      labels ⊆ turns.map Turn.speaker := by
  obtain ⟨labels, hlabels, hlen, hsub⟩ :=
    labelWords_ok tuning.minCoverage tuning.inheritMaxGapS hturns words
  have hlen' := length_smoothIslands L tuning.islandMaxWords tuning.islandMaxDurationS
    tuning.islandMaxSpanS hlen
  obtain ⟨out, hout, hlen'', hsub'⟩ :=
    snapBoundaries_ok L tuning.boundaryMaxWords tuning.boundaryMaxGapS (hlen'.trans hlen)
  refine ⟨out, ?_, by omega, ?_⟩
  · rw [speakerLabels, hlabels]
    exact hout
  · exact List.Subset.trans hsub'
      (List.Subset.trans (smoothIslands_subset _ _ _ _ words labels) hsub)

/-! ### Segments made of words -/

/-- The segment is made of its words: it has some, and they give its text and its times. -/
structure Lined (segment : Segment τ) : Prop where
  ne_nil : segment.words ≠ []
  text : segment.text = pyJoin " " (segment.words.map Word.word)
  start : ∀ first ∈ segment.words.head?, segment.start = first.start
  stop : ∀ last ∈ segment.words.getLast?, segment.stop = last.stop

theorem lined_lineSegment {line : List (Labelled τ)} (h : line ≠ []) : Lined (lineSegment line) := by
  obtain ⟨first, rest, rfl⟩ := List.exists_cons_of_ne_nil h
  refine ⟨List.cons_ne_nil _ _, rfl, by simp [lineSegment], fun last hlast => ?_⟩
  rw [lineSegment, List.getLast?_eq_some_getLast (List.cons_ne_nil _ _),
    Option.mem_some_iff] at hlast
  exact hlast ▸ rfl

omit [Clock τ] in
/-- Joined segments are made of the words of both. -/
theorem Lined.join {first second : Segment τ} (h₁ : Lined first) (h₂ : Lined second)
    (speaker : Option String) : Lined (joinSegments first second speaker) where
  ne_nil := List.append_ne_nil_of_left_ne_nil h₁.ne_nil _
  text := by
    rw [joinSegments, List.map_append, pyJoin_append (by simpa using h₁.ne_nil)
      (by simpa using h₂.ne_nil), h₁.text, h₂.text]
  start w hw := by
    rw [joinSegments, List.head?_append_of_ne_nil _ h₁.ne_nil] at hw
    exact h₁.start w hw
  stop w hw := by
    rw [joinSegments, List.getLast?_append_of_ne_nil _ h₂.ne_nil] at hw
    exact h₂.stop w hw

theorem lined_groupLabelled {tuning : AttributionKnobs τ} {bounded : Bool}
    (words : List (Labelled τ)) : ∀ s ∈ groupLabelled tuning bounded words, Lined s :=
  forall_groupLabelled (fun _ _ _ h => lined_lineSegment fun hnil => by simpa [hnil] using h.head)
    words

/-! ### Merging -/

/-- An orphan that the pass glues to the line after it, or to the line before it. -/
inductive Glue (τ : Type) where
  | ahead (previous : Option (Segment τ)) (orphan following : Segment τ)
  | behind (previous orphan : Segment τ) (following : Option (Segment τ))

section Merge

variable (L : Letters) (maxWords : ℤ) (maxDurationS : τ)

/-- What `mergeFrom` glues together, in order. -/
def gluesFrom (previous : Option (Segment τ)) (segment : Segment τ) :
    List (Segment τ) → List (Glue τ)
  | [] =>
    match previous with
    | none => []
    | some before =>
      if orphan maxWords maxDurationS segment previous none ∧ gluedBehind L before segment then
        [.behind before segment none]
      else []
  | following :: rest =>
    if orphan maxWords maxDurationS segment previous (some following) ∧
        gluedAhead L segment following then
      .ahead previous segment following ::
        gluesFrom previous (joinSegments segment following none) rest
    else
      match previous with
      | none => gluesFrom (some segment) following rest
      | some before =>
        if orphan maxWords maxDurationS segment previous (some following) ∧
            gluedBehind L before segment then
          .behind before segment (some following) ::
            gluesFrom (some (joinSegments before segment before.speaker)) following rest
        else gluesFrom (some segment) following rest

/-- The orphans `_merge_short_orphans` glues to a neighbour. -/
def glues : List (Segment τ) → List (Glue τ)
  | [] => []
  | [_] => []
  | segment :: following :: rest => gluesFrom L maxWords maxDurationS none segment (following :: rest)

/-- The steps of the pass: from `previous`, `segment` and the segments after it, what comes out and
what is glued. -/
inductive Merges : Option (Segment τ) → Segment τ → List (Segment τ) → List (Segment τ) →
    List (Glue τ) → Prop where
  | lone (segment : Segment τ) : Merges none segment [] [segment] []
  | last (before segment : Segment τ) : Merges (some before) segment [] [before, segment] []
  | lastBehind {before segment : Segment τ}
      (horphan : orphan maxWords maxDurationS segment (some before) none) :
      Merges (some before) segment [] [joinSegments before segment before.speaker]
        [.behind before segment none]
  | ahead {previous : Option (Segment τ)} {segment following : Segment τ}
      {rest out : List (Segment τ)} {gs : List (Glue τ)}
      (horphan : orphan maxWords maxDurationS segment previous (some following))
      (h : Merges previous (joinSegments segment following none) rest out gs) :
      Merges previous segment (following :: rest) out (.ahead previous segment following :: gs)
  | first {segment following : Segment τ} {rest out : List (Segment τ)} {gs : List (Glue τ)}
      (h : Merges (some segment) following rest out gs) :
      Merges none segment (following :: rest) out gs
  | behind {before segment following : Segment τ} {rest out : List (Segment τ)} {gs : List (Glue τ)}
      (horphan : orphan maxWords maxDurationS segment (some before) (some following))
      (h : Merges (some (joinSegments before segment before.speaker)) following rest out gs) :
      Merges (some before) segment (following :: rest) out
        (.behind before segment (some following) :: gs)
  | push {before segment following : Segment τ} {rest out : List (Segment τ)} {gs : List (Glue τ)}
      (h : Merges (some segment) following rest out gs) :
      Merges (some before) segment (following :: rest) (before :: out) gs

theorem merges_mergeFrom (previous : Option (Segment τ)) (segment : Segment τ)
    (rest : List (Segment τ)) :
    Merges maxWords maxDurationS previous segment rest
      (mergeFrom L maxWords maxDurationS previous segment rest)
      (gluesFrom L maxWords maxDurationS previous segment rest) := by
  induction rest generalizing previous segment with
  | nil =>
      cases previous with
      | none => exact .lone segment
      | some before =>
          rw [mergeFrom, gluesFrom]
          split
          · rename_i h
            exact .lastBehind h.1
          · exact .last before segment
  | cons following rest ih =>
      rw [mergeFrom.eq_def, gluesFrom.eq_def]
      dsimp only
      split
      · rename_i h
        exact .ahead h.1 (ih _ _)
      cases previous with
      | none => exact .first (ih _ _)
      | some before =>
          dsimp only
          split
          · rename_i h
            exact .behind h.1 (ih _ _)
          · exact .push (ih _ _)

variable {maxWords maxDurationS} {previous : Option (Segment τ)} {segment : Segment τ}
  {rest out : List (Segment τ)} {gs : List (Glue τ)}

/-- Merging loses no word. -/
theorem Merges.flatMap_words (h : Merges maxWords maxDurationS previous segment rest out gs) :
    out.flatMap Segment.words = (previous.toList ++ segment :: rest).flatMap Segment.words := by
  induction h with
  | lone | last => rfl
  | lastBehind => simp [joinSegments]
  | ahead _ _ ih => simp [ih, joinSegments]
  | first _ ih => exact ih
  | behind _ _ ih => simp [ih, joinSegments]
  | push _ ih => rw [List.flatMap_cons, ih]; rfl

/-- What two segments share with the segment they are joined to, all segments keep. -/
theorem Merges.forall_mem {P : Segment τ → Prop}
    (hjoin : ∀ a b, P a → P b → P (joinSegments a b none) ∧ P (joinSegments a b a.speaker))
    (h : Merges maxWords maxDurationS previous segment rest out gs)
    (hall : ∀ s ∈ previous.toList ++ segment :: rest, P s) : ∀ s ∈ out, P s := by
  induction h with
  | lone | last => exact hall
  | lastBehind =>
      obtain ⟨hb, hs⟩ := by simpa using hall
      exact List.forall_mem_singleton.mpr (hjoin _ _ hb hs).2
  | ahead _ _ ih =>
      simp only [List.forall_mem_append, List.forall_mem_cons] at hall ih
      exact ih ⟨hall.1, (hjoin _ _ hall.2.1 hall.2.2.1).1, hall.2.2.2⟩
  | first _ ih => exact ih hall
  | behind _ _ ih =>
      obtain ⟨hb, hs, hrest⟩ := by simpa using hall
      exact ih (by simpa using ⟨(hjoin _ _ hb hs).2, hrest⟩)
  | push _ ih =>
      obtain ⟨hb, hrest⟩ := List.forall_mem_cons.mp hall
      exact List.forall_mem_cons.mpr ⟨hb, ih hrest⟩

variable (maxWords maxDurationS)

theorem flatMap_words_mergeShortOrphans (segments : List (Segment τ)) :
    (mergeShortOrphans L maxWords maxDurationS segments).flatMap Segment.words =
      segments.flatMap Segment.words := by
  rcases segments with _ | ⟨segment, _ | ⟨following, rest⟩⟩
  · rfl
  · rfl
  · exact (merges_mergeFrom L maxWords maxDurationS none segment (following :: rest)).flatMap_words

theorem forall_mergeShortOrphans {P : Segment τ → Prop}
    (hjoin : ∀ a b, P a → P b → P (joinSegments a b none) ∧ P (joinSegments a b a.speaker))
    {segments : List (Segment τ)} (h : ∀ s ∈ segments, P s) :
    ∀ s ∈ mergeShortOrphans L maxWords maxDurationS segments, P s := by
  rcases segments with _ | ⟨segment, _ | ⟨following, rest⟩⟩
  · exact h
  · exact h
  · exact (merges_mergeFrom L maxWords maxDurationS none segment (following :: rest)).forall_mem
      hjoin h

end Merge

/-! ### Conservation -/

/-- The speaker of a turn, or nobody where there are no turns. -/
def SpeakerOf (turns : List (Turn τ)) (speaker : Option String) : Prop :=
  if turns = [] then speaker = none else ∃ turn ∈ turns, speaker = some turn.speaker

theorem assignSpeakers_eq {L : Letters} {tuning : AttributionKnobs τ} {words : List (Word τ)}
    {turns : List (Turn τ)} (hturns : turns ≠ []) {labels : List String}
    (hlabels : speakerLabels L tuning (sortedBy Word.start words) (sortedBy Turn.start turns) =
      .ok labels) :
    assignSpeakers L tuning words turns =
      .ok (mergeShortOrphans L tuning.minSegmentWords tuning.minSegmentDurationS
        (groupLabelled tuning false ((sortedBy Word.start words).zip (labels.map some)))) := by
  rw [assignSpeakers]
  split
  · rename_i hwords
    rw [sortedBy_eq_nil.mpr hwords, List.zip_nil_left, groupLabelled, pieces_nil]
    rfl
  · dsimp only
    rw [speakerLines, hlabels]
    rfl

/-- The segments' words are the words by start. -/
theorem assignSpeakers_words {L : Letters} {tuning : AttributionKnobs τ} {words : List (Word τ)}
    {turns : List (Turn τ)} {segments : List (Segment τ)}
    (h : assignSpeakers L tuning words turns = .ok segments) :
    StablySorted Word.start words (segments.flatMap Segment.words) := by
  have hsorted := stablySorted_sortedBy Word.start words
  by_cases hwords : words = []
  · rw [hwords] at h ⊢
    obtain rfl : [] = segments := Except.ok.inj h
    exact stablySorted_sortedBy _ []
  by_cases hturns : turns = []
  · rw [hturns, assignSpeakers, if_neg hwords] at h
    obtain rfl := Except.ok.inj h
    rw [flatMap_words_groupLabelled, List.map_map]
    simpa [Function.comp_def] using hsorted
  · have hne : sortedBy Turn.start turns ≠ [] := mt sortedBy_eq_nil.mp hturns
    obtain ⟨labels, hlabels, hlen, -⟩ := speakerLabels_ok L tuning hne (sortedBy Word.start words)
    obtain rfl := Except.ok.inj ((assignSpeakers_eq hturns hlabels).symm.trans h)
    rw [flatMap_words_mergeShortOrphans, flatMap_words_groupLabelled, List.map_fst_zip (by simp [hlen])]
    exact hsorted

/-- **Attribution neither loses nor invents words.**  The segments' words are the words by start,
each segment is made of its words, and who speaks is one of the turns' speakers. -/
theorem assign_speakers_conserves (L : Letters) (tuning : AttributionKnobs τ)
    (words : List (Word τ)) (turns : List (Turn τ)) :
    ∃ segments, assignSpeakers L tuning words turns = .ok segments ∧
      StablySorted Word.start words (segments.flatMap Segment.words) ∧
      (∀ s ∈ segments, Lined s) ∧ ∀ s ∈ segments, SpeakerOf turns s.speaker := by
  by_cases hwords : words = []
  · subst hwords
    exact ⟨[], rfl, stablySorted_sortedBy _ [], by simp, by simp⟩
  by_cases hturns : turns = []
  · subst hturns
    have heq : assignSpeakers L tuning words [] =
        .ok (groupLabelled tuning false ((sortedBy Word.start words).map fun word => (word, none))) := by
      rw [assignSpeakers, if_neg hwords]
      rfl
    refine ⟨_, heq, assignSpeakers_words heq, lined_groupLabelled _, fun s hs => ?_⟩
    obtain ⟨p, hp, hspeaker⟩ := speaker_groupLabelled _ s hs
    obtain ⟨w, -, rfl⟩ := List.mem_map.mp hp
    exact hspeaker
  · have hperm := (stablySorted_sortedBy Turn.start turns).perm
    have hne : sortedBy Turn.start turns ≠ [] := mt sortedBy_eq_nil.mp hturns
    obtain ⟨labels, hlabels, -, hsub⟩ := speakerLabels_ok L tuning hne (sortedBy Word.start words)
    have heq := assignSpeakers_eq hturns hlabels
    refine ⟨_, heq, assignSpeakers_words heq,
      forall_mergeShortOrphans _ _ _ (fun a b ha hb => ⟨ha.join hb _, ha.join hb _⟩)
        (lined_groupLabelled _), ?_⟩
    -- a joined segment speaks with the voice of one of the two
    refine forall_mergeShortOrphans _ _ _ (fun a b ha hb => ⟨hb, ?_⟩) fun s hs => ?_
    · obtain ⟨turn, hturn, heq⟩ : ∃ turn ∈ turns, a.speaker = some turn.speaker := by
        simpa [SpeakerOf, hturns] using ha
      rw [joinSegments, heq, Option.some_or]
      simpa [SpeakerOf, hturns, heq] using ha
    · obtain ⟨p, hp, hspeaker⟩ := speaker_groupLabelled _ s hs
      obtain ⟨label, hlabel, heq⟩ := List.mem_map.mp (List.of_mem_zip hp).2
      obtain ⟨turn, hturn, rfl⟩ := List.mem_map.mp (hsub hlabel)
      rw [SpeakerOf, if_neg hturns, hspeaker, ← heq]
      exact ⟨turn, hperm.mem_iff.mp hturn, rfl⟩

end Vemsa.Pipeline

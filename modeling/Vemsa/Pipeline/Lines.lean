import Vemsa.Pipeline.Diarize

/-!
# Pipeline — Lines

What `_line_end` cuts off: `IsLine` says of a line and the word after it all that holds of both,
whatever the words are.  Word ends need not be monotone, and a bounded line may be cut behind the
scan, at its last sentence end; the scan keeps what a line is (`Scan`) for every such prefix.

* `isLine_lineLength`: what is cut off any list of words is a line.
* `bounded_lines`: the lines of `segmentsWithoutSpeakers`, in full.
-/

namespace Vemsa.Pipeline
open Vemsa.Support Vemsa.Jobs

variable {τ : Type} [Clock τ]

/-- The word ends a sentence. -/
def Ends (word : Word τ) : Prop := endsSentence word.word = true

instance (word : Word τ) : Decidable (Ends word) := inferInstanceAs (Decidable (_ = true))

section Line

variable (tuning : AttributionKnobs τ) (bounded : Bool)

/-- `q` may follow `p` in the line that begins with `first`. -/
structure Stays (first p q : Labelled τ) : Prop where
  label : q.2 = first.2
  silence : q.1.start - p.1.stop ≤ tuning.hardGapSplitS
  pause : Ends p.1 → q.1.start - p.1.stop ≤ tuning.gapSplitS
  run : bounded → Ends p.1 → p.1.stop - first.1.start < tuning.lineSentenceSplitS

/-- One of the two documented pauses lies between the words. -/
def Paused (p q : Word τ) : Prop :=
  tuning.hardGapSplitS < q.start - p.stop ∨ (Ends p ∧ tuning.gapSplitS < q.start - p.stop)

/-- With `q` the line would exceed a cap. -/
def Exceeds (line : List (Labelled τ)) (first q : Labelled τ) : Prop :=
  tuning.lineMaxWords < line.length + 1 ∨ tuning.lineMaxS < q.1.stop - first.1.start

/-- Why the line that begins with `first` and ends with `last` is cut before `q`. -/
inductive Cut (line : List (Labelled τ)) (first last q : Labelled τ) : Prop where
  | label (h : q.2 ≠ first.2)
  | paused (h : Paused tuning last.1 q.1)
  | sentence (hb : bounded) (h : Ends last.1)
  | cap (hb : bounded) (hline : ∀ p ∈ line, ¬ Ends p.1) (h : Exceeds tuning line first q)

/-- A line that begins with `first`, and what comes after it. -/
structure IsLine (first : Labelled τ) (line : List (Labelled τ)) (next : Option (Labelled τ)) :
    Prop where
  head : line.head? = some first
  inside : line.IsChain (Stays tuning bounded first)
  words : bounded → (line.length : ℤ) ≤ max 1 tuning.lineMaxWords
  seconds : bounded → ∀ p ∈ line.tail, p.1.stop - first.1.start ≤ tuning.lineMaxS
  cut : ∀ q ∈ next, ∀ last ∈ line.getLast?, Cut tuning bounded line first last q

/-- What the scan knows when it comes to the word after `scanned`. -/
structure Scan (first : Labelled τ) (scanned : List (Labelled τ)) (sentenceEnd : Option ℕ) :
    Prop where
  head : scanned.head? = some first
  inside : scanned.IsChain (Stays tuning bounded first)
  words : bounded → (scanned.length : ℤ) ≤ max 1 tuning.lineMaxWords
  seconds : bounded → ∀ p ∈ scanned.tail, p.1.stop - first.1.start ≤ tuning.lineMaxS
  unended : sentenceEnd = none → ∀ p ∈ scanned.dropLast, ¬ Ends p.1
  ended : ∀ k ∈ sentenceEnd, 0 < k ∧ k < scanned.length ∧ ∀ p ∈ (scanned.take k).getLast?, Ends p.1

variable {tuning bounded} {first : Labelled τ} {scanned remaining : List (Labelled τ)}
  {sentenceEnd : Option ℕ}

/-- Every prefix of what was scanned is a line, given the reason to cut there. -/
theorem Scan.isLine (h : Scan tuning bounded first scanned sentenceEnd) {k : ℕ} (hk : 0 < k)
    (hkl : k ≤ scanned.length)
    (hcut : ∀ q ∈ ((scanned ++ remaining).drop k).head?, ∀ last ∈ (scanned.take k).getLast?,
      Cut tuning bounded (scanned.take k) first last q) :
    IsLine tuning bounded first ((scanned ++ remaining).take k)
      ((scanned ++ remaining).drop k).head? := by
  rw [List.take_append_of_le_length hkl]
  refine ⟨?_, h.inside.take k, fun hb => ?_, fun hb p hp => ?_, hcut⟩
  · rw [List.head?_take, if_neg (by omega), h.head]
  · exact le_trans (by simp) (h.words hb)
  · exact h.seconds hb p ((List.take_sublist k scanned).tail.mem hp)

theorem Scan.length_pos (h : Scan tuning bounded first scanned sentenceEnd) :
    0 < scanned.length :=
  List.length_pos_of_ne_nil fun hnil => by simpa [hnil] using h.head

/-- The scan is a line as a whole. -/
theorem Scan.isLine_all (h : Scan tuning bounded first scanned sentenceEnd)
    (hcut : ∀ q ∈ remaining.head?, ∀ last ∈ scanned.getLast?,
      Cut tuning bounded scanned first last q) :
    IsLine tuning bounded first ((scanned ++ remaining).take scanned.length)
      ((scanned ++ remaining).drop scanned.length).head? := by
  refine h.isLine h.length_pos le_rfl ?_
  rwa [List.drop_left, List.take_length]

section Step

variable (h : Scan tuning bounded first scanned sentenceEnd) {p q : Labelled τ}
  (hp : scanned.getLast? = some p)
include h hp

/-- Once the last word scanned is looked at, no sentence end has been missed. -/
theorem Scan.unended_all (hnone : (if Ends p.1 then some scanned.length else sentenceEnd) = none) :
    ∀ r ∈ scanned, ¬ Ends r.1 := by
  split at hnone
  · cases hnone
  · rename_i hends
    obtain ⟨l, rfl⟩ := List.getLast?_eq_some_iff.mp hp
    intro r hr
    rcases List.mem_append.mp hr with hr | hr
    · exact h.unended hnone r (by rwa [List.dropLast_concat])
    · exact List.mem_singleton.mp hr ▸ hends

theorem Scan.ended_le {k : ℕ} (hk : k ∈ if Ends p.1 then some scanned.length else sentenceEnd) :
    0 < k ∧ k ≤ scanned.length ∧ ∀ r ∈ (scanned.take k).getLast?, Ends r.1 := by
  split at hk
  · rename_i hends
    obtain rfl := Option.mem_some_iff.mp hk
    refine ⟨h.length_pos, le_rfl, fun r hr => ?_⟩
    rw [List.take_length, hp, Option.mem_some_iff] at hr
    exact hr ▸ hends
  · obtain ⟨h₁, h₂, h₃⟩ := h.ended k hk
    exact ⟨h₁, h₂.le, h₃⟩

/-- One more word. -/
theorem Scan.snoc (hstays : Stays tuning bounded first p q)
    (hwords : bounded → (scanned.length : ℤ) < tuning.lineMaxWords)
    (hseconds : bounded → q.1.stop - first.1.start ≤ tuning.lineMaxS) :
    Scan tuning bounded first (scanned ++ [q])
      (if Ends p.1 then some scanned.length else sentenceEnd) where
  head := by rw [List.head?_append, h.head, Option.some_or]
  inside := List.isChain_append.mpr ⟨h.inside, List.isChain_singleton q, by
    simpa [hp] using hstays⟩
  words hb := by
    have := hwords hb
    rw [List.length_append, List.length_singleton]
    omega
  seconds hb r hr := by
    rw [List.tail_append_of_ne_nil (fun hnil => by simp [hnil] at hp)] at hr
    rcases List.mem_append.mp hr with hr | hr
    · exact h.seconds hb r hr
    · exact List.mem_singleton.mp hr ▸ hseconds hb
  unended hnone := by
    rw [List.dropLast_concat]
    exact h.unended_all hp hnone
  ended k hk := by
    obtain ⟨h₁, h₂, h₃⟩ := h.ended_le hp hk
    rw [List.length_append, List.length_singleton, List.take_append_of_le_length h₂]
    exact ⟨h₁, Nat.lt_succ_of_le h₂, h₃⟩

/-- At a cap the line goes back to its last sentence end, or is cut where it is. -/
theorem Scan.isLine_cap (hb : bounded) (hcap : tuning.lineMaxWords ≤ scanned.length ∨
    tuning.lineMaxS < q.1.stop - first.1.start) (rest : List (Labelled τ)) :
    let n := (if Ends p.1 then some scanned.length else sentenceEnd).getD scanned.length
    0 < n ∧ IsLine tuning bounded first ((scanned ++ q :: rest).take n)
      ((scanned ++ q :: rest).drop n).head? := by
  cases hk : if Ends p.1 then some scanned.length else sentenceEnd with
  | none =>
      refine ⟨h.length_pos, h.isLine_all fun q' hq' last _ => ?_⟩
      obtain rfl : q = q' := by simpa using hq'
      refine .cap hb (h.unended_all hp hk) (hcap.imp_left fun hw => ?_)
      omega
  | some k =>
      obtain ⟨h₁, h₂, h₃⟩ := h.ended_le hp hk
      exact ⟨h₁, h.isLine h₁ h₂ fun _ _ last hlast => .sentence hb (h₃ last hlast)⟩

end Step

theorem isLine_lineLengthFrom (remaining : List (Labelled τ))
    (h : Scan tuning bounded first scanned sentenceEnd) {p : Labelled τ} (hp : scanned.getLast? = some p) :
    let n := lineLengthFrom tuning bounded first sentenceEnd scanned.length p.1 remaining
    0 < n ∧ IsLine tuning bounded first ((scanned ++ remaining).take n)
      ((scanned ++ remaining).drop n).head? := by
  induction remaining generalizing scanned sentenceEnd p with
  | nil => exact ⟨h.length_pos, h.isLine_all (by simp)⟩
  | cons q rest ih =>
      -- the reason to cut right here
      have here : Cut tuning bounded scanned first p q →
          0 < scanned.length ∧ IsLine tuning bounded first
            ((scanned ++ q :: rest).take scanned.length)
            ((scanned ++ q :: rest).drop scanned.length).head? := fun hcut => by
        refine ⟨h.length_pos, h.isLine_all fun q' hq' last hlast => ?_⟩
        obtain rfl : q = q' := by simpa using hq'
        obtain rfl : p = last := by simpa [hp] using hlast
        exact hcut
      simp only [lineLengthFrom]
      split
      · rename_i hbreak
        exact here (hbreak.elim .label fun hgap => .paused (.inl hgap))
      rename_i hstay
      simp only [not_or, not_not, not_lt] at hstay
      split
      · rename_i hbreak
        obtain ⟨hends, hgap | ⟨hb, -⟩⟩ := hbreak
        · exact here (.paused (.inr ⟨hends, hgap⟩))
        · exact here (.sentence hb hends)
      rename_i hgo
      have hstays : Stays tuning bounded first p q :=
        { label := hstay.1
          silence := hstay.2
          pause := fun hends => not_lt.mp fun hgap => hgo ⟨hends, .inl hgap⟩
          run := fun hb hends => not_le.mp fun hrun => hgo ⟨hends, .inr ⟨hb, hrun⟩⟩ }
      split
      · rename_i hcap
        exact h.isLine_cap hp hcap.1 hcap.2 rest
      · rename_i hcap
        simp only [not_and, not_or, not_le, not_lt] at hcap
        have := ih (h.snoc hp hstays (fun hb => (hcap hb).1) fun hb => (hcap hb).2)
          List.getLast?_concat
        rwa [List.length_append, List.length_singleton, List.append_assoc,
          List.singleton_append] at this

/-- **What is cut off is a line.** -/
theorem isLine_lineLength (first : Labelled τ) (rest : List (Labelled τ)) :
    IsLine tuning bounded first (first :: rest.take (lineLength tuning bounded first rest))
      (rest.drop (lineLength tuning bounded first rest)).head? := by
  have hscan : Scan tuning bounded first [first] none :=
    { head := rfl
      inside := List.isChain_singleton first
      words := fun _ => by simp
      seconds := fun _ => by simp
      unended := fun _ => by simp
      ended := fun _ h => by cases h }
  obtain ⟨hpos, hline⟩ := isLine_lineLengthFrom rest hscan List.getLast?_singleton
  obtain ⟨n, hn⟩ := Nat.exists_eq_add_of_lt hpos
  have hlen : lineLength tuning bounded first rest = n := by
    rw [lineLength]
    simp only [List.length_singleton] at hn
    omega
  rw [hn, Nat.zero_add, List.singleton_append, List.take_succ_cons, List.drop_succ_cons] at hline
  rwa [hlen]

end Line

/-! ### All lines -/

section Lines

variable {tuning : AttributionKnobs τ} {bounded : Bool}

@[simp]
theorem words_lineSegment (line : List (Labelled τ)) :
    (lineSegment line).words = line.map Prod.fst := by
  cases line <;> rfl

@[simp]
theorem speaker_lineSegment (line : List (Labelled τ)) :
    (lineSegment line).speaker = line.head?.bind Prod.snd := by
  cases line <;> rfl

/-- Grouping loses no word. -/
theorem flatMap_words_groupLabelled (words : List (Labelled τ)) :
    (groupLabelled tuning bounded words).flatMap Segment.words = words.map Prod.fst := by
  rw [groupLabelled, List.flatMap_map]
  simp only [words_lineSegment]
  rw [List.flatMap_def, ← List.map_flatten, flatten_pieces]

theorem forall_groupLabelled {P : Segment τ → Prop}
    (h : ∀ first line next, IsLine tuning bounded first line next → P (lineSegment line))
    (words : List (Labelled τ)) : ∀ s ∈ groupLabelled tuning bounded words, P s := by
  refine List.forall_mem_map.mpr (forall_pieces (P := fun p => P (lineSegment p)) ?_ words)
  exact fun first rest => h _ _ _ (isLine_lineLength first rest)

/-- A line's speaker is the label of one of the words. -/
theorem speaker_groupLabelled (words : List (Labelled τ)) :
    ∀ s ∈ groupLabelled tuning bounded words, ∃ p ∈ words, s.speaker = p.2 := by
  refine List.forall_mem_map.mpr fun line hline => ?_
  obtain ⟨first, rest, rfl⟩ := List.exists_cons_of_ne_nil (ne_nil_of_mem_pieces hline)
  refine ⟨first, ?_, rfl⟩
  rw [← @flatten_pieces _ (lineLength tuning bounded) words]
  exact List.mem_flatten_of_mem hline List.mem_cons_self

theorem isChain_groupLabelled {R : Segment τ → Segment τ → Prop} (words : List (Labelled τ))
    (h : ∀ first line q rest, first ∈ words → q ∈ words →
      IsLine tuning bounded first line (some q) → R (lineSegment line) (lineSegment (q :: rest))) :
    (groupLabelled tuning bounded words).IsChain R := by
  refine (List.isChain_map lineSegment).mpr
    (isChain_pieces words fun first rest q r hsuffix hq => ?_)
  have hmem : q ∈ first :: rest :=
    List.mem_cons_of_mem _ (List.mem_of_mem_drop (List.mem_of_mem_head? hq))
  exact h first _ q r (hsuffix.mem List.mem_cons_self) (hsuffix.mem hmem)
    (hq ▸ isLine_lineLength first rest)

end Lines

/-! ### Bounded lines -/

section Bounded

variable (tuning : AttributionKnobs τ)

/-- What a bounded line is within. -/
structure WithinBounds (line : Segment τ) : Prop where
  ne_nil : line.words ≠ []
  words : (line.words.length : ℤ) ≤ tuning.lineMaxWords
  seconds : 2 ≤ line.words.length → ∀ first ∈ line.words.head?, ∀ last ∈ line.words.getLast?,
    last.stop - first.start ≤ tuning.lineMaxS
  silence : line.words.IsChain fun p q => q.start - p.stop ≤ tuning.hardGapSplitS
  sentence : ∀ first ∈ line.words.head?, line.words.IsChain fun p q => Ends p →
    q.start - p.stop ≤ tuning.gapSplitS ∧ p.stop - first.start < tuning.lineSentenceSplitS

/-- A line is cut in mid-sentence, and not at a long silence, only where it has no sentence end to
be cut at and no room for the next word. -/
def CutByNeed (line next : Segment τ) : Prop :=
  ∀ first ∈ line.words.head?, ∀ p ∈ line.words.getLast?, ∀ q ∈ next.words.head?,
    ¬ tuning.hardGapSplitS < q.start - p.stop → ¬ Ends p →
      (∀ w ∈ line.words, ¬ Ends w) ∧
        (tuning.lineMaxWords < line.words.length + 1 ∨ tuning.lineMaxS < q.stop - first.start)

variable {tuning}

theorem IsLine.withinBounds (hcap : 0 < tuning.lineMaxWords) {first : Labelled τ}
    {line : List (Labelled τ)} {next : Option (Labelled τ)}
    (h : IsLine tuning true first line next) : WithinBounds tuning (lineSegment line) := by
  obtain ⟨rest, rfl⟩ : ∃ rest, line = first :: rest := List.head?_eq_some_iff.mp h.head
  have hwords : (lineSegment (first :: rest)).words = first.1 :: rest.map Prod.fst := rfl
  refine ⟨by simp, ?_, fun htwo f hf last hlast => ?_, ?_, fun f hf => ?_⟩
  · have := h.words rfl
    rw [words_lineSegment, List.length_map]
    omega
  · obtain rfl : first.1 = f := by simpa [hwords] using hf
    -- with two words, the last one is not the first
    have hmem : last ∈ rest.map Prod.fst := by
      rw [hwords, List.length_cons] at htwo
      rw [hwords, List.getLast?_cons_of_ne_nil (List.ne_nil_of_length_pos (by omega))] at hlast
      exact List.mem_of_getLast? hlast
    obtain ⟨p, hp, rfl⟩ := List.mem_map.mp hmem
    exact h.seconds rfl p hp
  · rw [words_lineSegment]
    exact (List.isChain_map _).mpr (h.inside.imp fun _ _ hs => hs.silence)
  · obtain rfl : first.1 = f := by simpa [hwords] using hf
    rw [words_lineSegment]
    exact (List.isChain_map _).mpr (h.inside.imp fun _ _ hs hends => ⟨hs.pause hends, hs.run rfl hends⟩)

theorem IsLine.cutByNeed {first q : Labelled τ} {line rest : List (Labelled τ)}
    (h : IsLine tuning true first line (some q)) (hlabel : q.2 = first.2) :
    CutByNeed tuning (lineSegment line) (lineSegment (q :: rest)) := by
  intro f hf p hp q' hq' hsilence hends
  rw [words_lineSegment, List.head?_map, h.head] at hf
  obtain rfl : first.1 = f := by simpa using hf
  obtain rfl : q.1 = q' := by simpa using hq'
  rw [words_lineSegment, List.getLast?_map] at hp
  obtain ⟨last, hlast, rfl⟩ := Option.mem_map.mp hp
  cases h.cut q rfl last hlast with
  | label hne => exact absurd hlabel hne
  | paused hpause => exact absurd hpause (not_or.mpr ⟨hsilence, fun h => hends h.1⟩)
  | sentence _ hend => exact absurd hend hends
  | cap _ hline hex =>
      refine ⟨fun w hw => ?_, by simpa [Exceeds] using hex⟩
      obtain ⟨r, hr, rfl⟩ := List.mem_map.mp (words_lineSegment line ▸ hw)
      exact hline r hr

/-- **Bounded lines.**  Lines without speakers hold the words in order; each is within the caps and
broken inside at nothing it should have been cut at; and each cut has its reason. -/
theorem bounded_lines (hwords : 0 < tuning.lineMaxWords) (words : List (Word τ)) :
    StablySorted Word.start words ((segmentsWithoutSpeakers tuning words).flatMap Segment.words) ∧
      (∀ line ∈ segmentsWithoutSpeakers tuning words, WithinBounds tuning line) ∧
      (segmentsWithoutSpeakers tuning words).IsChain (CutByNeed tuning) := by
  unfold segmentsWithoutSpeakers
  split
  · rename_i hnil
    subst hnil
    exact ⟨stablySorted_sortedBy _ _, by simp, by simp⟩
  · refine ⟨?_, forall_groupLabelled (fun _ _ _ h => h.withinBounds hwords) _,
      isChain_groupLabelled _ fun first line q rest hfirst hq h => h.cutByNeed ?_⟩
    · rw [flatMap_words_groupLabelled, List.map_map]
      simpa [Function.comp_def] using stablySorted_sortedBy Word.start words
    · obtain ⟨_, _, rfl⟩ := List.mem_map.mp hfirst
      obtain ⟨_, _, rfl⟩ := List.mem_map.mp hq
      rfl

/-- Four words of a second each. -/
def fourWords : List (Word ℚ) :=
  [⟨"ett", 0, 1, none⟩, ⟨"två.", 1, 2, none⟩, ⟨"tre", 2, 3, none⟩, ⟨"fyra", 3, 4, none⟩]

theorem bounded_lines_three_words :
    (segmentsWithoutSpeakers { lineMaxWords := 3 } fourWords).map Segment.text =
        ["ett två.", "tre fyra"] ∧
      (segmentsWithoutSpeakers { lineMaxWords := 3 } fourWords).IsChain
        (CutByNeed { lineMaxWords := 3 }) :=
  ⟨by decide +kernel, (bounded_lines (by decide) fourWords).2.2⟩

end Bounded

end Vemsa.Pipeline

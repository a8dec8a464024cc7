import Vemsa.Pipeline.Attribution

/-!
# Pipeline — AlignTask

What `task=align` guarantees.  The words are handed back by count alone, so everything rests on
what the aligner returns.

* `align_transcript_faithful`: if it returns each window's words, in time order and inside the
  padded window, every token gets the word aligned to it.
* `words_in_window_iff`: exactly when the words attached to a segment can be trusted to lie in
  its window.  The total is the only count that is checked; windows whose errors cancel out are
  not noticed (`compensating_counts`).
-/

namespace Vemsa.Pipeline
open Vemsa.Support Vemsa.Jobs

variable {τ : Type} [Seconds τ]

/-! ### The windows of a call -/

section Call

variable (U : Unicode) (segments : List (Segment τ)) (tuning : AttributionTuning τ)
  (decoded : Option τ)

/-- `window_counts` -/
def windowTokens : List ℕ :=
  (alignWindows U segments tuning decoded).map fun window => alignableTokens U window.text

theorem length_alignWindows :
    (alignWindows U segments tuning decoded).length =
      (groupWindows U segments tuning.alignMergeGapS).length := by
  rw [alignWindows, padWindows, length_padFrom, List.length_map]

theorem map_text_alignWindows :
    (alignWindows U segments tuning decoded).map Segment.text =
      (groupWindows U segments tuning.alignMergeGapS).map fun g => (windowFor segments g).text := by
  rw [alignWindows, padWindows, map_text_padFrom, List.map_map]
  rfl

variable {U segments tuning decoded}

theorem windowTokens_eq (hU : U.Lawful) :
    windowTokens U segments tuning decoded =
      (groupWindows U segments tuning.alignMergeGapS).map fun g =>
        (g.map (tokenCount U segments)).sum := by
  have h : windowTokens U segments tuning decoded =
      ((alignWindows U segments tuning decoded).map Segment.text).map (alignableTokens U) := by
    rw [List.map_map]
    rfl
  rw [h, map_text_alignWindows, List.map_map]
  exact List.map_congr_left fun g _ => alignableTokens_windowFor hU g

theorem windowTokens_pos (hU : U.Lawful) {n : ℕ} (hn : n ∈ windowTokens U segments tuning decoded) :
    0 < n := by
  rw [windowTokens_eq hU] at hn
  obtain ⟨g, hg, rfl⟩ := List.mem_map.mp hn
  obtain ⟨i, g', rfl⟩ := List.exists_cons_of_ne_nil (groupWindows_ne_nil _ _ _ g hg)
  have hi := (mem_flatten_groupWindows U segments _ i).mp
    (List.mem_flatten_of_mem hg List.mem_cons_self)
  rw [List.map_cons, List.sum_cons]
  omega

/-- The padded windows come in time order and overlap at most in an instant. -/
theorem pairwise_alignWindows (hv : ValidTimes segments) (hgap : 0 ≤ tuning.alignMergeGapS)
    (hpad : 0 ≤ tuning.alignWindowPadS) :
    (alignWindows U segments tuning decoded).Pairwise fun p q => p.stop ≤ q.start :=
  pairwise_padWindows hpad (validTimes_windows hv) (windows_separated hgap)

/-- Cutting any list of the right length gives blocks that fit. -/
theorem fits_windowTokens (hU : U.Lawful) {words : List (Word τ)}
    (hl : (windowTokens U segments tuning decoded).sum = words.length) :
    Fits U segments (groupWindows U segments tuning.alignMergeGapS)
      ((windowTokens U segments tuning decoded).splitLengths words) := by
  have hlen : ((windowTokens U segments tuning decoded).splitLengths words).length =
      (groupWindows U segments tuning.alignMergeGapS).length := by
    rw [List.length_splitLengths, windowTokens, List.length_map, length_alignWindows]
  refine List.forall₂_iff_get.mpr ⟨hlen.symm, fun k h₁ h₂ => ?_⟩
  rw [List.get_eq_getElem, List.get_eq_getElem,
    List.splitLengths_length_getElem _ _ (le_of_eq hl)]
  rw [List.getElem_of_eq (windowTokens_eq hU), List.getElem_map]

/-- **When attribution succeeds**, and with what: there is text, the aligner answers, and it
returns as many words as the windows have tokens. -/
theorem attributeWords_eq_ok (hU : U.Lawful)
    (aligner : List (Segment τ) → String → Except String (List (Word τ))) (language : String)
    {entries : List (Fin segments.length × List (Word τ))} :
    attributeWords U segments aligner language tuning decoded = .ok entries ↔
      groupWindows U segments tuning.alignMergeGapS ≠ [] ∧
      ∃ words, aligner (alignWindows U segments tuning decoded) language = .ok words ∧
        (windowTokens U segments tuning decoded).sum = words.length ∧
        entries = attributed U segments (groupWindows U segments tuning.alignMergeGapS)
          ((windowTokens U segments tuning decoded).splitLengths
            (words.insertionSort fun a b => a.start ≤ b.start)) := by
  unfold attributeWords
  by_cases hg : groupWindows U segments tuning.alignMergeGapS = []
  · simp [hg]
  · obtain ⟨n, counts, hcounts⟩ : ∃ n counts,
        windowTokens U segments tuning decoded = n :: counts := by
      refine List.exists_cons_of_ne_nil fun h => hg ?_
      have hlen := congrArg List.length h
      rw [windowTokens, List.length_map, length_alignWindows] at hlen
      exact List.length_eq_zero_iff.mp hlen
    simp only [List.isEmpty_iff, hg, if_false, ne_eq, not_false_eq_true, true_and]
    cases haligner : aligner (alignWindows U segments tuning decoded) language with
    | error message => simp
    | ok words =>
        dsimp only
        rw [← windowTokens, List.length_insertionSort]
        by_cases hwords : words = []
        · -- a window has at least one token, so no words are never enough
          have hn : 0 < n := windowTokens_pos hU (hcounts ▸ List.mem_cons_self)
          subst hwords
          simp [hcounts]
          omega
        · rw [if_neg hwords]
          by_cases hl : (windowTokens U segments tuning decoded).sum = words.length
          · rw [if_neg (not_not_intro hl), distributeWindows_of_fits
              (fits_windowTokens hU (by rw [hl, List.length_insertionSort]))]
            simp [hl, eq_comm]
          · simp [hl]

end Call

/-! ### Retiming -/

section Retime

variable {segments : List (Segment τ)} {words : Fin segments.length → List (Word τ)}

omit [Seconds τ] in
@[simp]
theorem retime_words (segment : Segment τ) (ws : List (Word τ)) :
    (retime segment ws).words = ws := by
  cases ws <;> rfl

theorem mem_retimeIndexed {r : Fin segments.length × Segment τ} :
    r ∈ retimeIndexed segments words ↔ r.2 = retime (segments.get r.1) (words r.1) := by
  rw [retimeIndexed, List.mem_insertionSort, List.mem_map]
  constructor
  · rintro ⟨i, -, rfl⟩
    rfl
  · rintro h
    exact ⟨r.1, List.mem_finRange _, by rw [← h]⟩

/-- The places of the retimed segments in the input. -/
def retimedOrder (segments : List (Segment τ)) (words : Fin segments.length → List (Word τ)) :
    List (Fin segments.length) :=
  (retimeIndexed segments words).map Prod.fst

theorem perm_retimedOrder (segments : List (Segment τ))
    (words : Fin segments.length → List (Word τ)) :
    (retimedOrder segments words).Perm (List.finRange segments.length) := by
  refine ((List.perm_insertionSort _ _).map Prod.fst).trans (List.Perm.of_eq ?_)
  rw [List.map_map]
  exact List.map_id _

theorem retimeSegments_eq :
    retimeSegments segments words =
      (retimedOrder segments words).map fun i => retime (segments.get i) (words i) := by
  rw [retimeSegments, retimedOrder, List.map_map]
  exact List.map_congr_left fun r hr => mem_retimeIndexed.mp hr

/-- The retimed segments come by new start, ties by input order. -/
theorem pairwise_retimedOrder :
    (retimedOrder segments words).Pairwise fun i j =>
      (retime (segments.get i) (words i)).start < (retime (segments.get j) (words j)).start ∨
      (retime (segments.get i) (words i)).start = (retime (segments.get j) (words j)).start ∧
        i < j := by
  let key : Fin segments.length × Segment τ → τ ×ₗ ℕ := fun r => toLex (r.2.start, r.1.val)
  have : Std.Total fun a b => key a ≤ key b := ⟨fun _ _ => le_total _ _⟩
  have : IsTrans _ fun a b => key a ≤ key b := ⟨fun _ _ _ => le_trans⟩
  have hsorted : (retimeIndexed segments words).Pairwise fun a b => key a ≤ key b :=
    List.pairwise_insertionSort _ _
  have hne : (retimeIndexed segments words).Pairwise fun a b => a.1 ≠ b.1 := by
    have hnodup := (perm_retimedOrder segments words).nodup_iff.mpr (List.nodup_finRange _)
    rwa [retimedOrder, List.Nodup, List.pairwise_map] at hnodup
  rw [retimedOrder, List.pairwise_map]
  refine (hsorted.and hne).imp_of_mem ?_
  rintro a b ha hb ⟨hle, hne⟩
  rw [← mem_retimeIndexed.mp ha, ← mem_retimeIndexed.mp hb]
  rcases Prod.Lex.le_iff.mp hle with h | ⟨h, h'⟩
  · exact Or.inl h
  · exact Or.inr ⟨h, lt_of_le_of_ne h' hne⟩

theorem le_lastEnd {l : List (Segment τ)} {s : Segment τ} (hs : s ∈ l) : s.stop ≤ lastEnd l := by
  obtain ⟨m, hm⟩ : ∃ m, (l.map Segment.stop).max? = some m := by
    refine Option.isSome_iff_exists.mp ?_
    rw [List.isSome_max?_iff]
    exact List.ne_nil_of_mem (List.mem_map_of_mem hs)
  rw [lastEnd, hm, Option.getD_some]
  exact (List.max?_eq_some_iff.mp hm).2 _ (List.mem_map_of_mem hs)

end Retime

/-! ### Which window a word came from -/

section Attached

variable (U : Unicode) (segments : List (Segment τ)) (tuning : AttributionTuning τ)
  (decoded : Option τ)

/-- Every word attached to a segment starts inside the padded window of that segment. -/
def AttachedInWindow (retimed : List (Fin segments.length × Segment τ)) : Prop :=
  ∀ r ∈ retimed, ∀ w ∈ r.2.words,
    ∃ p ∈ (groupWindows U segments tuning.alignMergeGapS).zip
        (alignWindows U segments tuning decoded),
      r.1 ∈ p.1 ∧ p.2.start ≤ w.start ∧ w.start ≤ p.2.stop

/-- Whatever `align_transcript` returns, its segments hold words of their own windows only. -/
def AttributionSound (aligner : List (Segment τ) → String → Except String (List (Word τ)))
    (language model : String) : Prop :=
  ∀ result, alignTranscript U segments aligner language model tuning decoded = .ok result →
    ∃ wordsBySegment,
      attributeWords U segments aligner language tuning decoded = .ok wordsBySegment ∧
      result.segments = retimeSegments segments (wordsOf segments wordsBySegment) ∧
      AttachedInWindow U segments tuning decoded
        (retimeIndexed segments (wordsOf segments wordsBySegment))

/-- Among all words, as many start before the `k`-th window as the windows before it have tokens,
or fewer; and by its end at least as many have started as it and they have. -/
def CountsMatch (words : List (Word τ)) : Prop :=
  ∀ k (hk : k < (alignWindows U segments tuning decoded).length),
    (words.countP fun w => w.start < ((alignWindows U segments tuning decoded)[k]).start) ≤
        ((windowTokens U segments tuning decoded).take k).sum ∧
      ((windowTokens U segments tuning decoded).take (k + 1)).sum ≤
        words.countP fun w => w.start ≤ ((alignWindows U segments tuning decoded)[k]).stop

variable {U segments tuning decoded}

/-- Attribution is right when every window's block lies inside the window. -/
theorem attachedInWindow_iff {blocks : List (List (Word τ))}
    (hfits : Fits U segments (groupWindows U segments tuning.alignMergeGapS) blocks) :
    AttachedInWindow U segments tuning decoded (retimeIndexed segments (wordsOf segments
        (attributed U segments (groupWindows U segments tuning.alignMergeGapS) blocks))) ↔
      ∀ p ∈ (alignWindows U segments tuning decoded).zip blocks,
        ∀ w ∈ p.2, p.1.start ≤ w.start ∧ w.start ≤ p.1.stop := by
  have hn := nodup_flatten_groupWindows U segments tuning.alignMergeGapS
  have hlen := hfits.length_eq
  have hlen' := length_alignWindows U segments tuning decoded
  generalize hgs : groupWindows U segments tuning.alignMergeGapS = groups at *
  constructor
  · rintro h p hp w hw
    obtain ⟨k, hk, rfl⟩ := List.getElem_of_mem hp
    rw [List.length_zip] at hk
    rw [List.getElem_zip] at hw ⊢
    have hgb : (groups[k], blocks[k]) ∈ groups.zip blocks := getElem_mem_zip _ _
    -- the word went to a member of the group of that window, and to nobody else's
    rw [← flatMap_wordsOf hn hfits hgb] at hw
    obtain ⟨i, hi, hw⟩ := List.mem_flatMap.mp hw
    obtain ⟨q, hq, hiq, hin⟩ := h (i, retime (segments.get i) _) (mem_retimeIndexed.mpr rfl) w
      (by rwa [retime_words])
    obtain ⟨m, hm, rfl⟩ := List.getElem_of_mem hq
    rw [List.length_zip, hgs] at hm
    rw [List.getElem_zip] at hiq hin
    have hkm : m = k := by
      simp only [hgs] at hiq
      by_contra hne
      have hdisj := (List.nodup_flatten.mp hn).2
      rcases Nat.lt_or_gt_of_ne hne with hlt | hlt
      · exact List.pairwise_iff_getElem.mp hdisj m k (by omega) (by omega) hlt hiq hi
      · exact List.pairwise_iff_getElem.mp hdisj k m (by omega) (by omega) hlt hi hiq
    subst hkm
    exact hin
  · rintro h ⟨i, s⟩ hr w hw
    have hs := mem_retimeIndexed.mp hr
    dsimp only at hs hw ⊢
    rw [hs, retime_words] at hw
    have hi : i ∈ groups.flatten := by
      by_contra hi
      rw [wordsOf_attributed_of_not_mem hfits hi] at hw
      simp at hw
    obtain ⟨g, hg, hi⟩ := List.mem_flatten.mp hi
    obtain ⟨k, hk, rfl⟩ := List.getElem_of_mem hg
    have hgb : (groups[k], blocks[k]) ∈ groups.zip blocks := getElem_mem_zip _ _
    have hwb : w ∈ blocks[k] := by
      rw [← flatMap_wordsOf hn hfits hgb]
      exact List.mem_flatMap.mpr ⟨i, hi, hw⟩
    refine ⟨(groups[k], (alignWindows U segments tuning decoded)[k]), ?_, hi,
      h ((alignWindows U segments tuning decoded)[k], blocks[k]) (getElem_mem_zip _ _) w hwb⟩
    rw [hgs]
    exact getElem_mem_zip _ _

/-- The blocks lie inside their windows exactly when the counts match. -/
theorem blocks_in_windows_iff (hU : U.Lawful) {words : List (Word τ)}
    (hl : (windowTokens U segments tuning decoded).sum = words.length) :
    (∀ p ∈ (alignWindows U segments tuning decoded).zip
        ((windowTokens U segments tuning decoded).splitLengths
          (words.insertionSort fun a b => a.start ≤ b.start)),
      ∀ w ∈ p.2, p.1.start ≤ w.start ∧ w.start ≤ p.1.stop) ↔
      CountsMatch U segments tuning decoded words := by
  have hperm := List.perm_insertionSort (fun a b : Word τ => a.start ≤ b.start) words
  have hsorted : (words.insertionSort fun a b => a.start ≤ b.start).Pairwise
      fun a b => a.start ≤ b.start := by
    have : Std.Total fun a b : Word τ => a.start ≤ b.start := ⟨fun _ _ => le_total _ _⟩
    have : IsTrans (Word τ) fun a b => a.start ≤ b.start := ⟨fun _ _ _ => le_trans⟩
    exact List.pairwise_insertionSort _ _
  have hlen : (windowTokens U segments tuning decoded).length =
      (alignWindows U segments tuning decoded).length := List.length_map _
  -- one window at a time: its block is a slice of the sorted words
  have hslice : ∀ k (hk : k < (alignWindows U segments tuning decoded).length)
      (hblock : k < ((windowTokens U segments tuning decoded).splitLengths
        (words.insertionSort fun a b => a.start ≤ b.start)).length),
      (∀ w ∈ ((windowTokens U segments tuning decoded).splitLengths
          (words.insertionSort fun a b => a.start ≤ b.start))[k],
        ((alignWindows U segments tuning decoded)[k]).start ≤ w.start ∧
          w.start ≤ ((alignWindows U segments tuning decoded)[k]).stop) ↔
      (words.countP fun w => w.start < ((alignWindows U segments tuning decoded)[k]).start) ≤
        ((windowTokens U segments tuning decoded).take k).sum ∧
      ((windowTokens U segments tuning decoded).take (k + 1)).sum ≤
        words.countP fun w => w.start ≤ ((alignWindows U segments tuning decoded)[k]).stop := by
    intro k hk hblock
    have hk' : k < (windowTokens U segments tuning decoded).length := by rwa [hlen]
    have hle := sum_take_le (windowTokens U segments tuning decoded) (k + 1)
    rw [List.sum_take_succ _ _ hk', hl] at hle
    rw [getElem_splitLengths _ _ _ hblock hk', block_between_iff hsorted
      (windowTokens_pos hU (List.getElem_mem hk')) (by rwa [List.length_insertionSort]),
      hperm.countP_eq, hperm.countP_eq, List.sum_take_succ _ _ hk']
  constructor
  · rintro h k hk
    have hblock : k < ((windowTokens U segments tuning decoded).splitLengths
        (words.insertionSort fun a b => a.start ≤ b.start)).length := by simpa [hlen] using hk
    exact (hslice k hk hblock).mp (h _ (getElem_mem_zip hk hblock))
  · rintro h p hp
    obtain ⟨k, hk, rfl⟩ := List.getElem_of_mem hp
    rw [List.length_zip] at hk
    rw [List.getElem_zip]
    exact (hslice k (by omega) (by omega)).mpr (h k (by omega))

/-- **When attribution can be trusted.**  `align_transcript` returns no word outside the window
of its segment exactly when, given an answer of the right total length, the counts match at
every window. -/
theorem words_in_window_iff (hU : U.Lawful)
    (aligner : List (Segment τ) → String → Except String (List (Word τ)))
    (language model : String) :
    AttributionSound U segments tuning decoded aligner language model ↔
      ∀ words, aligner (alignWindows U segments tuning decoded) language = .ok words →
        words.length = (windowTokens U segments tuning decoded).sum →
        CountsMatch U segments tuning decoded words := by
  constructor
  · rintro h words hw hl
    by_cases hg : groupWindows U segments tuning.alignMergeGapS = []
    · -- without a window there is nothing to match
      rintro k hk
      rw [length_alignWindows, hg] at hk
      exact absurd hk (Nat.not_lt_zero k)
    · have hok := (attributeWords_eq_ok hU aligner language).mpr
        ⟨hg, words, hw, hl.symm, rfl⟩
      obtain ⟨entries, hentries, -, hin⟩ := h _ (by rw [alignTranscript, hok])
      obtain rfl := Except.ok.inj (hok.symm.trans hentries)
      rw [attachedInWindow_iff (fits_windowTokens hU
        (by rw [List.length_insertionSort, hl]))] at hin
      exact (blocks_in_windows_iff hU hl.symm).mp hin
  · rintro h result hresult
    rw [alignTranscript] at hresult
    split at hresult
    · cases hresult
    · rename_i entries hentries
      obtain rfl := Except.ok.inj hresult
      refine ⟨entries, hentries, rfl, ?_⟩
      obtain ⟨-, words, hw, hl, rfl⟩ := (attributeWords_eq_ok hU aligner language).mp hentries
      rw [attachedInWindow_iff (fits_windowTokens hU (by rw [List.length_insertionSort, hl]))]
      exact (blocks_in_windows_iff hU hl).mpr (h words hw hl.symm)

end Attached

/-! Anna says one word and Bo two, nine seconds later. -/

def twoSpeakers : List (Segment ℚ) :=
  [{ start := 0, stop := 1, speaker := some "Anna", text := "hej" },
    { start := 10, stop := 12, speaker := some "Bo", text := "god dag" }]

/-- One word is aligned in the first window and two in the second. -/
def oneAndTwo : List (List (Word ℚ)) :=
  [[⟨"hej", 1 / 4, 1 / 2, none⟩], [⟨"god", 21 / 2, 11, none⟩, ⟨"dag", 11, 12, none⟩]]

/-- Two words are aligned in the first window and one in the second: three, as expected. -/
def twoAndOne : List (List (Word ℚ)) :=
  [[⟨"hej", 1 / 4, 1 / 2, none⟩, ⟨"god", 3 / 4, 1, none⟩], [⟨"dag", 21 / 2, 11, none⟩]]

theorem words_in_window_one_and_two :
    AttributionSound .latin twoSpeakers ⟨1 / 2, 1 / 2⟩ none (fun _ _ => .ok oneAndTwo.flatten) "sv"
      externalModel := by
  refine (words_in_window_iff Unicode.latin_lawful _ _ _).mpr fun words hw _ => ?_
  obtain rfl := Except.ok.inj hw
  unfold CountsMatch
  decide +kernel

/-- **Compensating counts.**  Bo gets a word spoken in Anna's window. -/
theorem compensating_counts :
    ¬ AttributionSound .latin twoSpeakers ⟨1 / 2, 1 / 2⟩ none (fun _ _ => .ok twoAndOne.flatten) "sv"
      externalModel := by
  have hok : attributeWords .latin twoSpeakers (fun _ _ => .ok twoAndOne.flatten) "sv"
      ⟨1 / 2, 1 / 2⟩ none =
      .ok [(⟨0, by decide⟩, [⟨"hej", 1 / 4, 1 / 2, none⟩]),
        (⟨1, by decide⟩, [⟨"god", 3 / 4, 1, none⟩, ⟨"dag", 21 / 2, 11, none⟩])] := by
    decide +kernel
  intro h
  obtain ⟨entries, hentries, -, hin⟩ := h _ (by rw [alignTranscript, hok])
  obtain rfl := Except.ok.inj (hok.symm.trans hentries)
  refine absurd hin ?_
  unfold AttachedInWindow
  decide +kernel

/-! ### The promise of `task=align` -/

section Faithful

variable {U : Unicode} {segments : List (Segment τ)} {tuning : AttributionTuning τ}
  {decoded : Option τ}

/-- A window's words as the aligner is documented to return them. -/
structure AlignedBlock (U : Unicode) (window : Segment τ) (block : List (Word τ)) : Prop where
  length : block.length = alignableTokens U window.text
  sorted : block.Pairwise fun a b => a.start ≤ b.start
  inside : ∀ w ∈ block, window.start ≤ w.start ∧ w.start ≤ window.stop

/-- Each token of a window stands beside the word aligned to it, and keeps it when the window's
block is handed back: `words` lists every segment's words. -/
structure MatchedByToken (U : Unicode) (segments : List (Segment τ))
    (groups : List (List (Fin segments.length))) (windows : List (Segment τ))
    (blocks : List (List (Word τ))) (words : Fin segments.length → List (Word τ)) : Prop where
  grouped : groups.flatten.Nodup ∧ ∀ i, i ∈ groups.flatten ↔ tokenCount U segments i ≠ 0
  length_words : ∀ i, (words i).length = tokenCount U segments i
  all_used : ∀ p ∈ groups.zip blocks, p.1.flatMap words = p.2
  token_word : ∀ p ∈ groups.zip (windows.zip blocks),
    (alignableTokenList U p.2.1.text.toList).zip p.2.2 =
      p.1.flatMap fun i => (segmentTokens U segments i).zip (words i)

/-- A segment that kept its speaker and text, with the window of its words. -/
structure Realigned (segment : Segment τ) (ws : List (Word τ)) (new : Segment τ) : Prop where
  speaker : new.speaker = segment.speaker
  text : new.text = segment.text
  words : new.words = ws
  kept : ws = [] → new.start = segment.start ∧ new.stop = segment.stop
  tightened : ∀ h : ws ≠ [], new.start = (ws.head h).start ∧ new.stop = (ws.getLast h).stop

omit [Seconds τ] in
theorem realigned_retime (segment : Segment τ) (ws : List (Word τ)) :
    Realigned segment ws (retime segment ws) := by
  cases ws with
  | nil => exact ⟨rfl, rfl, rfl, fun _ => ⟨rfl, rfl⟩, fun h => absurd rfl h⟩
  | cons w ws => exact ⟨rfl, rfl, rfl, fun h => absurd h (by simp), fun _ => ⟨rfl, rfl⟩⟩

/-- Blocks inside windows that follow each other are sorted end to end. -/
theorem pairwise_flatten_blocks {windows : List (Segment τ)} {blocks : List (List (Word τ))}
    (hb : List.Forall₂ (AlignedBlock U) windows blocks)
    (hw : windows.Pairwise fun p q => p.stop ≤ q.start) :
    blocks.flatten.Pairwise fun a b => a.start ≤ b.start := by
  induction hb with
  | nil => exact .nil
  | @cons window block windows blocks h hb ih =>
      obtain ⟨hfirst, hw⟩ := List.pairwise_cons.mp hw
      rw [List.flatten_cons, List.pairwise_append]
      refine ⟨h.sorted, ih hw, fun a ha b hbmem => ?_⟩
      obtain ⟨block', hblock', hb'⟩ := List.mem_flatten.mp hbmem
      obtain ⟨k, hk, rfl⟩ := List.getElem_of_mem hblock'
      have hk' : k < windows.length := by rw [hb.length_eq]; exact hk
      calc a.start ≤ window.stop := (h.inside a ha).2
        _ ≤ (windows[k]).start := hfirst _ (List.getElem_mem hk')
        _ ≤ b.start := (((List.forall₂_iff_get.mp hb).2 k hk' hk).inside b hb').1

theorem blocks_lengths {windows : List (Segment τ)} {blocks : List (List (Word τ))}
    (hb : List.Forall₂ (AlignedBlock U) windows blocks) :
    windows.map (fun window => alignableTokens U window.text) = blocks.map List.length := by
  induction hb with
  | nil => rfl
  | cons h _ ih => rw [List.map_cons, List.map_cons, h.length, ih]

/-- **`task=align`, end to end.**  When the aligner returns every window's words in order and
inside the window, the call succeeds, every token keeps its word, and the caller's segments come
back in time order with speaker and text verbatim. -/
theorem align_transcript_faithful (hU : U.Lawful) (hv : ValidTimes segments)
    (hgap : 0 ≤ tuning.alignMergeGapS) (hpad : 0 ≤ tuning.alignWindowPadS)
    (htext : ∃ i, tokenCount U segments i ≠ 0)
    (aligner : List (Segment τ) → String → Except String (List (Word τ))) (language model : String)
    {blocks : List (List (Word τ))}
    (hblocks : List.Forall₂ (AlignedBlock U) (alignWindows U segments tuning decoded) blocks)
    (haligner : aligner (alignWindows U segments tuning decoded) language = .ok blocks.flatten) :
    ∃ result, alignTranscript U segments aligner language model tuning decoded = .ok result ∧
      ∃ (words : Fin segments.length → List (Word τ)) (new : Fin segments.length → Segment τ)
        (order : List (Fin segments.length)),
        MatchedByToken U segments (groupWindows U segments tuning.alignMergeGapS)
          (alignWindows U segments tuning decoded) blocks words ∧
        (∀ i, Realigned (segments.get i) (words i) (new i)) ∧
        order.Perm (List.finRange segments.length) ∧
        (order.Pairwise fun i j =>
          (new i).start < (new j).start ∨ (new i).start = (new j).start ∧ i < j) ∧
        result.segments = order.map new ∧
        ∀ s ∈ result.segments, s.stop ≤ result.durationSeconds := by
  have hn := nodup_flatten_groupWindows U segments tuning.alignMergeGapS
  have hlengths : windowTokens U segments tuning decoded = blocks.map List.length :=
    blocks_lengths hblocks
  have hl : (windowTokens U segments tuning decoded).sum = blocks.flatten.length := by
    rw [hlengths, List.length_flatten]
  -- the flat answer is sorted already, so cutting it gives the blocks back
  have hcut : (windowTokens U segments tuning decoded).splitLengths
      (blocks.flatten.insertionSort fun a b => a.start ≤ b.start) = blocks := by
    rw [(pairwise_flatten_blocks hblocks (pairwise_alignWindows hv hgap hpad)).insertionSort_eq,
      hlengths, splitLengths_flatten]
  have hfits : Fits U segments (groupWindows U segments tuning.alignMergeGapS) blocks := by
    rw [← hcut]
    exact fits_windowTokens hU (by rw [List.length_insertionSort, hl])
  have hg : groupWindows U segments tuning.alignMergeGapS ≠ [] := by
    obtain ⟨i, hi⟩ := htext
    rintro h
    have := (mem_flatten_groupWindows U segments tuning.alignMergeGapS i).mpr hi
    simp [h] at this
  have hok := (attributeWords_eq_ok hU aligner language).mpr
    ⟨hg, blocks.flatten, haligner, hl, rfl⟩
  rw [hcut] at hok
  refine ⟨_, by rw [alignTranscript, hok], wordsOf segments (attributed U segments _ blocks), _,
    _, ⟨⟨hn, mem_flatten_groupWindows U segments _⟩, fun i => ?_, fun p hp => ?_, fun p hp => ?_⟩,
    fun i => realigned_retime _ _, perm_retimedOrder _ _, pairwise_retimedOrder, retimeSegments_eq,
    fun s hs => le_max_of_le_right (le_lastEnd hs)⟩
  · by_cases hi : i ∈ (groupWindows U segments tuning.alignMergeGapS).flatten
    · obtain ⟨g, hg, hig⟩ := List.mem_flatten.mp hi
      obtain ⟨k, hk, rfl⟩ := List.getElem_of_mem hg
      exact length_wordsOf_of_mem hn hfits
        (getElem_mem_zip hk (by rw [← hfits.length_eq]; exact hk)) hig
    · rw [wordsOf_attributed_of_not_mem hfits hi]
      rw [mem_flatten_groupWindows, not_not] at hi
      rw [hi, List.length_nil]
  · exact flatMap_wordsOf hn hfits hp
  · obtain ⟨k, hk, rfl⟩ := List.getElem_of_mem hp
    rw [List.length_zip, List.length_zip] at hk
    rw [List.getElem_zip, List.getElem_zip]
    have htext := List.getElem_of_eq (map_text_alignWindows U segments tuning decoded)
      (i := k) (by rw [List.length_map]; omega)
    rw [List.getElem_map, List.getElem_map] at htext
    dsimp only
    rw [htext, tokens_windowFor hU]
    exact zip_wordsOf hn hfits (getElem_mem_zip _ _)

end Faithful

theorem align_transcript_one_and_two :
    ∃ result, alignTranscript .latin twoSpeakers (fun _ _ => .ok oneAndTwo.flatten) "sv"
        externalModel ⟨1 / 2, 1 / 2⟩ none = .ok result ∧
      ∀ s ∈ result.segments, s.stop ≤ result.durationSeconds := by
  have hwindows : alignWindows .latin twoSpeakers ⟨1 / 2, 1 / 2⟩ none =
      [{ start := 0, stop := 3 / 2, text := "hej" },
        { start := 19 / 2, stop := 12, text := "god dag" }] := by
    decide +kernel
  have hblocks : List.Forall₂ (AlignedBlock .latin)
      (alignWindows .latin twoSpeakers ⟨1 / 2, 1 / 2⟩ none) oneAndTwo := by
    rw [hwindows]
    exact .cons ⟨by decide +kernel, by decide +kernel, by decide +kernel⟩
      (.cons ⟨by decide +kernel, by decide +kernel, by decide +kernel⟩ .nil)
  obtain ⟨result, hresult, _, _, _, -, -, -, -, -, hend⟩ :=
    align_transcript_faithful Unicode.latin_lawful (by unfold ValidTimes; decide +kernel)
      (by decide +kernel) (by decide +kernel) (by decide +kernel)
      (fun _ _ => .ok oneAndTwo.flatten) "sv" externalModel hblocks rfl
  exact ⟨result, hresult, hend⟩

end Vemsa.Pipeline

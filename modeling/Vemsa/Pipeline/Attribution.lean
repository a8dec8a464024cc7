import Vemsa.Pipeline.Realign

/-!
# Pipeline — Attribution

The three stages of `task=align`, one by one.

* Grouping puts every segment with alignable tokens into one group, in time order, and two groups do
  not overlap (`flatten_groupWindows`, `separated_groupWindows`).
* A window is the hull of its group (`windowFor_start`, `windowFor_stop`), and padding keeps the
  windows disjoint (`pairwise_padWindows`).
* When every window got a block of as many words as it has tokens (`Fits`), handing the words back
  cuts each block at the boundaries of its members: `wordsOf` of a member are its own tokens, word by
  word (`map_wordsOf`, `zip_wordsOf`).
-/

namespace Vemsa.Pipeline
open Vemsa.Support Vemsa.Jobs

variable {τ : Type} [Seconds τ]

/-- `0 <= start <= end` for every segment. -/
def ValidTimes (segments : List (Segment τ)) : Prop :=
  ∀ s ∈ segments, 0 ≤ s.start ∧ s.start ≤ s.stop

section Windows

variable {U : Unicode} {segments : List (Segment τ)} {mergeGapS : τ}

/-! ### Time order -/

theorem perm_timeOrder (segments : List (Segment τ)) :
    (timeOrder segments).Perm (List.finRange segments.length) :=
  List.perm_insertionSort _ _

theorem pairwise_timeOrder (segments : List (Segment τ)) :
    (timeOrder segments).Pairwise fun i j => timeKey segments i ≤ timeKey segments j := by
  have : Std.Total fun i j => timeKey segments i ≤ timeKey segments j := ⟨fun _ _ => le_total _ _⟩
  have : IsTrans _ fun i j => timeKey segments i ≤ timeKey segments j :=
    ⟨fun _ _ _ => le_trans⟩
  exact List.pairwise_insertionSort _ _

/-- The order is by start. -/
theorem timeOrder_start (segments : List (Segment τ)) :
    (timeOrder segments).Pairwise fun i j => (segments.get i).start ≤ (segments.get j).start :=
  (pairwise_timeOrder segments).imp fun h => by
    rcases Prod.Lex.le_iff.mp h with h | h
    · exact le_of_lt h
    · exact le_of_eq h.1

/-! ### Groups -/

theorem flatten_groupFrom (group rest : List (Fin segments.length)) (windowEnd : τ) :
    (groupFrom segments mergeGapS group windowEnd rest).flatten = group ++ rest := by
  induction rest generalizing group windowEnd with
  | nil => simp [groupFrom]
  | cons i rest ih =>
      rw [groupFrom]
      split
      · rw [ih, List.append_assoc, List.singleton_append]
      · rw [List.flatten_cons, ih, List.singleton_append]

theorem groupFrom_ne_nil {group : List (Fin segments.length)} (hg : group ≠ [])
    (rest : List (Fin segments.length)) (windowEnd : τ) :
    ∀ g ∈ groupFrom segments mergeGapS group windowEnd rest, g ≠ [] := by
  induction rest generalizing group windowEnd with
  | nil => simpa [groupFrom] using hg
  | cons i rest ih =>
      rw [groupFrom]
      split
      · exact ih (by simp) _
      · rintro g hmem
        rcases List.mem_cons.mp hmem with rfl | hmem
        · exact hg
        · exact ih (by simp) _ g hmem

/-- The members of one group all end before the members of a later one start. -/
def Separated (segments : List (Segment τ)) (groups : List (List (Fin segments.length))) : Prop :=
  groups.Pairwise fun g g' => ∀ i ∈ g, ∀ j ∈ g', (segments.get i).stop < (segments.get j).start

theorem separated_groupFrom (hgap : 0 ≤ mergeGapS) {group rest : List (Fin segments.length)}
    {windowEnd : τ}
    (hrest : rest.Pairwise fun i j => (segments.get i).start ≤ (segments.get j).start)
    (hend : ∀ i ∈ group, (segments.get i).stop ≤ windowEnd) :
    Separated segments (groupFrom segments mergeGapS group windowEnd rest) := by
  induction rest generalizing group windowEnd with
  | nil => simp [groupFrom, Separated]
  | cons i rest ih =>
      obtain ⟨hi, hrest⟩ := List.pairwise_cons.mp hrest
      rw [groupFrom]
      split
      · refine ih hrest fun j hj => ?_
        rcases List.mem_append.mp hj with hj | hj
        · exact le_trans (hend j hj) (le_max_left _ _)
        · rw [List.mem_singleton.mp hj]
          exact le_max_right _ _
      · rename_i hfar
        -- a segment that starts within the window cannot be further off than the gap
        have hlt : windowEnd < (segments.get i).start := lt_of_not_ge fun hle =>
          hfar (le_trans (Seconds.sub_nonpos_of_le hle) hgap)
        refine List.pairwise_cons.mpr ⟨fun g' hg' j hj k hk => ?_, ih hrest (by simp)⟩
        have hk' : k ∈ i :: rest := by
          have := List.mem_flatten_of_mem hg' hk
          rwa [flatten_groupFrom] at this
        have hstart : (segments.get i).start ≤ (segments.get k).start := by
          rcases List.mem_cons.mp hk' with rfl | hk'
          · exact le_rfl
          · exact hi k hk'
        exact lt_of_le_of_lt (hend j hj) (lt_of_lt_of_le hlt hstart)

variable (U segments mergeGapS)

/-- **Every segment with alignable text is in one group**, in time order. -/
theorem flatten_groupWindows :
    (groupWindows U segments mergeGapS).flatten =
      (timeOrder segments).filter fun i => tokenCount U segments i ≠ 0 := by
  unfold groupWindows
  split
  · rename_i h
    rw [h, List.flatten_nil]
  · rename_i i rest h
    rw [h, flatten_groupFrom, List.singleton_append]

theorem groupWindows_ne_nil : ∀ g ∈ groupWindows U segments mergeGapS, g ≠ [] := by
  unfold groupWindows
  split
  · simp
  · exact groupFrom_ne_nil (by simp) _ _

theorem nodup_flatten_groupWindows : (groupWindows U segments mergeGapS).flatten.Nodup := by
  rw [flatten_groupWindows]
  exact ((perm_timeOrder segments).nodup_iff.mpr (List.nodup_finRange _)).filter _

theorem mem_flatten_groupWindows (i : Fin segments.length) :
    i ∈ (groupWindows U segments mergeGapS).flatten ↔ tokenCount U segments i ≠ 0 := by
  rw [flatten_groupWindows, List.mem_filter, (perm_timeOrder segments).mem_iff]
  simp

variable {U segments mergeGapS}

theorem separated_groupWindows (hgap : 0 ≤ mergeGapS) :
    Separated segments (groupWindows U segments mergeGapS) := by
  have hsorted := (timeOrder_start segments).filter fun i => tokenCount U segments i ≠ 0
  unfold groupWindows
  split
  · exact List.Pairwise.nil
  · rename_i i rest h
    rw [h] at hsorted
    exact separated_groupFrom hgap (List.pairwise_cons.mp hsorted).2 (by simp)

/-! ### The window of a group -/

section Window

variable {group : List (Fin segments.length)} (hg : group ≠ [])
include hg

/-- A window is the hull of its members: it starts with one of them, before all of them. -/
theorem windowFor_start :
    (∃ i ∈ group, (windowFor segments group).start = (segments.get i).start) ∧
      ∀ i ∈ group, (windowFor segments group).start ≤ (segments.get i).start := by
  have hne : ((group.map segments.get).map Segment.start) ≠ [] := by simpa using hg
  obtain ⟨m, hm⟩ : ∃ m, ((group.map segments.get).map Segment.start).min? = some m :=
    Option.isSome_iff_exists.mp (by simpa [List.isSome_min?_iff] using hg)
  have hw : (windowFor segments group).start = m := by simp only [windowFor, hm, Option.getD_some]
  rw [hw]
  obtain ⟨hmem, hle⟩ := List.min?_eq_some_iff.mp hm
  simp only [List.map_map, List.mem_map, Function.comp] at hmem hle
  obtain ⟨i, hi, rfl⟩ := hmem
  exact ⟨⟨i, hi, rfl⟩, fun j hj => hle _ ⟨j, hj, rfl⟩⟩

theorem windowFor_stop :
    (∃ i ∈ group, (windowFor segments group).stop = (segments.get i).stop) ∧
      ∀ i ∈ group, (segments.get i).stop ≤ (windowFor segments group).stop := by
  obtain ⟨m, hm⟩ : ∃ m, ((group.map segments.get).map Segment.stop).max? = some m :=
    Option.isSome_iff_exists.mp (by simpa [List.isSome_max?_iff] using hg)
  have hw : (windowFor segments group).stop = m := by simp only [windowFor, hm, Option.getD_some]
  rw [hw]
  obtain ⟨hmem, hle⟩ := List.max?_eq_some_iff.mp hm
  simp only [List.map_map, List.mem_map, Function.comp] at hmem hle
  obtain ⟨i, hi, rfl⟩ := hmem
  exact ⟨⟨i, hi, rfl⟩, fun j hj => hle _ ⟨j, hj, rfl⟩⟩

/-- The window of valid segments is valid. -/
theorem windowFor_valid (hv : ValidTimes segments) :
    0 ≤ (windowFor segments group).start ∧
      (windowFor segments group).start ≤ (windowFor segments group).stop := by
  obtain ⟨⟨i, hi, hstart⟩, -⟩ := windowFor_start hg
  obtain ⟨h₀, h₁⟩ := hv _ (List.get_mem segments i)
  rw [hstart]
  exact ⟨h₀, le_trans h₁ ((windowFor_stop hg).2 i hi)⟩

end Window

/-- The windows of valid segments are valid. -/
theorem validTimes_windows (hv : ValidTimes segments) :
    ValidTimes ((groupWindows U segments mergeGapS).map (windowFor segments)) := fun w hw => by
  obtain ⟨g, hg, rfl⟩ := List.mem_map.mp hw
  exact windowFor_valid (groupWindows_ne_nil _ _ _ g hg) hv

/-- A window ends before a later one starts. -/
theorem windows_separated (hgap : 0 ≤ mergeGapS) :
    ((groupWindows U segments mergeGapS).map (windowFor segments)).Pairwise fun w w' =>
      w.stop < w'.start := by
  rw [List.pairwise_map]
  refine (separated_groupWindows hgap).imp_of_mem fun {g g'} hg hg' h => ?_
  obtain ⟨⟨i, hi, hstop⟩, -⟩ := windowFor_stop (groupWindows_ne_nil _ _ _ g hg)
  obtain ⟨⟨j, hj, hstart⟩, -⟩ := windowFor_start (groupWindows_ne_nil _ _ _ g' hg')
  rw [hstop, hstart]
  exact h i hi j hj

/-! ### Padding -/

section Padding

variable {padS duration : τ}

theorem padWindow_start_le (hpad : 0 ≤ padS) {window : Segment τ} (hw : 0 ≤ window.start)
    (previous next : Option (Segment τ)) :
    (padWindow padS duration previous window next).start ≤ window.start := by
  have h : max 0 (window.start - padS) ≤ window.start := max_le hw (Seconds.sub_le_self hpad)
  cases previous with
  | none => exact h
  | some previous => exact max_le h (min_le_right _ _)

theorem le_padWindow_stop (previous next : Option (Segment τ)) (window : Segment τ) :
    window.stop ≤ (padWindow padS duration previous window next).stop :=
  le_max_right _ _

/-- Padding stops at the midpoint of the gap to the next window. -/
theorem padWindow_stop_le {window next : Segment τ} (h : window.stop ≤ next.start)
    (previous : Option (Segment τ)) :
    (padWindow padS duration previous window (some next)).stop ≤
      Seconds.half (window.stop + next.start) := by
  have hmid := Seconds.le_midpoint h
  refine max_le (le_trans (min_le_right _ _) ?_) hmid
  exact max_le le_rfl hmid

theorem le_padWindow_start {previous window : Segment τ} (h : previous.stop ≤ window.start)
    (next : Option (Segment τ)) :
    Seconds.half (previous.stop + window.start) ≤
      (padWindow padS duration (some previous) window next).start :=
  le_max_of_le_right (le_min le_rfl (Seconds.midpoint_le h))

theorem map_text_padFrom (padS duration : τ) (previous : Option (Segment τ)) (windows : List (Segment τ)) :
    (padFrom padS duration previous windows).map Segment.text = windows.map Segment.text := by
  induction windows generalizing previous with
  | nil => rfl
  | cons w windows ih => rw [padFrom, List.map_cons, List.map_cons, ih]; rfl

theorem length_padFrom (previous : Option (Segment τ)) (windows : List (Segment τ)) :
    (padFrom padS duration previous windows).length = windows.length := by
  simpa using congrArg List.length (map_text_padFrom padS duration previous windows)

theorem padFrom_valid (hpad : 0 ≤ padS) {windows : List (Segment τ)} (hw : ValidTimes windows)
    (previous : Option (Segment τ)) :
    ∀ p ∈ padFrom padS duration previous windows, p.start ≤ p.stop := by
  induction windows generalizing previous with
  | nil => simp [padFrom]
  | cons w windows ih =>
      obtain ⟨h₀, h₁⟩ := hw w List.mem_cons_self
      rintro p hp
      rcases List.mem_cons.mp hp with rfl | hp
      · exact le_trans (padWindow_start_le hpad h₀ _ _)
          (le_trans h₁ (le_padWindow_stop _ _ _))
      · exact ih (fun s hs => hw s (List.mem_cons_of_mem w hs)) _ p hp

/-- **Padded windows stay disjoint**, up to a shared midpoint. -/
theorem pairwise_padWindows (hpad : 0 ≤ padS) {windows : List (Segment τ)}
    (hw : ValidTimes windows) (hsep : windows.Pairwise fun w w' => w.stop < w'.start) :
    (padWindows windows padS duration).Pairwise fun p q => p.stop ≤ q.start := by
  have hchain : (padWindows windows padS duration).IsChain fun p q => p.stop ≤ q.start := by
    unfold padWindows
    generalize (none : Option (Segment τ)) = previous
    induction windows generalizing previous with
    | nil => exact .nil
    | cons w windows ih =>
        obtain ⟨hsep₁, hsep⟩ := List.pairwise_cons.mp hsep
        have ih := ih (fun s hs => hw s (List.mem_cons_of_mem w hs)) hsep (some w)
        cases windows with
        | nil => exact .singleton _
        | cons w' windows =>
            have hlt := le_of_lt (hsep₁ w' List.mem_cons_self)
            exact .cons_cons (le_trans (padWindow_stop_le hlt _) (le_padWindow_start hlt _)) ih
  -- disjointness of neighbours carries over because no window is reversed
  have hchain' : (padWindows windows padS duration).IsChain
      fun p q => p.stop ≤ q.start ∧ q.start ≤ q.stop :=
    hchain.imp_of_mem_imp fun _ _ _ hq h => ⟨h, padFrom_valid hpad hw none _ hq⟩
  have : IsTrans (Segment τ) fun p q => p.stop ≤ q.start ∧ q.start ≤ q.stop :=
    ⟨fun _ _ _ h h' => ⟨le_trans h.1 (le_trans h.2 h'.1), h'.2⟩⟩
  exact hchain'.pairwise.imp And.left

end Padding

end Windows

/-! ### Tokens -/

section Tokens

variable {U : Unicode} (hU : U.Lawful) {segments : List (Segment τ)}
include hU

theorem splitsAt_alignableTokenList : SplitsAt isSpace (alignableTokenList U) := by
  have h : alignableTokenList U =
      fun l => tokens isSpace ((U.nfkc l).filter fun c => isSpace c || U.isWord c) := by
    funext l
    rw [alignableTokenList, nonWordChar_sub_nil]
  rw [h]
  exact ((splitsAt_tokens isSpace).comp_filter fun c hc => by simp [hc]).comp hU.nfkc_nil
    hU.nfkc_append_space hU.nfkc_space

omit hU in
/-- The alignable tokens of a segment. -/
def segmentTokens (U : Unicode) (segments : List (Segment τ)) (i : Fin segments.length) :
    List Text :=
  alignableTokenList U (segments.get i).text.toList

/-- **The tokens of a window are its members' tokens in a row.** -/
theorem tokens_windowFor (group : List (Fin segments.length)) :
    alignableTokenList U (windowFor segments group).text.toList =
      group.flatMap (segmentTokens U segments) := by
  have hT := splitsAt_alignableTokenList hU
  simp only [windowFor, toList_pyJoin]
  rw [show " ".toList = [' '] from rfl, hT.intersperse (by decide), List.map_map, List.map_map,
    List.flatMap_map]
  refine List.flatMap_congr fun i _ => ?_
  simp only [Function.comp, toList_pyStrip, hT.strip, segmentTokens]

theorem alignableTokens_windowFor (group : List (Fin segments.length)) :
    alignableTokens U (windowFor segments group).text =
      (group.map (tokenCount U segments)).sum := by
  rw [alignableTokens, tokens_windowFor hU, List.length_flatMap]
  rfl

end Tokens

/-! ### Handing the words back -/

section Distribution

variable {τ : Type} {U : Unicode} {segments : List (Segment τ)}

/-- What `distribute_words` leaves in `words_by_segment` when every count is right. -/
def attributed (U : Unicode) (segments : List (Segment τ))
    (groups : List (List (Fin segments.length))) (blocks : List (List (Word τ))) :
    List (Fin segments.length × List (Word τ)) :=
  (groups.zip blocks).flatMap fun p =>
    p.1.zip ((p.1.map (tokenCount U segments)).splitLengths p.2)

/-- Every block is as long as its group has alignable tokens. -/
def Fits (U : Unicode) (segments : List (Segment τ))
    (groups : List (List (Fin segments.length))) (blocks : List (List (Word τ))) : Prop :=
  List.Forall₂ (fun g b => (g.map (tokenCount U segments)).sum = b.length) groups blocks

theorem distributeWords_of_fits {group : List (Fin segments.length)} {block : List (Word τ)}
    (h : (group.map (tokenCount U segments)).sum = block.length) :
    distributeWords U segments group block =
      .ok (group.zip ((group.map (tokenCount U segments)).splitLengths block)) := by
  unfold distributeWords
  split
  · rename_i i
    -- a single member takes all, which is what its count says
    have hi : tokenCount U segments i = block.length := by simpa using h
    simp [hi]
  · dsimp only
    rw [if_neg (by simpa using h)]

theorem distributeWindows_of_fits {groups : List (List (Fin segments.length))}
    {blocks : List (List (Word τ))} (h : Fits U segments groups blocks) :
    distributeWindows U segments groups blocks = .ok (attributed U segments groups blocks) := by
  induction h with
  | nil => rfl
  | cons h _ ih =>
      rw [distributeWindows, distributeWords_of_fits h]
      dsimp only
      rw [ih]
      rfl

section Attributed

variable {groups : List (List (Fin segments.length))} {blocks : List (List (Word τ))}
  (hn : groups.flatten.Nodup) (h : Fits U segments groups blocks)
include h

theorem keys_attributed :
    (attributed U segments groups blocks).map Prod.fst = groups.flatten := by
  induction h with
  | nil => rfl
  | @cons g b groups blocks _ _ ih =>
      have ih := ih
      simp only [attributed, List.zip_cons_cons, List.flatMap_cons, List.map_append,
        List.flatten_cons] at ih ⊢
      rw [ih, List.map_fst_zip (by simp)]

/-- A segment outside every group gets nothing. -/
theorem wordsOf_attributed_of_not_mem {i : Fin segments.length} (hi : i ∉ groups.flatten) :
    wordsOf segments (attributed U segments groups blocks) i = [] := by
  have hnone : (attributed U segments groups blocks).lookup i = none := by
    rw [List.lookup_eq_none_iff]
    intro p hp
    have hp' := List.mem_map_of_mem (f := Prod.fst) hp
    rw [keys_attributed h] at hp'
    simp only [bne_iff_ne, ne_eq]
    rintro rfl
    exact hi hp'
  rw [wordsOf, hnone, Option.getD_none]

include hn

theorem wordsOf_of_mem {p : Fin segments.length × List (Word τ)}
    (hp : p ∈ attributed U segments groups blocks) :
    wordsOf segments (attributed U segments groups blocks) p.1 = p.2 := by
  have hkeys : ((attributed U segments groups blocks).map Prod.fst).Nodup := by
    rwa [keys_attributed h]
  obtain ⟨l₁, l₂, hl⟩ := List.append_of_mem hp
  have hlookup : (attributed U segments groups blocks).lookup p.1 = some p.2 := by
    refine List.lookup_eq_some_iff.mpr ⟨l₁, l₂, hl, fun q hq => ?_⟩
    rw [hl, List.map_append, List.map_cons, List.nodup_append] at hkeys
    simpa using (hkeys.2.2 q.1 (List.mem_map_of_mem hq) p.1 List.mem_cons_self).symm
  rw [wordsOf, hlookup, Option.getD_some]

/-- **A window's block is cut among its members by their token counts.** -/
theorem map_wordsOf {g : List (Fin segments.length)} {b : List (Word τ)}
    (hgb : (g, b) ∈ groups.zip blocks) :
    g.map (wordsOf segments (attributed U segments groups blocks)) =
      (g.map (tokenCount U segments)).splitLengths b := by
  refine List.ext_getElem (by simp) fun k hk₁ hk₂ => ?_
  rw [List.getElem_map]
  refine wordsOf_of_mem hn h (p := (_, _)) (List.mem_flatMap.mpr ⟨(g, b), hgb, ?_⟩)
  have hk : k < (g.zip ((g.map (tokenCount U segments)).splitLengths b)).length := by
    simpa using hk₁
  rw [← List.getElem_zip (h := hk)]
  exact List.getElem_mem hk

theorem length_wordsOf_of_mem {g : List (Fin segments.length)} {b : List (Word τ)}
    (hgb : (g, b) ∈ groups.zip blocks) {i : Fin segments.length} (hi : i ∈ g) :
    (wordsOf segments (attributed U segments groups blocks) i).length =
      tokenCount U segments i := by
  have hsum := (List.forall₂_iff_zip.mp h).2 hgb
  have hmap := congrArg (List.map List.length) (map_wordsOf hn h hgb)
  rw [List.map_splitLengths_length _ _ (le_of_eq hsum), List.map_map] at hmap
  obtain ⟨k, hk, rfl⟩ := List.getElem_of_mem hi
  have hk' := List.getElem_of_eq hmap (i := k) (by simpa using hk)
  rwa [List.getElem_map, List.getElem_map] at hk'

/-- The members' words, in order, are the window's block. -/
theorem flatMap_wordsOf {g : List (Fin segments.length)} {b : List (Word τ)}
    (hgb : (g, b) ∈ groups.zip blocks) :
    g.flatMap (wordsOf segments (attributed U segments groups blocks)) = b := by
  rw [List.flatMap_def, map_wordsOf hn h hgb,
    List.flatten_splitLengths _ _ (le_of_eq ((List.forall₂_iff_zip.mp h).2 hgb).symm)]

/-- **Token by token**: the tokens of a window beside its block are the members' tokens beside
their words. -/
theorem zip_wordsOf {g : List (Fin segments.length)} {b : List (Word τ)}
    (hgb : (g, b) ∈ groups.zip blocks) :
    (g.flatMap (segmentTokens U segments)).zip b =
      g.flatMap fun i => (segmentTokens U segments i).zip
        (wordsOf segments (attributed U segments groups blocks) i) := by
  rw [flatMap_zip_splitLengths (segmentTokens U segments) (tokenCount U segments) g b
    fun _ _ => rfl, ← map_wordsOf hn h hgb, List.zip_map_right, List.flatMap_map]
  have hdiag : ∀ l : List (Fin segments.length), l.zip l = l.map fun i => (i, i) := by
    intro l; induction l with
    | nil => rfl
    | cons i l ih => rw [List.zip_cons_cons, ih, List.map_cons]
  rw [hdiag, List.flatMap_map]
  rfl

end Attributed

end Distribution

end Vemsa.Pipeline

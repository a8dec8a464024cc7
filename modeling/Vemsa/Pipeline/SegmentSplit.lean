import Vemsa.Support.Gluing
import Vemsa.Pipeline.AssignSpeakers
import Vemsa.Pipeline.Label
import Vemsa.Pipeline.Shares

/-!
# Pipeline — SegmentSplit

A segment cut at the turns.  The text is cut at places found from time proportions, and every place
is a blank, so no token is cut (`cutsFrom_cuts`, `tokens_slices`).  The places only ever move on; one
that would not is passed over.

* `splitAtTurns_eq`: the pieces are the slices with text, glued where two in a row have one speaker.
* `segment_split_keeps_text`: so each segment becomes one or more that hold its tokens.
* `split_pieces_tile`: a slice without text leaves its time to nobody, unless it is glued over.
-/

namespace Vemsa.Pipeline
open Vemsa.Support Vemsa.Jobs

/-! ### Neighbours -/

section Neighbours

variable {α : Type*} [LinearOrder α]

/-- Neighbours in an increasing list. -/
theorem mem_zip_tail {l : List α} (hl : l.Pairwise (· < ·)) {p : α × α} (hp : p ∈ l.zip l.tail) :
    p.1 ∈ l ∧ p.2 ∈ l ∧ p.1 < p.2 := by
  induction l with
  | nil => cases hp
  | cons a l ih =>
      cases l with
      | nil => cases hp
      | cons b l =>
          obtain ⟨ha, hl⟩ := List.pairwise_cons.mp hl
          rw [List.tail_cons, List.zip_cons_cons, List.mem_cons] at hp
          rcases hp with rfl | hp
          · exact ⟨by simp, by simp, ha b List.mem_cons_self⟩
          · obtain ⟨hfst, hsnd, hlt⟩ := ih hl hp
            exact ⟨List.mem_cons_of_mem a hfst, List.mem_cons_of_mem a hsnd, hlt⟩

omit [LinearOrder α] in
theorem zip_tail_fst_sublist (l : List α) : ((l.zip l.tail).map Prod.fst).Sublist l := by
  induction l with
  | nil => exact List.Sublist.slnil
  | cons a l ih =>
      cases l with
      | nil => exact List.nil_sublist _
      | cons b l => exact ih.cons_cons a

omit [LinearOrder α] in
theorem map_filterMap_sublist {β γ : Type*} {f : α → Option β} {g : α → γ} {k : β → γ}
    (h : ∀ a b, f a = some b → k b = g a) (l : List α) :
    ((l.filterMap f).map k).Sublist (l.map g) := by
  induction l with
  | nil => exact List.Sublist.slnil
  | cons a l ih =>
      cases hf : f a with
      | none =>
          rw [List.filterMap_cons_none hf]
          exact ih.cons (g a)
      | some b =>
          rw [List.filterMap_cons_some hf, List.map_cons, h a b hf]
          exact ih.cons_cons (g a)

end Neighbours

variable {τ : Type} [Clock τ]

/-! ### Shares -/

section Shares

variable {name : String} {shares : List (String × τ)}

theorem largestShare_mem (h : largestShare shares = .ok name) : name ∈ shares.map Prod.fst := by
  unfold largestShare at h
  split at h
  · cases h
  · rename_i best hbest
    obtain rfl := Except.ok.inj h
    exact List.mem_map_of_mem (List.argmax_mem hbest)

theorem largestShare_ok (hne : shares ≠ []) : ∃ name, largestShare shares = .ok name := by
  unfold largestShare
  split
  · rename_i hnone
    exact absurd (List.argmax_eq_none.mp hnone) hne
  · exact ⟨_, rfl⟩

omit [Clock τ] in
theorem shareOf_eq_ok {entry : String × τ} (h : shareOf shares name = .ok entry) : entry.1 = name := by
  unfold shareOf at h
  split at h
  · cases h
  · rw [← Except.ok.inj h]

omit [Clock τ] in
theorem shareOf_ok (h : name ∈ shares.map Prod.fst) : ∃ entry, shareOf shares name = .ok entry := by
  unfold shareOf
  split
  · rename_i hnone
    obtain ⟨entry, hentry, rfl⟩ := List.mem_map.mp h
    exact absurd (List.lookup_eq_none_iff.mp hnone entry hentry) (by simp)
  · exact ⟨_, rfl⟩

end Shares

/-! ### Spans -/

section Spans

variable {segment : Segment τ} {turns : List (Turn τ)} {shares : List (String × τ)}

/-- The bounds are in the segment. -/
theorem mem_spanBounds (hlt : segment.start < segment.stop) {t : τ}
    (ht : t ∈ spanBounds segment turns) : segment.start ≤ t ∧ t ≤ segment.stop := by
  simp only [spanBounds, Finset.mem_union, Finset.mem_insert, Finset.mem_singleton, List.mem_toFinset,
    List.mem_map, List.mem_filter, decide_eq_true_eq] at ht
  rcases ht with ((rfl | rfl) | ⟨turn, ⟨-, -, hbefore⟩, rfl⟩) | ⟨turn, ⟨-, hafter, -⟩, rfl⟩
  · exact ⟨le_rfl, hlt.le⟩
  · exact ⟨hlt.le, le_rfl⟩
  · exact ⟨le_max_right _ _, max_le hbefore.le hlt.le⟩
  · exact ⟨le_min hafter.le hlt.le, min_le_right _ _⟩

/-- What is to be known of spans: they begin one after the other, within the segment, and their
speakers are the turns'. -/
structure SpansWithin (segment : Segment τ) (turns : List (Turn τ)) (spans : List (Stretch τ)) :
    Prop where
  increasing : (spans.map Stretch.start).Pairwise (· < ·)
  within : ∀ start ∈ spans.map Stretch.start, segment.start ≤ start ∧ start < segment.stop
  heard : ∀ span ∈ spans, ∀ name ∈ span.speaker, name ∈ turns.map Turn.speaker

theorem coveringSpeaker_heard {start stop : τ} {name : String}
    (h : coveringSpeaker turns shares start stop = .ok (some name)) :
    name ∈ turns.map Turn.speaker := by
  unfold coveringSpeaker at h
  extract_lets midpoint at h
  split at h
  · cases h
  · obtain ⟨entries, hentries, h⟩ := except_bind_eq_ok.mp h
    obtain ⟨best, hbest, h⟩ := except_bind_eq_ok.mp h
    obtain rfl : best = name := Option.some.inj (Except.ok.inj h)
    obtain ⟨entry, hentry, rfl⟩ := List.mem_map.mp (largestShare_mem hbest)
    obtain ⟨turn, hturn, heq⟩ := mem_of_mapM_eq_ok hentries hentry
    rw [shareOf_eq_ok heq]
    exact List.mem_map_of_mem (List.mem_filter.mp hturn).1

theorem rawSpans_within (hlt : segment.start < segment.stop) {spans : List (Stretch τ)}
    (h : rawSpans segment turns shares = .ok spans) : SpansWithin segment turns spans := by
  have hsorted : ((spanBounds segment turns).sort (· ≤ ·)).Pairwise (· < ·) :=
    (Finset.sortedLT_sort _).pairwise
  have hread : ∀ (bounds : τ × τ) (span : Stretch τ),
      (do return ⟨bounds.1, bounds.2, ← coveringSpeaker turns shares bounds.1 bounds.2⟩ :
        Except String (Stretch τ)) = .ok span →
      span.start = bounds.1 ∧
        coveringSpeaker turns shares bounds.1 bounds.2 = .ok span.speaker := fun bounds span hspan => by
    obtain ⟨speaker, hspeaker, heq⟩ := except_bind_eq_ok.mp hspan
    obtain rfl := Except.ok.inj heq
    exact ⟨rfl, hspeaker⟩
  have hstarts := map_of_mapM_eq_ok h (g := Prod.fst) (k := Stretch.start)
    fun bounds span hspan => (hread bounds span hspan).1
  refine ⟨?_, fun start hstart => ?_, fun span hspan name hname => ?_⟩
  · rw [hstarts]
    exact hsorted.sublist (zip_tail_fst_sublist _)
  · rw [hstarts] at hstart
    obtain ⟨bounds, hbounds, rfl⟩ := List.mem_map.mp hstart
    obtain ⟨hfst, hsnd, hnext⟩ := mem_zip_tail hsorted hbounds
    rw [Finset.mem_sort] at hfst hsnd
    exact ⟨(mem_spanBounds hlt hfst).1, hnext.trans_le (mem_spanBounds hlt hsnd).2⟩
  · obtain ⟨bounds, -, hbounds⟩ := mem_of_mapM_eq_ok h hspan
    have hcovering := (hread bounds span hbounds).2
    rw [Option.mem_def.mp hname] at hcovering
    exact coveringSpeaker_heard hcovering

theorem firstSpeaker_heard {spans : List (Stretch τ)} (h : SpansWithin segment turns spans)
    {name : String} (hname : firstSpeaker spans = some name) : name ∈ turns.map Turn.speaker := by
  obtain ⟨span, hspan, hspeaker⟩ := List.mem_filterMap.mp (List.mem_of_find?_eq_some hname)
  exact h.heard span hspan name hspeaker

omit [Clock τ] in
theorem map_start_fillSilences (previous : Option String) (spans : List (Stretch τ)) :
    (fillSilences previous spans).map Stretch.start = spans.map Stretch.start := by
  induction spans generalizing previous with
  | nil => rfl
  | cons span rest ih => rw [fillSilences, List.map_cons, ih, List.map_cons]

omit [Clock τ] in
theorem fillSilences_heard {p : String → Prop} {previous : Option String} {spans : List (Stretch τ)}
    (hprevious : ∀ name ∈ previous, p name) (h : ∀ span ∈ spans, ∀ name ∈ span.speaker, p name) :
    ∀ span ∈ fillSilences previous spans, ∀ name ∈ span.speaker, p name := by
  induction spans generalizing previous with
  | nil => exact List.forall_mem_nil _
  | cons span rest ih =>
      obtain ⟨hspan, hrest⟩ := List.forall_mem_cons.mp h
      have hspeaker : ∀ name ∈ span.speaker.or previous, p name := by
        intro name hname
        cases hs : span.speaker with
        | none =>
            rw [hs, Option.none_or] at hname
            exact hprevious name hname
        | some _ =>
            rw [hs, Option.some_or] at hname
            exact hspan name (hs.symm ▸ hname)
      exact List.forall_mem_cons.mpr ⟨hspeaker, ih hspeaker hrest⟩

omit [Clock τ] in
theorem map_start_mergeStretches (spans : List (Stretch τ)) :
    ((mergeStretches spans).map Stretch.start).Sublist (spans.map Stretch.start) := by
  induction spans with
  | nil => exact List.Sublist.slnil
  | cons span rest ih =>
      rw [mergeStretches]
      split
      · exact (List.nil_sublist _).cons_cons span.start
      · rename_i next merged hmerged
        rw [hmerged, List.map_cons] at ih
        split
        · exact (List.sublist_of_cons_sublist ih).cons_cons span.start
        · exact ih.cons_cons span.start

omit [Clock τ] in
theorem mergeStretches_heard {p : String → Prop} {spans : List (Stretch τ)}
    (h : ∀ span ∈ spans, ∀ name ∈ span.speaker, p name) :
    ∀ span ∈ mergeStretches spans, ∀ name ∈ span.speaker, p name := by
  induction spans with
  | nil => exact List.forall_mem_nil _
  | cons span rest ih =>
      obtain ⟨hspan, hrest⟩ := List.forall_mem_cons.mp h
      have hmerged := ih hrest
      rw [mergeStretches]
      split
      · exact List.forall_mem_singleton.mpr hspan
      · rename_i next merged heq
        rw [heq, List.forall_mem_cons] at hmerged
        split
        · exact List.forall_mem_cons.mpr ⟨hspan, hmerged.2⟩
        · exact List.forall_mem_cons.mpr ⟨hspan, List.forall_mem_cons.mpr hmerged⟩

/-- The spans begin one after the other, within the segment, and their speakers are the turns'. -/
theorem speakerSpans_within (hlt : segment.start < segment.stop) {spans : List (Turn τ)}
    (h : speakerSpans segment turns shares = .ok spans) :
    (spans.map Turn.start).Pairwise (· < ·) ∧
      (∀ start ∈ spans.map Turn.start, segment.start ≤ start ∧ start < segment.stop) ∧
      spans.map Turn.speaker ⊆ turns.map Turn.speaker := by
  obtain ⟨raw, hraw, h⟩ := except_bind_eq_ok.mp h
  have hwithin := rawSpans_within hlt hraw
  obtain rfl := Except.ok.inj h
  let filled := fillSilences (firstSpeaker raw) raw
  let named := fun span : Stretch τ => span.speaker.map fun speaker =>
    (⟨span.start, span.stop, speaker⟩ : Turn τ)
  have hnamed : ∀ span turn, named span = some turn →
      turn.start = span.start ∧ span.speaker = some turn.speaker := fun span turn heq => by
    obtain ⟨name, hname, rfl⟩ := Option.map_eq_some_iff.mp heq
    exact ⟨rfl, hname⟩
  have hsub : (((mergeStretches filled).filterMap named).map Turn.start).Sublist
      (raw.map Stretch.start) := by
    rw [← map_start_fillSilences (firstSpeaker raw) raw]
    exact (map_filterMap_sublist (fun span turn heq => (hnamed span turn heq).1) _).trans
      (map_start_mergeStretches filled)
  refine ⟨hwithin.increasing.sublist hsub, fun start hstart => hwithin.within start (hsub.subset hstart),
    fun name hname => ?_⟩
  obtain ⟨turn, hturn, rfl⟩ := List.mem_map.mp hname
  obtain ⟨span, hspan, heq⟩ := List.mem_filterMap.mp hturn
  exact mergeStretches_heard (fillSilences_heard (fun _ => firstSpeaker_heard hwithin) hwithin.heard)
    span hspan turn.speaker (hnamed span turn heq).2

end Spans

/-! ### Cuts -/

section Cuts

/-- There is a blank at `pos`. -/
def BlankAt (text : Text) (pos : ℕ) : Prop := ∃ c, text[pos]? = some c ∧ isSpace c = true

theorem mem_spaceCuts {text : Text} {pos : ℕ} (h : pos ∈ spaceCuts text) : BlankAt text pos := by
  obtain ⟨⟨c, index⟩, hmem, rfl⟩ := List.mem_map.mp h
  obtain ⟨hmem, hspace⟩ := List.mem_filter.mp hmem
  exact ⟨c, List.mk_mem_zipIdx_iff_getElem?.mp hmem, hspace⟩

/-- Behind a punctuation mark that ends a token. -/
theorem mem_punctuationCuts {text : Text} {pos : ℕ} (h : pos ∈ punctuationCuts text) :
    BlankAt text pos := by
  obtain ⟨⟨⟨c, next⟩, index⟩, hmem, rfl⟩ := List.mem_map.mp h
  obtain ⟨hmem, hcut⟩ := List.mem_filter.mp hmem
  have hzip := List.mk_mem_zipIdx_iff_getElem?.mp hmem
  have hnext := (List.getElem?_zip_eq_some.mp hzip).2
  rw [List.getElem?_tail] at hnext
  exact ⟨next, hnext, (of_decide_eq_true hcut).2⟩

theorem snapOffset_blank {text : Text} {offset : ℤ} {window pos : ℕ}
    (h : snapOffset text offset window = some pos) : BlankAt text pos := by
  unfold snapOffset at h
  extract_lets nearestSpace at h
  have hspace : nearestSpace = some pos → BlankAt text pos := fun hnearest =>
    mem_spaceCuts (List.argmin_mem hnearest)
  split at h
  · exact hspace h
  · rename_i nearest hnearest
    split at h
    · cases Option.some.inj h
      exact mem_punctuationCuts (List.argmin_mem hnearest)
    · exact hspace h

/-- The cuts move on from `last`, from blank to blank. -/
def Cuts (text : Text) (last : ℕ) : List (Boundary τ) → Prop
  | [] => True
  | cut :: rest => last < cut.offset ∧ BlankAt text cut.offset ∧ Cuts text cut.offset rest

variable {segment : Segment τ}

/-- **The text is cut at blanks only, left to right.** -/
theorem cutsFrom_cuts (window last : ℕ) (spans : List (Turn τ)) :
    Cuts segment.text.toList last (cutsFrom segment window last spans) := by
  induction spans generalizing last with
  | nil => exact trivial
  | cons span rest ih =>
      rw [cutsFrom]
      split
      · exact ih last
      · rename_i snapped hsnapped
        split
        · rename_i hon
          exact ⟨hon.1, snapOffset_blank hsnapped, ih snapped⟩
        · exact ih last

theorem cutsFrom_times (segment : Segment τ) (window last : ℕ) (spans : List (Turn τ)) :
    ((cutsFrom segment window last spans).map Boundary.time).Sublist (spans.map Turn.start) := by
  induction spans generalizing last with
  | nil => exact List.Sublist.slnil
  | cons span rest ih =>
      rw [cutsFrom]
      split
      · exact (ih last).cons span.start
      · rename_i snapped hsnapped
        split
        · exact (ih snapped).cons_cons span.start
        · exact (ih last).cons span.start

/-- `text[offset_start:offset_end]` -/
def slice (text : Text) (first last : Boundary τ) : Text := (text.take last.offset).drop first.offset

/-- A blank keeps the tokens before it from those after it. -/
theorem tokens_split {text : Text} {pos : ℕ} (h : BlankAt text pos) :
    tokens isSpace text = tokens isSpace (text.take pos) ++ tokens isSpace (text.drop pos) := by
  obtain ⟨c, hc, hspace⟩ := h
  obtain ⟨hlt, hget⟩ := List.getElem?_eq_some_iff.mp hc
  have hdrop : text.drop pos = c :: text.drop (pos + 1) := by
    rw [List.drop_eq_getElem_cons hlt, hget]
  conv_lhs => rw [← List.take_append_drop pos text]
  rw [hdrop, tokens_append_sep hspace, (splitsAt_tokens isSpace).cons_sep hspace]

omit [Clock τ] in
/-- **No token is cut.**  The slices hold the tokens of the text. -/
theorem tokens_slices {text : Text} (first : Boundary τ) {final : Boundary τ} {cuts : List (Boundary τ)}
    (h : Cuts text first.offset cuts) (hfinal : final.offset = text.length) :
    let boundaries := first :: cuts ++ [final]
    (boundaries.zip boundaries.tail).flatMap (fun p => tokens isSpace (slice text p.1 p.2)) =
      tokens isSpace (text.drop first.offset) := by
  induction cuts generalizing first with
  | nil => simp [slice, hfinal]
  | cons cut rest ih =>
      obtain ⟨hon, hblank, hrest⟩ := h
      have hih := ih cut hrest
      dsimp only at hih ⊢
      rw [List.cons_append, List.tail_cons] at hih ⊢
      rw [List.cons_append, List.zip_cons_cons, List.flatMap_cons, hih, slice, List.drop_take]
      have hblank' : BlankAt (text.drop first.offset) (cut.offset - first.offset) := by
        obtain ⟨c, hc, hspace⟩ := hblank
        refine ⟨c, ?_, hspace⟩
        rw [List.getElem?_drop, Nat.add_sub_cancel' hon.le]
        exact hc
      rw [tokens_split hblank', List.drop_drop, Nat.add_sub_cancel' hon.le]

end Cuts

/-! ### Pieces -/

section Pieces

/-- `pieces[-1]` takes in the piece behind it. -/
def splitGluing : Gluing (Segment τ) (Option String) τ where
  label := Segment.speaker
  start := Segment.start
  stop := Segment.stop
  join previous piece := { previous with stop := piece.stop, text := previous.text ++ " " ++ piece.text }
  label_join _ _ := rfl
  start_join _ _ := rfl
  stop_join _ _ := rfl

variable {segment : Segment τ} {spans : List (Turn τ)}

variable (segment spans) in
/-- The slice between two boundaries as a piece; a blank one is none. -/
def pieceOf (first last : Boundary τ) : Except String (Option (Segment τ)) := do
  let text := pyStrip (.ofList (slice segment.text.toList first last))
  if text.isEmpty then return none
  let speaker ← dominantSpeaker spans first.time last.time
  return some { start := first.time, stop := last.time, speaker := some speaker, text }

/-- Adding a piece is gluing it on. -/
theorem addPiece_eq (pieces : List (Segment τ)) (first last : Boundary τ) :
    addPiece segment spans pieces first last =
      (pieceOf segment spans first last).map (splitGluing.glueOnto pieces) := by
  unfold addPiece pieceOf slice
  extract_lets text
  split
  · rfl
  · cases dominantSpeaker spans first.time last.time with
    | error message => rfl
    | ok speaker =>
        simp only [except_ok_bind, Gluing.glueOnto, Except.map, pure, Except.pure]
        cases pieces.getLast? with
        | none => rfl
        | some previous =>
            dsimp only
            split
            · rename_i heq
              exact congrArg Except.ok (if_pos heq).symm
            · rename_i hne
              exact congrArg Except.ok (if_neg hne).symm

theorem foldlM_addPiece (pairs : List (Boundary τ × Boundary τ)) (pieces : List (Segment τ)) :
    pairs.foldlM (fun pieces (first, last) => addPiece segment spans pieces first last) pieces =
      (pairs.mapM fun pair => pieceOf segment spans pair.1 pair.2).map
        (List.foldl splitGluing.glueOnto pieces) := by
  induction pairs generalizing pieces with
  | nil => rfl
  | cons pair rest ih =>
      obtain ⟨first, last⟩ := pair
      rw [List.foldlM_cons, List.mapM_cons]
      dsimp only
      rw [addPiece_eq]
      cases pieceOf segment spans first last with
      | error message => rfl
      | ok item =>
          rw [Except.map, except_ok_bind, except_ok_bind, ih]
          cases rest.mapM fun pair => pieceOf segment spans pair.1 pair.2 with
          | error message => rfl
          | ok items => rfl

/-- **What a cut yields**: the slices with text, glued. -/
theorem splitAtTurns_eq_ok {turns : List (Turn τ)} {shares : List (String × τ)} {window : ℕ}
    {pieces : List (Segment τ)} (h : splitAtTurns segment turns shares window = .ok pieces)
    (hne : pieces ≠ []) :
    ∃ spans items, speakerSpans segment turns shares = .ok spans ∧
      ((textBoundaries segment spans window).zip (textBoundaries segment spans window).tail).mapM
        (fun pair => pieceOf segment spans pair.1 pair.2) = .ok items ∧
      pieces = splitGluing.glue items ∧ 1 < pieces.length := by
  obtain ⟨spans, hspans, h⟩ := except_bind_eq_ok.mp h
  split at h
  · exact absurd (Except.ok.inj h).symm hne
  · obtain ⟨all, hall, h⟩ := except_bind_eq_ok.mp h
    rw [foldlM_addPiece] at hall
    cases hitems : ((textBoundaries segment spans window).zip
        (textBoundaries segment spans window).tail).mapM
          (fun pair => pieceOf segment spans pair.1 pair.2) with
    | error message => rw [hitems] at hall; cases hall
    | ok items =>
        rw [hitems] at hall
        obtain rfl := Except.ok.inj hall
        rw [Gluing.foldl_glueOnto] at h
        split at h
        · rename_i hmany
          obtain rfl := Except.ok.inj h
          exact ⟨spans, items, hspans, hitems, rfl, hmany⟩
        · exact absurd (Except.ok.inj h).symm hne

theorem pieceOf_tokens {first last : Boundary τ} {item : Option (Segment τ)}
    (h : pieceOf segment spans first last = .ok item) :
    item.toList.flatMap (fun piece => tokens isSpace piece.text.toList) =
      tokens isSpace (slice segment.text.toList first last) := by
  unfold pieceOf at h
  extract_lets text at h
  have htext : text.toList = strip isSpace (slice segment.text.toList first last) := by
    rw [toList_pyStrip, String.toList_ofList]
  rw [← (splitsAt_tokens isSpace).strip, ← htext]
  split at h
  · rename_i hempty
    obtain rfl := Except.ok.inj h
    rw [String.isEmpty_iff.mp hempty]
    rfl
  · obtain ⟨speaker, -, h⟩ := except_bind_eq_ok.mp h
    obtain rfl := Except.ok.inj h
    simp

theorem pieceOf_some {first last : Boundary τ} {piece : Segment τ}
    (h : pieceOf segment spans first last = .ok (some piece)) :
    piece.start = first.time ∧ piece.stop = last.time ∧
      ∃ speaker, dominantSpeaker spans first.time last.time = .ok speaker ∧
        piece.speaker = some speaker := by
  unfold pieceOf at h
  extract_lets text at h
  split at h
  · cases h
  · obtain ⟨speaker, hspeaker, h⟩ := except_bind_eq_ok.mp h
    obtain rfl := Option.some.inj (Except.ok.inj h)
    exact ⟨rfl, rfl, speaker, hspeaker, rfl⟩

theorem names_totals (start stop : τ) (totals : List (String × τ)) {name : String} :
    name ∈ (spans.foldl (fun totals span => tally span.speaker (overlap start stop span) totals)
        totals).map Prod.fst ↔
      name ∈ spans.map Turn.speaker ∨ name ∈ totals.map Prod.fst := by
  induction spans generalizing totals with
  | nil => simp
  | cons span rest ih =>
      rw [List.foldl_cons, ih, names_tally, List.map_cons, List.mem_cons]
      tauto

theorem dominantSpeaker_mem {start stop : τ} {name : String}
    (h : dominantSpeaker spans start stop = .ok name) : name ∈ spans.map Turn.speaker := by
  have hmem := largestShare_mem h
  rw [names_totals] at hmem
  simpa using hmem

theorem dominantSpeaker_ok (hne : spans ≠ []) (start stop : τ) :
    ∃ name, dominantSpeaker spans start stop = .ok name := by
  refine largestShare_ok fun hnil => ?_
  obtain ⟨span, hspan⟩ := List.exists_mem_of_ne_nil spans hne
  have hmem := (names_totals start stop []).mpr (.inl (List.mem_map_of_mem (f := Turn.speaker) hspan))
  rw [hnil] at hmem
  cases hmem

end Pieces

/-! ### Tokens and speakers -/

/-- What becomes of a segment: pieces that hold its tokens, in order; two in a row have different
speakers, and each speaker has a turn. -/
structure SplitOf (turns : List (Turn τ)) (segment : Segment τ) (part : List (Segment τ)) : Prop where
  nonempty : part ≠ []
  tokens : (part.flatMap fun piece => tokens isSpace piece.text.toList) =
    tokens isSpace segment.text.toList
  changes : part.IsChain fun a b => a.speaker ≠ b.speaker
  heard : turns ≠ [] → ∀ piece ∈ part, ∃ turn ∈ turns, piece.speaker = some turn.speaker

section Tokens

variable {segment : Segment τ} {turns : List (Turn τ)} {shares : List (String × τ)}

omit [Clock τ] in
/-- Where two pieces are glued there is a blank between their texts. -/
theorem tokens_join (a b : Segment τ) :
    tokens isSpace (splitGluing.join a b).text.toList =
      tokens isSpace a.text.toList ++ tokens isSpace b.text.toList := by
  have htext : (splitGluing.join a b).text.toList = a.text.toList ++ ' ' :: b.text.toList := by
    simp [splitGluing]
  rw [htext, tokens_append_sep (by decide)]

theorem splitAtTurns_tokens {window : ℕ} {pieces : List (Segment τ)}
    (h : splitAtTurns segment turns shares window = .ok pieces) (hne : pieces ≠ []) :
    (pieces.flatMap fun piece => tokens isSpace piece.text.toList) =
      tokens isSpace segment.text.toList := by
  obtain ⟨spans, items, -, hitems, rfl, -⟩ := splitAtTurns_eq_ok h hne
  have hslices := map_of_mapM_eq_ok hitems fun pair _ hitem => pieceOf_tokens hitem
  calc (splitGluing.glue items).flatMap (fun piece => tokens isSpace piece.text.toList)
      = items.reduceOption.flatMap fun piece => tokens isSpace piece.text.toList :=
        Gluing.flatMap_glue tokens_join
    _ = (items.map fun item => item.toList.flatMap fun piece =>
          tokens isSpace piece.text.toList).flatten := by
        rw [List.reduceOption, List.filterMap_eq_flatMap_toList, List.flatMap_assoc, List.flatMap_def]
        rfl
    _ = tokens isSpace (segment.text.toList.drop 0) := by
        rw [hslices, ← List.flatMap_def]
        exact tokens_slices ⟨segment.start, 0⟩ (cutsFrom_cuts window 0 spans.tail) rfl

theorem splitAtTurns_heard (hlt : segment.start < segment.stop) {window : ℕ}
    {pieces : List (Segment τ)} (h : splitAtTurns segment turns shares window = .ok pieces)
    (hne : pieces ≠ []) : ∀ piece ∈ pieces, ∃ turn ∈ turns, piece.speaker = some turn.speaker := by
  obtain ⟨spans, items, hspans, hitems, rfl, -⟩ := splitAtTurns_eq_ok h hne
  refine Gluing.forall_glue (fun a b ha _ => ha) fun piece hpiece => ?_
  obtain ⟨pair, -, hpair⟩ := mem_of_mapM_eq_ok hitems (List.reduceOption_mem_iff.mp hpiece)
  obtain ⟨-, -, speaker, hspeaker, heq⟩ := pieceOf_some hpair
  obtain ⟨turn, hturn, rfl⟩ := List.mem_map.mp
    ((speakerSpans_within hlt hspans).2.2 (dominantSpeaker_mem hspeaker))
  exact ⟨turn, hturn, heq⟩

theorem splitAtTurns_splitOf (hlt : segment.start < segment.stop) {window : ℕ}
    {pieces : List (Segment τ)} (h : splitAtTurns segment turns shares window = .ok pieces)
    (hne : pieces ≠ []) : SplitOf turns segment pieces where
  nonempty := hne
  tokens := splitAtTurns_tokens h hne
  changes := by
    obtain ⟨spans, items, -, -, rfl, -⟩ := splitAtTurns_eq_ok h hne
    exact Gluing.isChain_glue (G := splitGluing)
  heard _ := splitAtTurns_heard hlt h hne

/-- Who overlaps is somewhere in between. -/
theorem lt_of_overlap_pos {start stop : τ} {turn : Turn τ} (h : 0 < overlap start stop turn) :
    start < stop := by
  by_contra hle
  have hmin : min stop turn.stop - max start turn.start ≤ 0 := Seconds.sub_nonpos_of_le
    ((min_le_left _ _).trans ((not_lt.mp hle).trans (le_max_left _ _)))
  exact h.ne' (max_eq_left hmin)

theorem mem_speakerShares {name : String} :
    name ∈ (speakerShares segment turns).map Prod.fst ↔
      ∃ turn ∈ turns, 0 < overlap segment.start segment.stop turn ∧ turn.speaker = name := by
  rw [speakerShares, names_addOverlaps]
  simp

/-- A segment of which someone has a share takes time. -/
theorem lt_of_speakerShares (h : speakerShares segment turns ≠ []) : segment.start < segment.stop := by
  obtain ⟨entry, hentry⟩ := List.exists_mem_of_ne_nil _ h
  obtain ⟨turn, -, hpos, -⟩ := mem_speakerShares.mp (List.mem_map_of_mem (f := Prod.fst) hentry)
  exact lt_of_overlap_pos hpos

variable {knobs : SplitKnobs τ}

/-- The segment is cut only where someone has a share of it. -/
theorem piecesOf_eq_ok {pieces : List (Segment τ)} (h : piecesOf knobs turns segment = .ok pieces)
    (hne : pieces ≠ []) : segment.start < segment.stop ∧
      splitAtTurns segment turns (speakerShares segment turns) knobs.punctuationSnapChars =
        .ok pieces := by
  unfold piecesOf at h
  extract_lets shares at h
  split at h
  · exact absurd (Except.ok.inj h).symm hne
  · rename_i majority hmajority
    have hshares : shares ≠ [] := fun hnil => by simp [hnil] at hmajority
    split at h
    · exact ⟨lt_of_speakerShares hshares, h⟩
    · exact absurd (Except.ok.inj h).symm hne

theorem wholeSpeaker_heard {previous : Option String}
    (hprevious : ∀ name ∈ previous, ∃ turn ∈ turns, name = turn.speaker) {name : String}
    (h : wholeSpeaker turns previous segment = .ok name) : ∃ turn ∈ turns, name = turn.speaker := by
  unfold wholeSpeaker at h
  extract_lets shares at h
  split at h
  · obtain ⟨fallback, hfallback, h⟩ := except_bind_eq_ok.mp h
    obtain rfl := Except.ok.inj h
    cases previous with
    | some before => exact hprevious before rfl
    | none =>
        have hne : turns ≠ [] := by
          rintro rfl
          cases hfallback
        obtain ⟨turn, hturn, hnearest⟩ := nearestTurn_ok hne segment.start segment.stop
        rw [Except.ok.inj (hfallback.symm.trans hnearest)]
        exact ⟨turn, hturn, rfl⟩
  · obtain ⟨turn, hturn, -, heq⟩ := mem_speakerShares.mp (largestShare_mem h)
    exact ⟨turn, hturn, heq.symm⟩

theorem assignSegment_splitOf {previous : Option String}
    (hprevious : ∀ name ∈ previous, ∃ turn ∈ turns, name = turn.speaker) {part : List (Segment τ)}
    (h : assignSegment knobs turns previous segment = .ok part) : SplitOf turns segment part := by
  obtain ⟨pieces, hpieces, h⟩ := except_bind_eq_ok.mp h
  split at h
  · rename_i hmany
    obtain rfl := Except.ok.inj h
    have hne : pieces ≠ [] := List.ne_nil_of_length_pos (Nat.zero_lt_of_lt hmany)
    obtain ⟨hlt, hsplit⟩ := piecesOf_eq_ok hpieces hne
    exact splitAtTurns_splitOf hlt hsplit hne
  · obtain ⟨speaker, hspeaker, h⟩ := except_bind_eq_ok.mp h
    obtain rfl := Except.ok.inj h
    obtain ⟨turn, hturn, rfl⟩ := wholeSpeaker_heard hprevious hspeaker
    exact {
      nonempty := List.cons_ne_nil _ _
      tokens := List.flatMap_singleton _ _
      changes := List.isChain_singleton _
      heard := fun _ => List.forall_mem_singleton.mpr ⟨turn, hturn, rfl⟩ }

theorem assignFrom_splitOf {previous : Option String} (hturns : turns ≠ [])
    (hprevious : ∀ name ∈ previous, ∃ turn ∈ turns, name = turn.speaker)
    {segments : List (Segment τ)} {parts : List (List (Segment τ))}
    (h : assignFrom knobs turns previous segments = .ok parts) :
    List.Forall₂ (SplitOf turns) segments parts := by
  induction segments generalizing previous parts with
  | nil =>
      obtain rfl := Except.ok.inj h
      exact .nil
  | cons segment rest ih =>
      obtain ⟨part, hpart, h⟩ := except_bind_eq_ok.mp h
      obtain ⟨others, hothers, h⟩ := except_bind_eq_ok.mp h
      obtain rfl := Except.ok.inj h
      have hsplit := assignSegment_splitOf hprevious hpart
      refine .cons hsplit (ih (fun name hname => ?_) hothers)
      obtain ⟨piece, hpiece, hspeaker⟩ := Option.bind_eq_some_iff.mp hname
      obtain ⟨turn, hturn, heq⟩ := hsplit.heard hturns piece (List.mem_of_getLast? hpiece)
      exact ⟨turn, hturn, Option.some.inj (hspeaker.symm.trans heq)⟩

end Tokens

/-! ### Runs that return -/

section Return

variable {τ : Type} [SteadyClock τ] {segment : Segment τ} {turns : List (Turn τ)}

/-- Whoever speaks around a time of the segment has a share of it. -/
theorem overlap_pos {start stop midpoint : τ} {turn : Turn τ} (hlt : start < stop)
    (hstart : start ≤ midpoint) (hstop : midpoint ≤ stop) (hbefore : turn.start < midpoint)
    (hafter : midpoint < turn.stop) : 0 < overlap start stop turn := by
  have hmax : max start turn.start < min stop turn.stop :=
    max_lt (lt_min hlt (hstart.trans_lt hafter)) (lt_min (hbefore.trans_le hstop) (hbefore.trans hafter))
  exact lt_max_of_lt_right (SteadyClock.sub_pos_of_lt hmax)

/-- Every speaker that is looked up is found. -/
theorem coveringSpeaker_ok (turns : List (Turn τ)) (hlt : segment.start < segment.stop) {start stop : τ} (hle : start ≤ stop)
    (hstart : segment.start ≤ start) (hstop : stop ≤ segment.stop) :
    ∃ speaker, coveringSpeaker turns (speakerShares segment turns) start stop = .ok speaker := by
  unfold coveringSpeaker
  extract_lets midpoint
  split
  · exact ⟨none, rfl⟩
  · rename_i covering hcovering
    have hmid : segment.start ≤ midpoint ∧ midpoint ≤ segment.stop :=
      ⟨hstart.trans (Seconds.le_midpoint hle), (Seconds.midpoint_le hle).trans hstop⟩
    obtain ⟨entries, hentries⟩ := mapM_ok (f := fun turn : Turn τ =>
        shareOf (speakerShares segment turns) turn.speaker)
      (l := turns.filter fun turn => turn.start < midpoint ∧ midpoint < turn.stop) fun turn hturn => by
        obtain ⟨hturn, hcovers⟩ := List.mem_filter.mp hturn
        obtain ⟨hbefore, hafter⟩ := of_decide_eq_true hcovers
        exact shareOf_ok (mem_speakerShares.mpr
          ⟨turn, hturn, overlap_pos hlt hmid.1 hmid.2 hbefore hafter, rfl⟩)
    have hne : entries ≠ [] := by
      rintro rfl
      exact hcovering (List.forall₂_nil_right_iff.mp (mapM_eq_ok.mp hentries))
    obtain ⟨best, hbest⟩ := largestShare_ok hne
    refine ⟨some best, except_bind_eq_ok.mpr ⟨entries, hentries, ?_⟩⟩
    exact except_bind_eq_ok.mpr ⟨best, hbest, rfl⟩

theorem speakerSpans_ok (turns : List (Turn τ)) (hlt : segment.start < segment.stop) :
    ∃ spans, speakerSpans segment turns (speakerShares segment turns) = .ok spans := by
  have hsorted : ((spanBounds segment turns).sort (· ≤ ·)).Pairwise (· < ·) :=
    (Finset.sortedLT_sort _).pairwise
  obtain ⟨raw, hraw⟩ : ∃ raw, rawSpans segment turns (speakerShares segment turns) = .ok raw := by
    refine mapM_ok fun bounds hbounds => ?_
    obtain ⟨hfst, hsnd, hnext⟩ := mem_zip_tail hsorted hbounds
    rw [Finset.mem_sort] at hfst hsnd
    obtain ⟨speaker, hspeaker⟩ := coveringSpeaker_ok turns hlt hnext.le
      (mem_spanBounds hlt hfst).1 (mem_spanBounds hlt hsnd).2
    exact ⟨_, except_bind_eq_ok.mpr ⟨speaker, hspeaker, rfl⟩⟩
  exact ⟨_, except_bind_eq_ok.mpr ⟨raw, hraw, rfl⟩⟩

theorem pieceOf_ok {spans : List (Turn τ)} (hne : spans ≠ []) (first last : Boundary τ) :
    ∃ item, pieceOf segment spans first last = .ok item := by
  unfold pieceOf
  extract_lets text
  split
  · exact ⟨none, rfl⟩
  · obtain ⟨name, hname⟩ := dominantSpeaker_ok hne first.time last.time
    exact ⟨_, except_bind_eq_ok.mpr ⟨name, hname, rfl⟩⟩

theorem splitAtTurns_ok (hlt : segment.start < segment.stop) (window : ℕ) :
    ∃ pieces, splitAtTurns segment turns (speakerShares segment turns) window = .ok pieces := by
  obtain ⟨spans, hspans⟩ := speakerSpans_ok turns hlt
  unfold splitAtTurns
  rw [hspans, except_ok_bind]
  split
  · exact ⟨[], rfl⟩
  · rename_i hmany
    have hne : spans ≠ [] := by
      rintro rfl
      exact hmany Nat.zero_lt_two
    obtain ⟨items, hitems⟩ := mapM_ok (f := fun pair : Boundary τ × Boundary τ =>
        pieceOf segment spans pair.1 pair.2)
      (l := (textBoundaries segment spans window).zip (textBoundaries segment spans window).tail)
      fun pair _ => pieceOf_ok hne pair.1 pair.2
    refine ⟨_, except_bind_eq_ok.mpr ⟨items.foldl splitGluing.glueOnto [], ?_, rfl⟩⟩
    rw [foldlM_addPiece, hitems]
    rfl

variable (knobs : SplitKnobs τ)

theorem assignSegment_ok (hturns : turns ≠ []) (previous : Option String) (segment : Segment τ) :
    ∃ part, assignSegment knobs turns previous segment = .ok part := by
  obtain ⟨pieces, hpieces⟩ : ∃ pieces, piecesOf knobs turns segment = .ok pieces := by
    unfold piecesOf
    extract_lets shares
    split
    · exact ⟨[], rfl⟩
    · rename_i majority hmajority
      have hshares : shares ≠ [] := fun hnil => by simp [hnil] at hmajority
      split
      · exact splitAtTurns_ok (lt_of_speakerShares hshares) _
      · exact ⟨[], rfl⟩
  obtain ⟨speaker, hspeaker⟩ : ∃ speaker, wholeSpeaker turns previous segment = .ok speaker := by
    unfold wholeSpeaker
    extract_lets shares
    split
    · obtain ⟨turn, -, hturn⟩ := nearestTurn_ok hturns segment.start segment.stop
      exact ⟨_, except_bind_eq_ok.mpr ⟨turn, hturn, rfl⟩⟩
    · rename_i hshares
      exact largestShare_ok hshares
  unfold assignSegment
  rw [hpieces, except_ok_bind]
  split
  · exact ⟨pieces, rfl⟩
  · exact ⟨_, except_bind_eq_ok.mpr ⟨speaker, hspeaker, rfl⟩⟩

theorem assignFrom_ok (hturns : turns ≠ []) (previous : Option String) (segments : List (Segment τ)) :
    ∃ parts, assignFrom knobs turns previous segments = .ok parts := by
  induction segments generalizing previous with
  | nil => exact ⟨[], rfl⟩
  | cons segment rest ih =>
      obtain ⟨part, hpart⟩ := assignSegment_ok knobs hturns previous segment
      obtain ⟨parts, hparts⟩ := ih (part.getLast?.bind Segment.speaker)
      exact ⟨part :: parts, except_bind_eq_ok.mpr
        ⟨part, hpart, except_bind_eq_ok.mpr ⟨parts, hparts, rfl⟩⟩⟩

end Return

/-! ### Segments -/

/-- Of parts that are not empty, one holds several iff there are more items than parts. -/
theorem length_lt_length_flatten {α : Type*} {parts : List (List α)} (h : ∀ part ∈ parts, part ≠ []) :
    parts.length < parts.flatten.length ↔ ∃ part ∈ parts, 1 < part.length := by
  induction parts with
  | nil => simp
  | cons part rest ih =>
      obtain ⟨hpart, hrest⟩ := List.forall_mem_cons.mp h
      have hpos := List.length_pos_iff.mpr hpart
      have hle : rest.length ≤ rest.flatten.length := by
        rw [List.length_flatten, ← List.length_map List.length]
        refine List.length_le_sum_of_one_le _ fun n hn => ?_
        obtain ⟨other, hother, rfl⟩ := List.mem_map.mp hn
        exact List.length_pos_iff.mpr (hrest other hother)
      rw [List.exists_mem_cons_iff, ← ih hrest, List.length_cons, List.flatten_cons,
        List.length_append]
      omega

/-- Each segment becomes one or more, in order. -/
theorem assignSpeakersToSegments_splits {τ : Type} [SteadyClock τ] (knobs : SplitKnobs τ)
    (turns : List (Turn τ)) (segments : List (Segment τ)) :
    ∃ parts, assignSpeakersToSegments knobs turns segments = .ok parts.flatten ∧
      List.Forall₂ (SplitOf turns) segments parts := by
  unfold assignSpeakersToSegments
  split
  · -- nothing to split, or nobody to split between: the segments come back as they are
    rename_i hempty
    refine ⟨segments.map fun segment => [segment], ?_, ?_⟩
    · rw [← List.flatMap_def, List.flatMap_singleton']
      rfl
    · rw [List.forall₂_map_right_iff, List.forall₂_same]
      intro segment hsegment
      have hturns : turns = [] := hempty.resolve_left (List.ne_nil_of_mem hsegment)
      exact {
        nonempty := List.cons_ne_nil _ _
        tokens := List.flatMap_singleton _ _
        changes := List.isChain_singleton _
        heard := fun hne => absurd hturns hne }
  · rename_i hne
    rw [not_or] at hne
    have hsorted := (stablySorted_sortedBy Turn.start turns).perm
    have hturns : sortedBy Turn.start turns ≠ [] := mt sortedBy_eq_nil.mp hne.2
    obtain ⟨parts, hparts⟩ := assignFrom_ok knobs hturns none segments
    refine ⟨parts, except_bind_eq_ok.mpr ⟨parts, hparts, rfl⟩, ?_⟩
    refine (assignFrom_splitOf hturns (by simp) hparts).imp fun segment part hsplit => ?_
    refine ⟨hsplit.nonempty, hsplit.tokens, hsplit.changes, fun _ piece hpiece => ?_⟩
    obtain ⟨turn, hturn, heq⟩ := hsplit.heard hturns piece hpiece
    exact ⟨turn, hsorted.mem_iff.mp hturn, heq⟩

/-- **Splitting segments keeps the text**: each segment becomes one or more, with the tokens it had,
and the rung says whether any became more than one. -/
theorem segment_split_keeps_text {τ : Type} [SteadyClock τ] (knobs : SplitKnobs τ)
    (turns : List (Turn τ)) (segments : List (Segment τ)) :
    ∃ parts, assignSpeakersToSegments knobs turns segments = .ok parts.flatten ∧
      List.Forall₂ (SplitOf turns) segments parts ∧
      (segmentMergeAlignment segments parts.flatten = .segmentSplit ↔
        ∃ part ∈ parts, 1 < part.length) := by
  obtain ⟨parts, hparts, hall⟩ := assignSpeakersToSegments_splits knobs turns segments
  refine ⟨parts, hparts, hall, ?_⟩
  have hne : ∀ part ∈ parts, part ≠ [] := by
    clear hparts
    induction hall with
    | nil => exact List.forall_mem_nil _
    | cons hsplit _ ih => exact List.forall_mem_cons.mpr ⟨hsplit.nonempty, ih⟩
  rw [← length_lt_length_flatten hne, ← hall.length_eq, segmentMergeAlignment]
  split
  · rename_i hmore
    exact iff_of_true rfl hmore
  · rename_i hmore
    exact iff_of_false (by simp) hmore

/-! ### Times -/

section Times

variable {segment : Segment τ} {spans : List (Turn τ)}

/-- The slices are laid end to end, those without text as gaps. -/
theorem laid_slices (first final : Boundary τ) {cuts : List (Boundary τ)}
    (htimes : (first.time :: cuts.map Boundary.time ++ [final.time]).Pairwise (· < ·))
    {items : List (Option (Segment τ))} :
    let boundaries := first :: cuts ++ [final]
    (boundaries.zip boundaries.tail).mapM (fun pair => pieceOf segment spans pair.1 pair.2) =
        .ok items →
      splitGluing.Laid first.time final.time items := by
  -- a slice takes the time between its boundaries
  have hslice : ∀ {a b : Boundary τ} {hi : τ} {item rest}, a.time < b.time →
      pieceOf segment spans a b = .ok item → splitGluing.Laid b.time hi rest →
      splitGluing.Laid a.time hi (item :: rest) := by
    intro a b hi item rest hlt hitem hrest
    cases item with
    | none => exact .gap hlt hrest
    | some piece =>
        obtain ⟨hstart, hstop, -⟩ := pieceOf_some hitem
        have hpiece : splitGluing.start piece < splitGluing.stop piece →
            splitGluing.Laid (splitGluing.stop piece) hi rest →
            splitGluing.Laid (splitGluing.start piece) hi (some piece :: rest) := .item
        simp only [splitGluing, hstart, hstop] at hpiece
        exact hpiece hlt hrest
  intro boundaries h
  induction cuts generalizing first items with
  | nil =>
      obtain ⟨item, hitem, h⟩ := except_bind_eq_ok.mp h
      obtain rfl := Except.ok.inj h
      exact hslice (by simpa using htimes) hitem (.nil final.time)
  | cons cut rest ih =>
      obtain ⟨hfirst, hrest⟩ := List.pairwise_cons.mp htimes
      simp only [boundaries, List.cons_append, List.tail_cons, List.zip_cons_cons, List.mapM_cons] at h
      obtain ⟨item, hitem, h⟩ := except_bind_eq_ok.mp h
      obtain ⟨others, hothers, h⟩ := except_bind_eq_ok.mp h
      obtain rfl := Except.ok.inj h
      exact hslice (hfirst cut.time (by simp)) hitem (ih cut hrest hothers)

theorem laid_items (hlt : segment.start < segment.stop) {turns : List (Turn τ)}
    {shares : List (String × τ)} (hspans : speakerSpans segment turns shares = .ok spans) {window : ℕ}
    {items : List (Option (Segment τ))}
    (h : ((textBoundaries segment spans window).zip (textBoundaries segment spans window).tail).mapM
      (fun pair => pieceOf segment spans pair.1 pair.2) = .ok items) :
    splitGluing.Laid segment.start segment.stop items := by
  obtain ⟨hincreasing, hwithin, -⟩ := speakerSpans_within hlt hspans
  have hcuts := cutsFrom_times segment window 0 spans.tail
  have htail : (spans.tail.map Turn.start).Sublist (spans.map Turn.start) :=
    (List.tail_sublist spans).map Turn.start
  refine laid_slices ⟨segment.start, 0⟩ ⟨segment.stop, segment.text.toList.length⟩
    (List.pairwise_append.mpr ⟨?_, ?_, ?_⟩) h
  · refine List.pairwise_cons.mpr ⟨fun time htime => ?_, hincreasing.sublist (hcuts.trans htail)⟩
    -- a cut is at the start of a span that is not the first
    cases spans with
    | nil => simpa using hcuts.subset htime
    | cons span rest =>
        exact (hwithin span.start (by simp)).1.trans_lt
          ((List.pairwise_cons.mp hincreasing).1 time (hcuts.subset htime))
  · exact List.pairwise_singleton _ _
  · intro time htime final hfinal
    rw [List.mem_singleton.mp hfinal]
    rcases List.mem_cons.mp htime with rfl | htime
    · exact hlt
    · exact (hwithin time (htail.subset (hcuts.subset htime))).2

end Times

/-- **Split pieces and the time**: they follow one another within the segment, and cover all of it
iff every blank slice lies between two slices one speaker dominates. -/
theorem split_pieces_tile {segment : Segment τ} {turns : List (Turn τ)} {shares : List (String × τ)}
    {window : ℕ} {pieces : List (Segment τ)} (hlt : segment.start < segment.stop)
    (h : splitAtTurns segment turns shares window = .ok pieces) (hne : pieces ≠ []) :
    Follows Segment.start Segment.stop segment.start segment.stop pieces ∧
    ∃ spans items, speakerSpans segment turns shares = .ok spans ∧
      ((textBoundaries segment spans window).zip (textBoundaries segment spans window).tail).mapM
        (fun pair => pieceOf segment spans pair.1 pair.2) = .ok items ∧
      (Tiles Segment.start Segment.stop segment.start segment.stop pieces ↔
        GapsGlued (items.map fun item => item.map Segment.speaker)) := by
  obtain ⟨spans, items, hspans, hitems, rfl, -⟩ := splitAtTurns_eq_ok h hne
  have hlaid := laid_items hlt hspans hitems
  exact ⟨Gluing.follows_glue hlaid, spans, items, hspans, hitems, Gluing.tiles_glue_iff hlaid hne⟩

/-- Two blanks in the middle, and someone who speaks between them. -/
def doubleBlank : Segment ℚ where
  start := 0
  stop := 17
  text := "ett två  tre fyra"

def threeVoices : List (Turn ℚ) := [⟨0, 7, "anna"⟩, ⟨7, 8, "bo"⟩, ⟨8, 17, "cia"⟩]

def doubleBlankPieces : List (Segment ℚ) :=
  [⟨0, 7, some "anna", "ett två", [], none, []⟩, ⟨8, 17, some "cia", "tre fyra", [], none, []⟩]

theorem splitAtTurns_doubleBlank :
    splitAtTurns doubleBlank threeVoices (speakerShares doubleBlank threeVoices) 12 =
      .ok doubleBlankPieces := by
  have hbounds : (spanBounds doubleBlank threeVoices).sort (· ≤ ·) = [0, 7, 8, 17] := by
    have hset : spanBounds doubleBlank threeVoices = [0, 7, 8, 17].toFinset := by decide +kernel
    rw [hset]
    exact (List.toFinset_sort _ (by decide +kernel)).mpr (by decide +kernel)
  have hspans : speakerSpans doubleBlank threeVoices (speakerShares doubleBlank threeVoices) =
      .ok threeVoices := by
    rw [speakerSpans, rawSpans, hbounds]
    decide +kernel
  rw [splitAtTurns, hspans]
  decide +kernel

/-- From 7 to 8 nobody is left. -/
theorem split_pieces_gap :
    doubleBlank.start < doubleBlank.stop ∧
      splitAtTurns doubleBlank threeVoices (speakerShares doubleBlank threeVoices) 12 =
        .ok doubleBlankPieces ∧
      ¬ Tiles Segment.start Segment.stop doubleBlank.start doubleBlank.stop doubleBlankPieces := by
  refine ⟨by norm_num [doubleBlank], splitAtTurns_doubleBlank, fun htiles => ?_⟩
  have hmeets : (7 : ℚ) = 8 := (List.isChain_cons_cons.mp htiles.meets).1
  norm_num at hmeets

/-- The pieces follow one another all the same. -/
theorem split_pieces_tile_gap :
    Follows Segment.start Segment.stop doubleBlank.start doubleBlank.stop doubleBlankPieces :=
  (split_pieces_tile (by norm_num [doubleBlank]) splitAtTurns_doubleBlank (List.cons_ne_nil _ _)).1

end Vemsa.Pipeline

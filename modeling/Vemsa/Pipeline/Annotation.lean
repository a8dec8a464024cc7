import Vemsa.Support.Pieces
import Vemsa.Pipeline.SpeakerReview

/-!
# Pipeline — Annotation

What `apply_speaker_review` makes of a transcript, against the plain reading of it: an overlap
counts for what it meets for a positive time (`Meets`), every word keeps its place and
its speaker, and a segment is cut where the overlaps of its words change.

* The lookup: among the ordered overlaps, those found by bisection are those that meet the segment
  with its words (`candidates_eq`), and no others matter (`splitSegment_candidates`).
* The anchors: the words are all found exactly when they stand in the text one after the other
  (`anchors_isSome`).
* The parts: an anchored segment comes out as its runs of words with the same overlaps
  (`splitSegment_anchored`), any other segment as a whole (`splitSegment_whole`).
* The text of a part: where words are joined by single spaces, so are those of a part
  (`splitParts_text`).
-/

namespace Vemsa.Pipeline
open Vemsa.Support Vemsa.Jobs

/-- The overlap and the interval have a stretch of positive length in common. -/
def Meets (o : SpeechOverlap) (start stop : ℚ) : Prop := max o.start start < min o.stop stop

instance (o : SpeechOverlap) (start stop : ℚ) : Decidable (Meets o start stop) :=
  inferInstanceAs (Decidable (_ < _))

theorem meets_iff {o : SpeechOverlap} {start stop : ℚ} :
    Meets o start stop ↔ start < o.stop ∧ o.start < stop ∧ start < stop := by
  rw [Meets, lt_min_iff, max_lt_iff, max_lt_iff]
  exact ⟨fun h => ⟨h.1.2, h.2⟩, fun h => ⟨⟨o.start_lt_stop, h.1⟩, h.2⟩⟩

theorem ids_eq (start stop : ℚ) (overlaps : List SpeechOverlap) :
    ids start stop overlaps = (overlaps.filter fun o => Meets o start stop).map SpeechOverlap.id := by
  simp only [ids, meets_iff]

/-- The overlap meets the segment or one of its words. -/
def MeetsAny (o : SpeechOverlap) (segment : Segment ℚ) : Prop :=
  Meets o segment.start segment.stop ∨ ∃ word ∈ segment.words, Meets o word.start word.stop

instance (o : SpeechOverlap) (segment : Segment ℚ) : Decidable (MeetsAny o segment) :=
  inferInstanceAs (Decidable (_ ∨ _))

/-! ### The lookup -/

section Lookup

variable {overlaps : List SpeechOverlap} {segment : Segment ℚ}

theorem pairwise_ordered (h : overlaps.IsChain fun a b => a.stop ≤ b.start) :
    overlaps.Pairwise fun a b => a.stop ≤ b.start := by
  have : IsTrans SpeechOverlap fun a b => a.stop ≤ b.start :=
    ⟨fun _ b _ hab hbc => hab.trans (b.start_lt_stop.le.trans hbc)⟩
  exact List.isChain_iff_pairwise.mp h

theorem foldl_min_le {τ : Type*} [LinearOrder τ] (a : τ) (l : List τ) :
    l.foldl min a ≤ a ∧ ∀ b ∈ l, l.foldl min a ≤ b := by
  induction l generalizing a with
  | nil => simp
  | cons c l ih =>
      obtain ⟨ha, hl⟩ := ih (min a c)
      rw [List.foldl_cons]
      exact ⟨ha.trans (min_le_left a c),
        List.forall_mem_cons.mpr ⟨ha.trans (min_le_right a c), hl⟩⟩

theorem le_foldl_max (a : ℚ) (l : List ℚ) : a ≤ l.foldl max a ∧ ∀ b ∈ l, b ≤ l.foldl max a :=
  foldl_min_le (τ := ℚᵒᵈ) a l

/-- **The lookup** finds the overlaps that end after the first start and start before the last
end. -/
theorem candidates_eq (h : overlaps.IsChain fun a b => a.stop ≤ b.start) :
    candidates overlaps segment = overlaps.filter fun o =>
      (segment.words.map Word.start).foldl min segment.start < o.stop ∧
        o.start < (segment.words.map Word.stop).foldl max segment.stop := by
  have hpairwise := pairwise_ordered h
  have hstops : (overlaps.map SpeechOverlap.stop).Pairwise (· ≤ ·) :=
    List.pairwise_map.mpr (hpairwise.imp fun {a b} hab => hab.trans b.start_lt_stop.le)
  rw [candidates, drop_bisectRight hstops, takeWhile_eq_filter, List.filter_filter]
  · refine List.filter_congr fun o _ => ?_
    rw [Bool.decide_and, Bool.and_comm]
  · refine (hpairwise.filter _).imp fun {a b} hab hb => ?_
    exact decide_eq_true (a.start_lt_stop.trans_le (hab.trans (of_decide_eq_true hb).le))

/-- No overlap that meets the segment or one of its words is missing. -/
theorem mem_candidates (h : overlaps.IsChain fun a b => a.stop ≤ b.start) {o : SpeechOverlap}
    (ho : o ∈ overlaps) (hmeets : MeetsAny o segment) : o ∈ candidates overlaps segment := by
  obtain ⟨hstart, hstarts⟩ := foldl_min_le segment.start (segment.words.map Word.start)
  obtain ⟨hstop, hstops⟩ := le_foldl_max segment.stop (segment.words.map Word.stop)
  rw [candidates_eq h, List.mem_filter, decide_eq_true_eq]
  refine ⟨ho, ?_⟩
  rcases hmeets with hmeets | ⟨word, hword, hmeets⟩
  · obtain ⟨h₁, h₂, -⟩ := meets_iff.mp hmeets
    exact ⟨hstart.trans_lt h₁, h₂.trans_le hstop⟩
  · obtain ⟨h₁, h₂, -⟩ := meets_iff.mp hmeets
    exact ⟨(hstarts _ (List.mem_map_of_mem hword)).trans_lt h₁,
      h₂.trans_le (hstops _ (List.mem_map_of_mem hword))⟩

/-- What is chosen among the overlaps that meet the segment is chosen among those looked up. -/
theorem filter_candidates (h : overlaps.IsChain fun a b => a.stop ≤ b.start) {p : SpeechOverlap → Bool}
    (hp : ∀ o ∈ overlaps, p o = true → MeetsAny o segment) :
    (candidates overlaps segment).filter p = overlaps.filter p := by
  have hmem : ∀ o ∈ overlaps, MeetsAny o segment → o ∈ candidates overlaps segment :=
    fun _ => mem_candidates h
  rw [candidates_eq h] at hmem ⊢
  rw [List.filter_filter]
  refine List.filter_congr fun o ho => ?_
  cases hpo : p o with
  | false => rfl
  | true => exact (List.mem_filter.mp (hmem o ho (hp o ho hpo))).2

end Lookup

/-! ### The anchors -/

/-- The words of the segment stand in its text one after the other. -/
def Anchored (segment : Segment ℚ) : Prop :=
  segment.words ≠ [] ∧ (∀ word ∈ segment.words, word.word ≠ "") ∧
    InOrder (segment.words.map fun word => word.word.toList) segment.text.toList

/-- **All words are found** exactly when they stand in the text one after the other. -/
theorem anchors_isSome (text : Text) (cursor : ℕ) (words : List (Word ℚ)) :
    (anchors text cursor words).isSome = true ↔ (∀ word ∈ words, word.word ≠ "") ∧
      InOrder (words.map fun word => word.word.toList) (text.drop cursor) := by
  induction words generalizing cursor with
  | nil => exact ⟨fun _ => ⟨by simp, .nil _⟩, fun _ => rfl⟩
  | cons word words ih =>
      by_cases hempty : word.word = ""
      · simp [anchors, hempty]
      · rw [anchors, if_neg hempty, List.forall_mem_cons, List.map_cons]
        cases hfind : pyFind text word.word.toList cursor with
        | none =>
            refine iff_of_false Bool.false_ne_true fun h => ?_
            obtain ⟨-, hinorder⟩ := h
            generalize hrest : text.drop cursor = rest at hinorder
            cases hinorder with
            | cons before hafter => exact findFrom_none hfind before _ hrest
        | some start =>
            obtain ⟨before, after, hrest, hstart, hleft⟩ := findFrom_some hfind
            have hafter : text.drop (start + word.word.toList.length) = after := by
              rw [hstart, Nat.add_assoc, ← List.drop_drop, hrest, ← List.length_append,
                List.drop_left]
            simp only [Option.isSome_map, ih, hafter, hrest, ne_eq, hempty, not_false_eq_true,
              true_and]
            refine and_congr_right fun _ => ⟨fun h => .cons before h, fun h => ?_⟩
            exact h.leftmost (by rwa [hrest] at hleft)

theorem length_anchors {text : Text} {cursor : ℕ} {words : List (Word ℚ)} {starts : List ℕ}
    (h : anchors text cursor words = some starts) : starts.length = words.length := by
  induction words generalizing cursor starts with
  | nil =>
      cases h
      rfl
  | cons word words ih =>
      rw [anchors] at h
      split at h
      · cases h
      · split at h
        · cases h
        · obtain ⟨starts', hrest, rfl⟩ := Option.map_eq_some_iff.mp h
          exact congrArg (· + 1) (ih hrest)

/-! ### The parts -/

section Parts

variable (segment : Segment ℚ) (overlaps : List SpeechOverlap)

@[simp]
theorem annotate_words (ids : List String) : (annotate segment ids).words = segment.words := rfl

@[simp]
theorem annotate_speaker (ids : List String) : (annotate segment ids).speaker = segment.speaker := rfl

@[simp]
theorem annotate_text (ids : List String) : (annotate segment ids).text = segment.text := rfl

@[simp]
theorem annotate_overlapIds (ids : List String) : (annotate segment ids).overlapIds = ids := rfl

theorem annotate_provisional (ids : List String) :
    (annotate segment ids).speakerAttribution = some .provisional ↔ ids ≠ [] := by
  unfold annotate
  split_ifs <;> simp_all

/-- The overlaps of the first word of a part. -/
def partIds (part : List AnchoredWord) : List String := (part.head?.map AnchoredWord.ids).getD []

theorem splitParts_view (textStart : ℕ) (parts : List (List AnchoredWord)) :
    (splitParts segment textStart parts).map (fun piece => (piece.words, piece.overlapIds)) =
      parts.map fun part => (part.map AnchoredWord.word, partIds part) := by
  induction parts generalizing textStart with
  | nil => rfl
  | cons part parts ih => rw [splitParts, List.map_cons, ih, List.map_cons]; rfl

/-- Every piece is an annotated segment of the same speaker. -/
theorem mem_splitParts {textStart : ℕ} {parts : List (List AnchoredWord)} {piece : Segment ℚ}
    (h : piece ∈ splitParts segment textStart parts) :
    ∃ part ids, piece = annotate part ids ∧ part.speaker = segment.speaker := by
  induction parts generalizing textStart with
  | nil => cases h
  | cons part parts ih =>
      rcases List.mem_cons.mp h with rfl | h
      · exact ⟨_, _, rfl, rfl⟩
      · exact ih h

theorem mem_splitSegment {piece : Segment ℚ} (h : piece ∈ splitSegment segment overlaps) :
    ∃ part ids, piece = annotate part ids ∧ part.speaker = segment.speaker := by
  unfold splitSegment at h
  dsimp only at h
  split at h
  · exact ⟨segment, _, List.mem_singleton.mp h, rfl⟩
  · split at h
    · exact ⟨segment, _, List.mem_singleton.mp h, rfl⟩
    · split at h
      · exact ⟨segment, _, List.mem_singleton.mp h, rfl⟩
      · exact mem_splitParts segment h

variable {segment overlaps}

/-- **A segment that is not anchored** stays whole, with the overlaps that meet it or a word. -/
theorem splitSegment_whole (hnodup : (overlaps.map SpeechOverlap.id).Nodup)
    (h : ¬ Anchored segment) :
    splitSegment segment overlaps =
      [annotate segment ((overlaps.filter fun o => MeetsAny o segment).map SpeechOverlap.id)] := by
  have hinj := List.inj_on_of_nodup_map hnodup
  have hmem {start stop : ℚ} {o : SpeechOverlap} (ho : o ∈ overlaps) :
      o.id ∈ ids start stop overlaps ↔ Meets o start stop := by
    rw [ids_eq, List.mem_map]
    constructor
    · rintro ⟨o', ho', heq⟩
      obtain ⟨hmem', hmeets⟩ := List.mem_filter.mp ho'
      exact hinj hmem' ho heq ▸ of_decide_eq_true hmeets
    · exact fun hmeets => ⟨o, List.mem_filter.mpr ⟨ho, decide_eq_true hmeets⟩, rfl⟩
  by_cases hwords : segment.words = []
  · rw [splitSegment, if_pos hwords, ids_eq]
    simp [MeetsAny, hwords]
  · have hnone : anchors segment.text.toList 0 segment.words = none := by
      refine Option.not_isSome_iff_eq_none.mp fun hsome => h ⟨hwords, ?_⟩
      exact (anchors_isSome segment.text.toList 0 segment.words).mp hsome
    rw [splitSegment, if_neg hwords, hnone]
    refine congrArg (fun l : List SpeechOverlap =>
      [annotate segment (l.map SpeechOverlap.id)]) ?_
    refine List.filter_congr fun o ho => decide_eq_decide.mpr ?_
    simp only [List.mem_append, List.mem_flatten, List.mem_map, MeetsAny, hmem ho]
    refine or_congr_right ⟨?_, ?_⟩
    · rintro ⟨_, ⟨word, hword, rfl⟩, hin⟩
      exact ⟨word, hword, (hmem ho).mp hin⟩
    · rintro ⟨word, hword, hmeets⟩
      exact ⟨_, ⟨word, hword, rfl⟩, (hmem ho).mpr hmeets⟩

/-- The words with their overlaps and places. -/
theorem anchored_words (overlaps : List SpeechOverlap) (words : List (Word ℚ)) (starts : List ℕ)
    (hlen : starts.length = words.length) :
    ∃ anchored : List AnchoredWord,
      anchored = List.zipWith (fun word p => ⟨word, p.1, p.2⟩) words
        ((words.map fun word => ids word.start word.stop overlaps).zip starts) ∧
      anchored.map AnchoredWord.word = words ∧ anchored.map AnchoredWord.start = starts ∧
      ∀ a ∈ anchored, a.ids = ids a.word.start a.word.stop overlaps := by
  refine ⟨_, rfl, ?_⟩
  induction words generalizing starts with
  | nil =>
      cases List.length_eq_zero_iff.mp hlen
      simp
  | cons word words ih =>
      obtain ⟨start, starts, rfl⟩ := List.exists_cons_of_length_eq_add_one hlen
      obtain ⟨hwords, hstarts, hids⟩ := ih starts (Nat.succ.inj hlen)
      exact ⟨congrArg (word :: ·) hwords, congrArg (start :: ·) hstarts,
        List.forall_mem_cons.mpr ⟨rfl, hids⟩⟩

/-- **An anchored segment** comes out as its runs of words with the same overlaps. -/
theorem splitSegment_anchored (overlaps : List SpeechOverlap) (h : Anchored segment) :
    ∃ anchored : List AnchoredWord, anchored.map AnchoredWord.word = segment.words ∧
      anchors segment.text.toList 0 segment.words = some (anchored.map AnchoredWord.start) ∧
      (∀ a ∈ anchored, a.ids = ids a.word.start a.word.stop overlaps) ∧
      ((∃ ids, splitSegment segment overlaps = [annotate segment ids]) ∨
        splitSegment segment overlaps = splitParts segment 0 (pieces sameIds anchored)) ∧
      (splitSegment segment overlaps).map (fun piece => (piece.words, piece.overlapIds)) =
        (pieces sameIds anchored).map fun part => (part.map AnchoredWord.word, partIds part) := by
  obtain ⟨hwords, hanchored⟩ := h
  obtain ⟨starts, hstarts⟩ := Option.isSome_iff_exists.mp
    ((anchors_isSome segment.text.toList 0 segment.words).mpr hanchored)
  obtain ⟨anchored, hdef, hw, hs, hids⟩ :=
    anchored_words overlaps segment.words starts (length_anchors hstarts)
  refine ⟨anchored, hw, hs ▸ hstarts, hids, ?_⟩
  rw [splitSegment, if_neg hwords, hstarts]
  dsimp only
  rw [← hdef]
  split
  · rename_i part hpart
    have hflatten : (pieces sameIds anchored).flatten = anchored := flatten_pieces anchored
    rw [hpart, List.flatten_singleton] at hflatten
    refine ⟨.inl ⟨_, rfl⟩, ?_⟩
    rw [hpart, hflatten, List.map_singleton, List.map_singleton, hw]
    rfl
  · exact ⟨.inr rfl, splitParts_view segment 0 _⟩

end Parts

/-! ### The text of a part -/

section Text

variable {text : Text}

/-- The words of a part, joined by spaces. -/
def joined (part : List AnchoredWord) : Text :=
  (pyJoin " " (part.map fun a => a.word.word)).toList

theorem joined_cons_cons (a b : AnchoredWord) (rest : List AnchoredWord) :
    joined (a :: b :: rest) = a.word.word.toList ++ ' ' :: joined (b :: rest) := by
  simp [joined]

theorem joined_append {part rest : List AnchoredWord} (h₁ : part ≠ []) (h₂ : rest ≠ []) :
    joined (part ++ rest) = joined part ++ ' ' :: joined rest := by
  rw [joined, List.map_append, pyJoin_append (by simpa using h₁) (by simpa using h₂)]
  simp [joined]

theorem solid_joined {part : List AnchoredWord} (hne : part ≠ [])
    (h : ∀ a ∈ part, Trimmed a.word.word) : Solid (joined part) :=
  Solid.join (by simpa using hne) (by simpa using fun a ha => (h a ha).solid)

/-- From the place of each word on the text is that word and those after it. -/
def Placed (text : Text) (anchored : List AnchoredWord) : Prop :=
  ∀ a rest, a :: rest <:+ anchored → text.drop a.start = joined (a :: rest)

theorem joined_cons (a : AnchoredWord) (rest : List AnchoredWord) :
    ∃ tail, joined (a :: rest) = a.word.word.toList ++ tail ∧
      (rest = [] ∨ tail = ' ' :: joined rest) := by
  cases rest with
  | nil => exact ⟨[], by simp [joined], .inl rfl⟩
  | cons b rest => exact ⟨_, joined_cons_cons a b rest, .inr rfl⟩

/-- What is solid does not begin at a blank. -/
theorem before_eq_of_solid {sub before after gap tail : Text} (h : Solid sub)
    (hgap : gap = [] ∨ gap = [' ']) (heq : gap ++ sub ++ tail = before ++ sub ++ after)
    (hleft : before.length ≤ gap.length) : before = gap := by
  obtain ⟨⟨c, rest, rfl, hc⟩, -⟩ := h
  rcases hgap with rfl | rfl
  · exact List.length_eq_zero_iff.mp (Nat.le_zero.mp hleft)
  · cases before with
    | nil =>
        obtain rfl : ' ' = c := (List.cons.inj heq).1
        exact absurd hc (by decide)
    | cons b before =>
        obtain rfl : ' ' = b := (List.cons.inj heq).1
        rw [List.length_eq_zero_iff.mp (Nat.le_zero.mp (Nat.le_of_succ_le_succ hleft))]

/-- **Where the text is the words joined by spaces**, each word is found in its own place: at the
space before it no solid word begins. -/
theorem placed_of_anchors {anchored : List AnchoredWord} {cursor : ℕ} {gap : Text}
    (htrimmed : ∀ a ∈ anchored, Trimmed a.word.word) (hgap : gap = [] ∨ gap = [' '])
    (htext : text.drop cursor = gap ++ joined anchored)
    (h : anchors text cursor (anchored.map AnchoredWord.word) =
      some (anchored.map AnchoredWord.start)) : Placed text anchored := by
  induction anchored generalizing cursor gap with
  | nil => exact fun a rest hsuffix => absurd (List.suffix_nil.mp hsuffix) (List.cons_ne_nil _ _)
  | cons a rest ih =>
      obtain ⟨ha, hrest⟩ := List.forall_mem_cons.mp htrimmed
      rw [List.map_cons, anchors, if_neg ha.1] at h
      cases hfind : pyFind text a.word.word.toList cursor with
      | none => simp [hfind] at h
      | some start =>
          simp only [hfind, List.map_cons, Option.map_eq_some_iff, List.cons.injEq] at h
          obtain ⟨starts, hstarts, rfl, rfl⟩ := h
          obtain ⟨before, after, hbefore, hstart, hleft⟩ := findFrom_some hfind
          obtain ⟨tail, htail, hor⟩ := joined_cons a rest
          rw [htail, ← List.append_assoc] at htext
          obtain rfl : before = gap :=
            before_eq_of_solid ha.solid hgap (htext.symm.trans hbefore) (hleft gap tail htext)
          have hdrop : text.drop a.start = joined (a :: rest) := by
            rw [hstart, ← List.drop_drop, htext, List.append_assoc, List.drop_left, htail]
          intro b rest' hsuffix
          rcases List.suffix_cons_iff.mp hsuffix with heq | hsuffix
          · cases heq
            exact hdrop
          · have hne : rest ≠ [] := by
              rintro rfl
              exact List.cons_ne_nil _ _ (List.suffix_nil.mp hsuffix)
            refine ih hrest (.inr rfl) ?_ hstarts b rest' hsuffix
            rw [← List.drop_drop, hdrop, htail, List.drop_left, hor.resolve_left hne,
              List.singleton_append]

/-- A part of the text between two places. -/
theorem drop_take_eq {before rest : Text} {start stop : ℕ} (hrest : rest ≠ [])
    (hstart : text.drop start = before ++ rest) (hstop : text.drop stop = rest) :
    (text.take stop).drop start = before := by
  have h₁ := congrArg List.length hstart
  have h₂ := congrArg List.length hstop
  have hpos := List.length_pos_iff.mpr hrest
  rw [List.length_drop, List.length_append] at h₁
  rw [List.length_drop] at h₂
  rw [List.drop_take, hstart, show stop - start = before.length by omega, List.take_left]

/-- **The text of every part** is its words joined by spaces. -/
theorem splitParts_text {segment : Segment ℚ} {textStart : ℕ} {parts : List (List AnchoredWord)}
    (hne : ∀ part ∈ parts, part ≠ []) (htrimmed : ∀ a ∈ parts.flatten, Trimmed a.word.word)
    (hplaced : Placed segment.text.toList parts.flatten)
    (htext : segment.text.toList.drop textStart = joined parts.flatten) :
    ∀ piece ∈ splitParts segment textStart parts,
      piece.text = pyJoin " " (piece.words.map Word.word) := by
  induction parts generalizing textStart with
  | nil => simp [splitParts]
  | cons part parts ih =>
      obtain ⟨hpart, hparts⟩ := List.forall_mem_cons.mp hne
      rw [List.flatten_cons] at htrimmed hplaced htext
      have hsolid := solid_joined hpart fun a ha => htrimmed a (List.mem_append_left _ ha)
      -- the text of the part, with the space after it if another follows
      have hstrip (blanks : Text) (hblanks : ∀ c ∈ blanks, isSpace c = true) :
          pyStrip (.ofList (joined part ++ blanks)) =
            pyJoin " " ((part.map AnchoredWord.word).map Word.word) := by
        refine String.toList_injective ?_
        rw [toList_pyStrip, String.toList_ofList, hsolid.strip_append hblanks, joined, List.map_map]
        rfl
      cases parts with
      | nil =>
          simp only [splitParts, List.mem_singleton, forall_eq, annotate_text, annotate_words]
          rw [List.flatten_nil, List.append_nil] at htext
          simpa [htext] using hstrip [] (by simp)
      | cons next parts =>
          obtain ⟨b, bs, rfl⟩ := List.exists_cons_of_ne_nil (hparts next List.mem_cons_self)
          have hb : segment.text.toList.drop b.start = joined ((b :: bs) :: parts).flatten :=
            hplaced b (bs ++ parts.flatten) (List.suffix_append _ _)
          rw [splitParts]
          refine List.forall_mem_cons.mpr ⟨?_, ih hparts
            (fun a ha => htrimmed a (List.mem_append_right _ ha))
            (fun a rest hsuffix => hplaced a rest (hsuffix.trans (List.suffix_append _ _))) hb⟩
          have hrest : ((b :: bs) :: parts).flatten ≠ [] := by simp
          have hcut := drop_take_eq (solid_joined hrest fun a ha =>
            htrimmed a (List.mem_append_right _ ha)).ne_nil
            (htext.trans (by rw [joined_append hpart hrest, ← List.singleton_append,
              ← List.append_assoc])) hb
          simp only [List.head?_cons, Option.bind_some, Option.map_some, Option.getD_some,
            annotate_text, annotate_words]
          rw [hcut]
          exact hstrip [' '] fun c hc => by
            rw [List.mem_singleton.mp hc]
            decide

end Text

/-! ### The review -/

section Review

variable {segment : Segment ℚ} {overlaps : List SpeechOverlap}

/-- **Only the overlaps looked up matter.** -/
theorem splitSegment_candidates (hordered : overlaps.IsChain fun a b => a.stop ≤ b.start)
    (hnodup : (overlaps.map SpeechOverlap.id).Nodup) :
    splitSegment segment (candidates overlaps segment) = splitSegment segment overlaps := by
  have hnodup' : ((candidates overlaps segment).map SpeechOverlap.id).Nodup := by
    rw [candidates_eq hordered]
    exact hnodup.sublist (List.filter_sublist.map _)
  by_cases h : Anchored segment
  · have hids : ∀ word ∈ segment.words, ids word.start word.stop (candidates overlaps segment) =
        ids word.start word.stop overlaps := by
      intro word hword
      rw [ids_eq, ids_eq, filter_candidates hordered]
      exact fun o _ hmeets => .inr ⟨word, hword, of_decide_eq_true hmeets⟩
    obtain ⟨starts, hstarts⟩ := Option.isSome_iff_exists.mp
      ((anchors_isSome segment.text.toList 0 segment.words).mpr h.2)
    rw [splitSegment, if_neg h.1, splitSegment, if_neg h.1, List.map_congr_left hids, hstarts]
  · rw [splitSegment_whole hnodup' h, splitSegment_whole hnodup h, filter_candidates hordered]
    exact fun o _ => of_decide_eq_true

/-- Every word keeps its place and its speaker. -/
theorem words_splitSegment (hnodup : (overlaps.map SpeechOverlap.id).Nodup) :
    ((splitSegment segment overlaps).flatMap fun piece =>
      piece.words.map fun word => (word, piece.speaker)) =
      segment.words.map fun word => (word, segment.speaker) := by
  have hspeaker : ∀ piece ∈ splitSegment segment overlaps, piece.speaker = segment.speaker := by
    intro piece hpiece
    obtain ⟨part, ids, rfl, hpart⟩ := mem_splitSegment segment overlaps hpiece
    exact hpart
  have hwords : (splitSegment segment overlaps).flatMap Segment.words = segment.words := by
    by_cases h : Anchored segment
    · obtain ⟨anchored, hw, -, -, -, hview⟩ := splitSegment_anchored overlaps h
      have hview := congrArg (List.map Prod.fst) hview
      rw [List.map_map, List.map_map] at hview
      calc (splitSegment segment overlaps).flatMap Segment.words
          = ((splitSegment segment overlaps).map Segment.words).flatten := List.flatMap_def
        _ = ((pieces sameIds anchored).map (List.map AnchoredWord.word)).flatten :=
            congrArg List.flatten hview
        _ = segment.words := by rw [← List.map_flatten, flatten_pieces, hw]
    · rw [splitSegment_whole hnodup h, List.flatMap_singleton, annotate_words]
  calc ((splitSegment segment overlaps).flatMap fun piece =>
        piece.words.map fun word => (word, piece.speaker))
      = (splitSegment segment overlaps).flatMap fun piece =>
          piece.words.map fun word => (word, segment.speaker) :=
        List.flatMap_congr fun piece hpiece => by rw [hspeaker piece hpiece]
    _ = segment.words.map fun word => (word, segment.speaker) := by
        rw [← List.map_flatMap, hwords]

/-- Words in one part have the overlaps of its first, and two parts in a row differ. -/
theorem pieces_sameIds (anchored : List AnchoredWord) :
    (∀ part ∈ pieces sameIds anchored, part ≠ [] ∧ ∀ a ∈ part, a.ids = partIds part) ∧
      (pieces sameIds anchored).IsChain fun p q => partIds p ≠ partIds q := by
  have htake (first : AnchoredWord) (rest : List AnchoredWord) :
      rest.take (sameIds first rest) = rest.takeWhile fun other => other.ids = first.ids :=
    (List.prefix_iff_eq_take.mp (List.takeWhile_prefix _)).symm
  have hdrop (first : AnchoredWord) (rest : List AnchoredWord) :
      rest.drop (sameIds first rest) = rest.dropWhile fun other => other.ids = first.ids := by
    have h : rest.take (sameIds first rest) ++ rest.drop (sameIds first rest) =
        rest.take (sameIds first rest) ++ rest.dropWhile fun other => other.ids = first.ids := by
      rw [List.take_append_drop, htake, List.takeWhile_append_dropWhile]
    exact List.append_cancel_left h
  constructor
  · refine forall_pieces (P := fun part => part ≠ [] ∧ ∀ a ∈ part, a.ids = partIds part)
      (fun first rest => ⟨List.cons_ne_nil _ _, fun a ha => ?_⟩) anchored
    rcases List.mem_cons.mp ha with rfl | ha
    · rfl
    · rw [htake] at ha
      have hids := List.mem_takeWhile_imp ha
      exact of_decide_eq_true hids
  · refine isChain_pieces anchored fun first rest b q _ hb heq => ?_
    have hne := List.head?_dropWhile_not (fun other => decide (other.ids = first.ids)) rest
    rw [← hdrop, hb] at hne
    exact of_decide_eq_false hne heq.symm

/-- **Every segment** comes out cut where the overlaps change, or whole with all it meets. -/
theorem splitSegment_ids (segment : Segment ℚ) (hnodup : (overlaps.map SpeechOverlap.id).Nodup) :
    (Anchored segment →
      (∀ piece ∈ splitSegment segment overlaps, piece.words ≠ [] ∧ ∀ word ∈ piece.words,
        piece.overlapIds =
          (overlaps.filter fun o => Meets o word.start word.stop).map SpeechOverlap.id) ∧
      (splitSegment segment overlaps).IsChain fun a b => a.overlapIds ≠ b.overlapIds) ∧
    (¬ Anchored segment → ∃ piece, splitSegment segment overlaps = [piece] ∧
      piece.overlapIds = (overlaps.filter fun o => MeetsAny o segment).map SpeechOverlap.id) := by
  refine ⟨fun h => ?_, fun h => ⟨_, splitSegment_whole hnodup h, rfl⟩⟩
  obtain ⟨anchored, -, -, hids, -, hview⟩ := splitSegment_anchored overlaps h
  obtain ⟨hsame, hchain⟩ := pieces_sameIds anchored
  constructor
  · intro piece hpiece
    obtain ⟨part, hpart, heq⟩ := List.mem_map.mp (hview ▸ List.mem_map_of_mem hpiece)
    obtain ⟨hwords, hpieceIds⟩ := Prod.mk.inj heq
    obtain ⟨hne, hall⟩ := hsame part hpart
    rw [← hwords, ← hpieceIds]
    refine ⟨fun hnil => hne (List.map_eq_nil_iff.mp hnil), fun word hword => ?_⟩
    obtain ⟨a, ha, rfl⟩ := List.mem_map.mp hword
    have hflatten : (pieces sameIds anchored).flatten = anchored := flatten_pieces anchored
    have hmem : a ∈ anchored := hflatten ▸ List.mem_flatten_of_mem hpart ha
    rw [← ids_eq, ← hids a hmem, hall a ha]
  · have h : ((pieces sameIds anchored).map fun part =>
        (part.map AnchoredWord.word, partIds part)).IsChain fun a b => a.2 ≠ b.2 :=
      List.isChain_map _ |>.mpr hchain
    rw [← hview] at h
    exact (List.isChain_map fun piece : Segment ℚ => (piece.words, piece.overlapIds)).mp h

/-- Where the text is the trimmed words joined by spaces, so is the text of every piece. -/
theorem splitSegment_text (hnodup : (overlaps.map SpeechOverlap.id).Nodup)
    (htext : segment.text = pyJoin " " (segment.words.map Word.word))
    (htrimmed : ∀ word ∈ segment.words, Trimmed word.word) :
    ∀ piece ∈ splitSegment segment overlaps,
      piece.text = pyJoin " " (piece.words.map Word.word) := by
  by_cases h : Anchored segment
  · obtain ⟨anchored, hw, hstarts, -, hor, -⟩ := splitSegment_anchored overlaps h
    rcases hor with ⟨ids, hor⟩ | hor
    · simpa [hor] using htext
    · have htext' : segment.text.toList = joined anchored := by
        rw [htext, ← hw, joined, List.map_map]
        rfl
      have hdrop : segment.text.toList.drop 0 = [] ++ joined anchored := htext'
      have htrimmed' : ∀ a ∈ anchored, Trimmed a.word.word := fun a ha =>
        htrimmed a.word (hw ▸ List.mem_map_of_mem ha)
      have hplaced : Placed segment.text.toList anchored :=
        placed_of_anchors htrimmed' (.inl rfl) hdrop (hw ▸ hstarts)
      rw [hor]
      refine splitParts_text (fun part => ne_nil_of_mem_pieces) ?_ ?_ ?_ <;> rwa [flatten_pieces]
  · simpa [splitSegment_whole hnodup h] using htext

theorem segments_applySpeakerReview (result : TranscriptionResult ℚ) (review : SpeakerReview) :
    (applySpeakerReview result (some review)).segments =
      result.segments.flatMap fun segment => splitSegment segment review.overlaps :=
  List.flatMap_congr fun _ _ => splitSegment_candidates review.ordered review.ids_nodup

/-- A review moves no word and relabels none. -/
theorem spoken_applySpeakerReview (result : TranscriptionResult ℚ) (review : SpeakerReview) :
    ((applySpeakerReview result (some review)).segments.flatMap fun segment =>
      segment.words.map fun word => (word, segment.speaker)) =
      result.segments.flatMap fun segment =>
        segment.words.map fun word => (word, segment.speaker) := by
  rw [segments_applySpeakerReview, List.flatMap_assoc]
  exact List.flatMap_congr fun _ _ => words_splitSegment review.ids_nodup

/-- **The review of a transcript** is the plain one: every segment is cut against all overlaps,
every word keeps its place and its speaker, and a segment is provisional where it has overlaps. -/
theorem apply_speaker_review_annotates (result : TranscriptionResult ℚ) (review : SpeakerReview) :
    (applySpeakerReview result (some review)).segments =
      result.segments.flatMap (fun segment => splitSegment segment review.overlaps) ∧
    ((applySpeakerReview result (some review)).segments.flatMap fun segment =>
      segment.words.map fun word => (word, segment.speaker)) =
      (result.segments.flatMap fun segment =>
        segment.words.map fun word => (word, segment.speaker)) ∧
    (∀ segment ∈ (applySpeakerReview result (some review)).segments,
      segment.speakerAttribution = some .provisional ↔ segment.overlapIds ≠ []) ∧
    ∀ segment ∈ result.segments,
      (Anchored segment →
        (∀ piece ∈ splitSegment segment review.overlaps, piece.words ≠ [] ∧
          ∀ word ∈ piece.words, piece.overlapIds =
            (review.overlaps.filter fun o => Meets o word.start word.stop).map SpeechOverlap.id) ∧
        (splitSegment segment review.overlaps).IsChain fun a b => a.overlapIds ≠ b.overlapIds) ∧
      (¬ Anchored segment → ∃ piece, splitSegment segment review.overlaps = [piece] ∧
        piece.overlapIds =
          (review.overlaps.filter fun o => MeetsAny o segment).map SpeechOverlap.id) ∧
      (segment.text = pyJoin " " (segment.words.map Word.word) →
        (∀ word ∈ segment.words, Trimmed word.word) →
        ∀ piece ∈ splitSegment segment review.overlaps,
          piece.text = pyJoin " " (piece.words.map Word.word)) := by
  refine ⟨segments_applySpeakerReview result review, spoken_applySpeakerReview result review,
    fun segment hsegment => ?_, fun segment _ => ?_⟩
  · rw [segments_applySpeakerReview] at hsegment
    obtain ⟨whole, -, hpiece⟩ := List.mem_flatMap.mp hsegment
    obtain ⟨part, ids, rfl, -⟩ := mem_splitSegment whole review.overlaps hpiece
    exact annotate_provisional part ids
  · obtain ⟨hanchored, hwhole⟩ := splitSegment_ids segment review.ids_nodup
    exact ⟨hanchored, hwhole, splitSegment_text review.ids_nodup⟩

end Review

end Vemsa.Pipeline

import Vemsa.Support.Sorting
import Vemsa.Pipeline.Label

/-!
# Pipeline — Pauses

A pause cannot hide a compressed timeline.  Two timelines are compared whose words differ in when
they are said only: each word comes with its delay on the second one.  In start order the delay may
stay the same from one word to the next (`Kept`), grow across a pause that is long already
(`Lengthened`), or grow so that a short pause becomes a long one (`Raised`).  Where one pause changes,
the delay is zero up to it and one number after it.

* `sortedBy_moved`: the words keep their start order.
* `lessPauses_lengthened`, `lessPauses_raised`: what the pauses leave of the speaking time, on both.
-/

namespace Vemsa.Pipeline
open Vemsa.Support Vemsa.Jobs

/-- The word, said later by `delay`. -/
def saidLater (delay : ℚ) (word : Word ℚ) : Word ℚ :=
  { word with start := word.start + delay, stop := word.stop + delay }

/-- A word, and how much later it is on the second timeline. -/
structure Delayed where
  word : Word ℚ
  delay : ℚ

/-- The word on the second timeline. -/
def Delayed.moved (x : Delayed) : Word ℚ := saidLater x.delay x.word

/-- The pause between two words; it is negative where they overlap. -/
def pause (previous current : Delayed) : ℚ := current.word.start - previous.word.stop

def Kept (previous current : Delayed) : Prop := previous.delay = current.delay

def Lengthened (previous current : Delayed) : Prop :=
  plausiblePauseGapS < pause previous current ∧ previous.delay ≤ current.delay

def Raised (previous current : Delayed) : Prop :=
  0 ≤ pause previous current ∧ pause previous current ≤ plausiblePauseGapS ∧
    plausiblePauseGapS < pause previous current + (current.delay - previous.delay)

instance (previous current : Delayed) : Decidable (Kept previous current) :=
  inferInstanceAs (Decidable (previous.delay = current.delay))

instance (previous current : Delayed) : Decidable (Lengthened previous current) :=
  inferInstanceAs (Decidable (_ ∧ _))

instance (previous current : Delayed) : Decidable (Raised previous current) :=
  inferInstanceAs (Decidable (_ ∧ _ ∧ _))

/-- The words in the order they start in on the first timeline. -/
def inStartOrder (words : List Delayed) : List Delayed := sortedBy (fun x => x.word.start) words

section Pauses

variable {words : List Delayed} {x : Delayed} {rest : List Delayed} {speakingTime : ℚ}

/-! ### Start order -/

theorem delay_le_of_lengthened {previous current : Delayed}
    (h : Kept previous current ∨ Lengthened previous current) : previous.delay ≤ current.delay :=
  h.elim le_of_eq And.right

theorem delay_le_of_raised {previous current : Delayed}
    (h : Kept previous current ∨ Lengthened previous current ∨ Raised previous current) :
    previous.delay ≤ current.delay := by
  rcases h with hkept | hlong | ⟨-, hshort, hraised⟩
  · exact hkept.le
  · exact hlong.2
  · linarith

/-- **The words keep their order** where no delay is less than the one before it. -/
theorem sortedBy_moved (h : (inStartOrder words).IsChain fun p c => p.delay ≤ c.delay) :
    sortedBy Word.start (words.map Delayed.moved) = (inStartOrder words).map Delayed.moved := by
  have hdelays : (inStartOrder words).Pairwise fun a b => a.delay ≤ b.delay := by
    have : IsTrans Delayed fun a b => a.delay ≤ b.delay := ⟨fun _ _ _ => le_trans⟩
    exact List.isChain_iff_pairwise.mp h
  have hstarts := (stablySorted_sortedBy (fun x : Delayed => x.word.start) words).ordered
  rw [sortedBy_map]
  refine congrArg (List.map Delayed.moved) (sortedBy_refine ?_)
  refine (hdelays.and hstarts).imp fun {a b} hab => ?_
  obtain ⟨hdelay, hstart⟩ := hab
  change a.word.start + a.delay ≤ b.word.start + b.delay ∧
    (a.word.start + a.delay = b.word.start + b.delay → a.word.start = b.word.start)
  exact ⟨by linarith, fun heq => by linarith⟩

theorem sortedBy_word (words : List Delayed) :
    sortedBy Word.start (words.map Delayed.word) = (inStartOrder words).map Delayed.word :=
  sortedBy_map _ _ _

/-! ### Speaking time -/

theorem lessPauses_mono {s t : ℚ} (h : s ≤ t) (ordered : List (Word ℚ)) :
    lessPauses s ordered ≤ lessPauses t ordered := by
  induction ordered generalizing s t with
  | nil => exact h
  | cons previous ordered ih =>
      cases ordered with
      | nil => exact h
      | cons current rest =>
          simp only [lessPauses]
          split
          · exact ih (by linarith)
          · exact ih h

/-- What one pause leaves. -/
def lessPause (speakingTime gap : ℚ) : ℚ :=
  if plausiblePauseGapS < gap then speakingTime - gap else speakingTime

theorem lessPauses_cons (speakingTime : ℚ) (previous current : Word ℚ) (rest : List (Word ℚ)) :
    lessPauses speakingTime (previous :: current :: rest) =
      lessPauses (lessPause speakingTime (current.start - previous.stop)) (current :: rest) := rfl

theorem pause_moved (previous current : Delayed) :
    current.moved.start - previous.moved.stop =
      pause previous current + (current.delay - previous.delay) := by
  simp only [Delayed.moved, saidLater, pause]
  ring

/-- One step, with `ahead` still to come. -/
theorem lessPause_lengthened {previous current : Delayed}
    (h : Kept previous current ∨ Lengthened previous current) (ahead : ℚ) :
    lessPause (speakingTime + (ahead - previous.delay))
        (pause previous current + (current.delay - previous.delay)) =
      lessPause speakingTime (pause previous current) + (ahead - current.delay) := by
  rcases h with hkept | ⟨hlong, hdelay⟩
  · rw [hkept, sub_self, add_zero]
    simp only [lessPause]
    split
    · ring
    · rfl
  · have hlonger : plausiblePauseGapS < pause previous current + (current.delay - previous.delay) := by
      linarith
    rw [lessPause, lessPause, if_pos hlong, if_pos hlonger]
    ring

theorem lessPause_raised {previous current : Delayed}
    (h : Kept previous current ∨ Lengthened previous current ∨ Raised previous current) (ahead : ℚ) :
    lessPause (speakingTime + (ahead - previous.delay))
        (pause previous current + (current.delay - previous.delay)) ≤
      lessPause speakingTime (pause previous current) + (ahead - current.delay) := by
  rcases or_assoc.mpr h with hsame | ⟨hpause, hshort, hlong⟩
  · exact (lessPause_lengthened hsame ahead).le
  · rw [lessPause, lessPause, if_pos hlong, if_neg hshort.not_gt]
    linarith

/-- **A longer pause** takes from the speaking time what it adds to the span. -/
theorem lessPauses_lengthened (h : (x :: rest).IsChain fun p c => Kept p c ∨ Lengthened p c) :
    lessPauses (speakingTime + (((x :: rest).getLast (by simp)).delay - x.delay))
        ((x :: rest).map Delayed.moved) =
      lessPauses speakingTime ((x :: rest).map Delayed.word) := by
  induction rest generalizing x speakingTime with
  | nil => simp [lessPauses]
  | cons current rest ih =>
      obtain ⟨hstep, hrest⟩ := List.isChain_cons_cons.mp h
      simp only [List.map_cons, lessPauses_cons, pause_moved] at ih ⊢
      rw [List.getLast_cons (by simp), lessPause_lengthened hstep, ih hrest]
      rfl

/-- **A raised pause** takes more than that. -/
theorem lessPauses_raised
    (h : (x :: rest).IsChain fun p c => Kept p c ∨ Lengthened p c ∨ Raised p c) :
    lessPauses (speakingTime + (((x :: rest).getLast (by simp)).delay - x.delay))
        ((x :: rest).map Delayed.moved) ≤
      lessPauses speakingTime ((x :: rest).map Delayed.word) := by
  induction rest generalizing x speakingTime with
  | nil => simp [lessPauses]
  | cons current rest ih =>
      obtain ⟨hstep, hrest⟩ := List.isChain_cons_cons.mp h
      simp only [List.map_cons, lessPauses_cons, pause_moved] at ih ⊢
      rw [List.getLast_cons (by simp)]
      refine (lessPauses_mono (lessPause_raised hstep _) _).trans ((ih hrest).trans_eq ?_)
      rfl

/-! ### The verdict -/

/-- The speaking time that `words_plausible` comes to. -/
def speakingTimeOf (ordered : List (Word ℚ)) (h : ordered ≠ []) : ℚ :=
  lessPauses ((ordered.getLast h).stop - (ordered.head h).start) ordered

theorem span_moved (h : x :: rest ≠ []) :
    (((x :: rest).map Delayed.moved).getLast (by simp)).stop - x.moved.start =
      (((x :: rest).map Delayed.word).getLast (by simp)).stop - x.word.start +
        (((x :: rest).getLast h).delay - x.delay) := by
  simp only [List.getLast_map, Delayed.moved, saidLater]
  ring

theorem speakingTimeOf_lengthened (h : (x :: rest).IsChain fun p c => Kept p c ∨ Lengthened p c) :
    speakingTimeOf ((x :: rest).map Delayed.moved) (by simp) =
      speakingTimeOf ((x :: rest).map Delayed.word) (by simp) :=
  (congrArg (lessPauses · _) (span_moved (by simp))).trans (lessPauses_lengthened h)

theorem speakingTimeOf_raised
    (h : (x :: rest).IsChain fun p c => Kept p c ∨ Lengthened p c ∨ Raised p c) :
    speakingTimeOf ((x :: rest).map Delayed.moved) (by simp) ≤
      speakingTimeOf ((x :: rest).map Delayed.word) (by simp) :=
  (congrArg (lessPauses · _) (span_moved (by simp))).trans_le (lessPauses_raised h)

theorem wordsPlausible_iff {timeline ordered : List (Word ℚ)} (hne : ordered ≠ [])
    (hordered : sortedBy Word.start timeline = ordered) :
    wordsPlausible timeline = true ↔ timeline.length < plausibleMinWords ∨
      0 < speakingTimeOf ordered hne ∧
        (ordered.length : ℚ) ≤ plausibleMaxWordsPerSecond * speakingTimeOf ordered hne := by
  subst hordered
  simp only [wordsPlausible, dif_neg hne]
  by_cases hfew : timeline.length < plausibleMinWords
  · simp [hfew]
  · rw [if_neg hfew, or_iff_right hfew]
    change (if speakingTimeOf _ hne ≤ 0 then false else decide (_ / speakingTimeOf _ hne ≤ _)) = true ↔ _
    split
    · rename_i hnone
      simp [hnone.not_gt]
    · rename_i hsome
      rw [decide_eq_true_eq, div_le_iff₀ (not_le.mp hsome)]
      exact (and_iff_right (not_le.mp hsome)).symm

/-- **Less speaking time** for the same words is no more plausible. -/
theorem wordsPlausible_mono {timeline timeline' ordered ordered' : List (Word ℚ)} (hne : ordered ≠ [])
    (hne' : ordered' ≠ []) (hordered : sortedBy Word.start timeline = ordered)
    (hordered' : sortedBy Word.start timeline' = ordered') (hlength : timeline'.length = timeline.length)
    (htime : speakingTimeOf ordered' hne' ≤ speakingTimeOf ordered hne)
    (h : wordsPlausible timeline' = true) : wordsPlausible timeline = true := by
  have hlengths : ordered'.length = ordered.length := by
    rw [← hordered, ← hordered', (stablySorted_sortedBy _ _).perm.length_eq,
      (stablySorted_sortedBy _ _).perm.length_eq, hlength]
  rw [wordsPlausible_iff hne' hordered', hlength, hlengths] at h
  rw [wordsPlausible_iff hne hordered]
  refine h.imp_right fun ⟨hpos, hrate⟩ => ⟨hpos.trans_le htime, hrate.trans ?_⟩
  exact mul_le_mul_of_nonneg_left htime (by norm_num [plausibleMaxWordsPerSecond])

theorem verdict_of_raised
    (h : (inStartOrder words).IsChain fun p c => Kept p c ∨ Lengthened p c ∨ Raised p c)
    (hmoved : wordsPlausible (words.map Delayed.moved) = true) :
    wordsPlausible (words.map Delayed.word) = true := by
  have hlength : (words.map Delayed.moved).length = (words.map Delayed.word).length := by simp
  have hsorted := sortedBy_moved (h.imp fun _ _ => delay_le_of_raised)
  cases hordered : inStartOrder words with
  | nil =>
      obtain rfl := sortedBy_eq_nil.mp hordered
      exact hmoved
  | cons x rest =>
      rw [hordered] at h hsorted
      exact wordsPlausible_mono (by simp) (by simp) ((sortedBy_word words).trans (by rw [hordered]))
        hsorted hlength (speakingTimeOf_raised h) hmoved

theorem verdict_of_lengthened (h : (inStartOrder words).IsChain fun p c => Kept p c ∨ Lengthened p c) :
    wordsPlausible (words.map Delayed.moved) = wordsPlausible (words.map Delayed.word) := by
  have hlength : (words.map Delayed.word).length = (words.map Delayed.moved).length := by simp
  refine Bool.eq_iff_iff.mpr ⟨verdict_of_raised (h.imp fun _ _ => or_assoc.mp ∘ .inl), fun hword => ?_⟩
  have hsorted := sortedBy_moved (h.imp fun _ _ => delay_le_of_lengthened)
  cases hordered : inStartOrder words with
  | nil =>
      obtain rfl := sortedBy_eq_nil.mp hordered
      exact hword
  | cons x rest =>
      rw [hordered] at h hsorted
      exact wordsPlausible_mono (by simp) (by simp) hsorted
        ((sortedBy_word words).trans (by rw [hordered])) hlength (speakingTimeOf_lengthened h).ge hword

theorem verdict_of_saidLater (delay : ℚ) (timeline : List (Word ℚ)) :
    wordsPlausible (timeline.map (saidLater delay)) = wordsPlausible timeline := by
  have hsame : (inStartOrder (timeline.map (Delayed.mk · delay))).IsChain
      fun p c => Kept p c ∨ Lengthened p c := by
    refine (List.pairwise_of_forall_mem_list fun a ha b hb => .inl ?_).isChain
    have hdelay : ∀ y ∈ inStartOrder (timeline.map (Delayed.mk · delay)), y.delay = delay := fun y hy => by
      obtain ⟨word, -, rfl⟩ := List.mem_map.mp ((stablySorted_sortedBy _ _).perm.mem_iff.mp hy)
      rfl
    exact (hdelay a ha).trans (hdelay b hb).symm
  have hverdict := verdict_of_lengthened hsame
  simpa [Function.comp_def, Delayed.moved] using hverdict

theorem verdict_of_perm {timeline timeline' : List (Word ℚ)} (hperm : timeline.Perm timeline')
    (hstarts : (timeline.map Word.start).Nodup) :
    wordsPlausible timeline = wordsPlausible timeline' := by
  simp only [wordsPlausible, sortedBy_perm hperm hstarts, hperm.length_eq]

end Pauses

/-- **Pauses hide nothing.**  The verdict on a timeline stays as it is when pauses that are long already
are lengthened, when all words are said later or earlier, and when words with distinct starts are
permuted; and raising short pauses to long ones makes no rejected timeline accepted. -/
theorem pauses_hide_nothing :
    (∀ words : List Delayed, (inStartOrder words).IsChain (fun p c => Kept p c ∨ Lengthened p c) →
      wordsPlausible (words.map Delayed.moved) = wordsPlausible (words.map Delayed.word)) ∧
    (∀ (timeline : List (Word ℚ)) (delay : ℚ),
      wordsPlausible (timeline.map (saidLater delay)) = wordsPlausible timeline) ∧
    (∀ timeline timeline' : List (Word ℚ), timeline.Perm timeline' →
      (timeline.map Word.start).Nodup → wordsPlausible timeline = wordsPlausible timeline') ∧
    ∀ words : List Delayed,
      (inStartOrder words).IsChain (fun p c => Kept p c ∨ Lengthened p c ∨ Raised p c) →
      wordsPlausible (words.map Delayed.word) = false →
      wordsPlausible (words.map Delayed.moved) = false :=
  ⟨fun _ => verdict_of_lengthened, fun timeline delay => verdict_of_saidLater delay timeline,
    fun _ _ => verdict_of_perm, fun _ h hrejected => Bool.eq_false_of_not_eq_true fun hmoved => by
      rw [verdict_of_raised h hmoved] at hrejected
      cases hrejected⟩

/-- Six words in a breath, the last two later by `delay`. -/
def sixWords (gap delay : ℚ) : List Delayed :=
  [⟨⟨"f", gap + 4 / 5, gap + 9 / 10, none⟩, delay⟩, ⟨⟨"a", 0, 1 / 10, none⟩, 0⟩,
    ⟨⟨"b", 1 / 10, 1 / 5, none⟩, 0⟩, ⟨⟨"c", 1 / 5, 3 / 10, none⟩, 0⟩, ⟨⟨"d", 3 / 10, 2 / 5, none⟩, 0⟩,
    ⟨⟨"e", gap + 2 / 5, gap + 1 / 2, none⟩, delay⟩]

theorem sixWords_ordered :
    (inStartOrder (sixWords 2 5)).IsChain (fun p c => Kept p c ∨ Lengthened p c) ∧
      ((sixWords 2 5).map fun x => x.word.start).Nodup ∧
      (inStartOrder (sixWords (1 / 10) 5)).IsChain (fun p c => Kept p c ∨ Lengthened p c ∨ Raised p c) ∧
      wordsPlausible ((sixWords (1 / 10) 5).map Delayed.word) = false := by
  decide +kernel

/-- A long pause lengthened, all words earlier, all words in another order, and a short pause raised. -/
theorem pauses_hide_nothing_sixWords :
    wordsPlausible ((sixWords 2 5).map Delayed.moved) = wordsPlausible ((sixWords 2 5).map Delayed.word) ∧
      wordsPlausible (((sixWords 2 5).map Delayed.word).map (saidLater (-1))) =
        wordsPlausible ((sixWords 2 5).map Delayed.word) ∧
      wordsPlausible ((sixWords 2 5).map Delayed.word) =
        wordsPlausible ((sixWords 2 5).map Delayed.word).reverse ∧
      wordsPlausible ((sixWords (1 / 10) 5).map Delayed.moved) = false :=
  have ⟨hlengthened, hstarts, hraised, hrejected⟩ := sixWords_ordered
  have ⟨hlong, hshift, hperm, hraise⟩ := pauses_hide_nothing
  ⟨hlong _ hlengthened, hshift _ _, hperm _ _ (List.reverse_perm _).symm (List.map_map ▸ hstarts),
    hraise _ hraised hrejected⟩

end Vemsa.Pipeline

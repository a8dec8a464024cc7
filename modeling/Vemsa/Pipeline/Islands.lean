import Vemsa.Pipeline.AssignSpeakers

/-!
# Pipeline — Islands

`smoothIslands` goes over the runs of one label once.  Absorbing a run makes one run of three, and
that run is not looked at again, so islands may be left over (`merged_island`).

What is left over is only what smoothing made: in `smooth_islands_settled`, a run that could still be
absorbed has words whose label was another one before.  Smoothing twice gives the same labels exactly
where no such run is left (`smoothIslands_eq_self_iff`).
-/

namespace Vemsa.Pipeline
open Vemsa.Support Vemsa.Jobs

variable {τ : Type}

/-! ### Runs -/

/-- The words of a run, with its label. -/
def LabelRun.labelled (run : LabelRun τ) : List (Word τ × String) :=
  (run.first :: run.rest).map (·, run.label)

section Runs

variable {run other : LabelRun τ}

@[simp]
theorem LabelRun.length_labelled (run : LabelRun τ) : run.labelled.length = run.count := by
  simp [labelled, count]

theorem LabelRun.labelled_eq_cons (run : LabelRun τ) :
    run.labelled = (run.first, run.label) :: run.rest.map (·, run.label) := rfl

theorem LabelRun.getLast?_labelled (run : LabelRun τ) :
    run.labelled.getLast? = some (run.last, run.label) := by
  rw [labelled, List.getLast?_map, List.getLast?_eq_some_getLast (List.cons_ne_nil _ _)]
  rfl

theorem LabelRun.label_of_mem {p : Word τ × String} (h : p ∈ run.labelled) : p.2 = run.label := by
  obtain ⟨w, -, rfl⟩ := List.mem_map.mp h
  rfl

/-- Where a run begins inside another one, the label before it is its own. -/
theorem LabelRun.label_inside {front c back tail : List (Word τ × String)}
    (hother : other.labelled = front ++ c) (hc : c ≠ []) (h : c ++ tail = run.labelled ++ back)
    {before : Word τ} {neighbour : String} (hbefore : front.getLast? = some (before, neighbour)) :
    neighbour = run.label := by
  obtain ⟨q, c, rfl⟩ := List.exists_cons_of_ne_nil hc
  rw [run.labelled_eq_cons] at h
  obtain rfl := (List.cons.inj h).1
  have hbeside : (before, neighbour) ∈ other.labelled := by
    rw [hother]
    exact List.mem_append_left _ (List.mem_of_getLast? hbefore)
  have hhere : (run.first, run.label) ∈ other.labelled := by
    rw [hother]
    exact List.mem_append_right _ List.mem_cons_self
  exact (LabelRun.label_of_mem hbeside).trans (LabelRun.label_of_mem hhere).symm

theorem LabelRun.labelled_injective (h : run.labelled = other.labelled) : run = other := by
  obtain ⟨label, first, rest⟩ := run
  obtain ⟨label', first', rest'⟩ := other
  simp only [labelled, List.map_cons, List.cons.injEq, Prod.mk.injEq] at h
  obtain ⟨⟨rfl, rfl⟩, hrest⟩ := h
  rw [List.map_inj_right (f := fun w : Word τ => (w, label)) fun _ _ h => (Prod.mk.inj h).1] at hrest
  rw [hrest]

/-- One label for all words. -/
theorem zip_replicate (words : List (Word τ)) (label : String) :
    words.zip (List.replicate words.length label) = words.map (·, label) := by
  induction words with
  | nil => rfl
  | cons w words ih => rw [List.length_cons, List.replicate_succ, List.zip_cons_cons, ih, List.map_cons]

/-- The runs are the list, cut where the label changes. -/
theorem flatMap_labelRuns (labelled : List (Word τ × String)) :
    (labelRuns labelled).flatMap LabelRun.labelled = labelled := by
  induction labelled with
  | nil => rfl
  | cons p rest ih =>
      obtain ⟨word, label⟩ := p
      rw [labelRuns]
      split
      · rename_i h
        rw [h] at ih
        rw [← ih]
        rfl
      · rename_i run runs h
        rw [h, List.flatMap_cons] at ih
        split
        · rename_i heq
          rw [← ih, heq]
          rfl
        · rw [← ih]
          rfl

theorem isChain_labelRuns (labelled : List (Word τ × String)) :
    (labelRuns labelled).IsChain fun a b => a.label ≠ b.label := by
  induction labelled with
  | nil => exact .nil
  | cons p rest ih =>
      obtain ⟨word, label⟩ := p
      rw [labelRuns]
      split
      · exact .singleton _
      · rename_i run runs h
        rw [h] at ih
        split
        · rename_i heq
          cases ih with
          | singleton => exact .singleton _
          | cons_cons hne hrest => exact .cons_cons (heq ▸ hne) hrest
        · rename_i hne
          exact .cons_cons hne ih

/-- A run goes on as long as its label does. -/
theorem LabelRun.count_le {rest back : List (Word τ × String)}
    (h : other.labelled ++ rest = run.labelled ++ back) (hlabel : other.label = run.label)
    (hback : ∀ p ∈ back.head?, p.2 ≠ run.label) : other.count ≤ run.count := by
  rw [← length_labelled, ← length_labelled]
  rcases List.append_eq_append_iff.mp h with ⟨c, hc, -⟩ | ⟨c, hc, hrest⟩
  · rw [hc, List.length_append]
    exact Nat.le_add_right _ _
  · cases c with
    | nil => rw [hc, List.append_nil]
    | cons p c =>
        have hp : p ∈ other.labelled := hc ▸ List.mem_append_right _ List.mem_cons_self
        exact absurd ((label_of_mem hp).trans hlabel) (hback p (by rw [hrest]; rfl))

theorem LabelRun.map_snd_labelled (run : LabelRun τ) :
    run.labelled.map Prod.snd = List.replicate run.count run.label := by
  rw [labelled, List.map_map, count]
  exact List.map_const'

theorem LabelRun.map_fst_labelled (run : LabelRun τ) :
    run.labelled.map Prod.fst = run.first :: run.rest := by
  rw [labelled, List.map_map]
  exact List.map_id _

theorem map_fst_flatMap_labelled (runs : List (LabelRun τ)) :
    (runs.flatMap LabelRun.labelled).map Prod.fst = runs.flatMap fun run => run.first :: run.rest := by
  rw [List.map_flatMap]
  exact List.flatMap_congr fun run _ => run.map_fst_labelled

theorem length_flatMap_labelled (runs : List (LabelRun τ)) :
    (runs.flatMap LabelRun.labelled).length = (runs.map LabelRun.count).sum := by
  simp [List.length_flatMap]

theorem head?_flatMap_labelled (runs : List (LabelRun τ)) :
    (runs.flatMap LabelRun.labelled).head? = runs.head?.map fun run => (run.first, run.label) := by
  cases runs with
  | nil => rfl
  | cons run runs => rfl

end Runs

/-! ### What smoothing leaves -/

section Smooth

variable [Clock τ] (L : Letters) (maxWords : ℤ) (maxDurationS maxSpanS : τ)

/-- Of the runs, `run` is one that smoothing absorbs; `front` are the runs before it. -/
def IslandAfter (runs front : List (LabelRun τ)) (run : LabelRun τ) : Prop :=
  ∃ before a next back, front = before ++ [a] ∧ runs = front ++ run :: next :: back ∧
    absorbed L maxWords maxDurationS maxSpanS a.label a.last run next

/-- The runs with their labels as smoothed; one after an absorbed run has its label. -/
def smoothedRuns (previous : Option (Word τ × String)) : List (LabelRun τ) → List (LabelRun τ)
  | [] => []
  | run :: runs =>
    let label := smoothedLabel L maxWords maxDurationS maxSpanS previous run runs.head?
    { run with label } :: smoothedRuns (some (run.last, label)) runs

variable {L maxWords maxDurationS maxSpanS} {previous : Option (Word τ × String)}
  {runs : List (LabelRun τ)} {run next : LabelRun τ}

theorem zip_smoothFrom : (runs.flatMap fun run => run.first :: run.rest).zip
      (smoothFrom L maxWords maxDurationS maxSpanS previous runs) =
    (smoothedRuns L maxWords maxDurationS maxSpanS previous runs).flatMap LabelRun.labelled := by
  induction runs generalizing previous with
  | nil => rfl
  | cons run runs ih =>
      rw [smoothFrom, smoothedRuns, List.flatMap_cons, List.flatMap_cons, ← ih,
        List.zip_append (by simp [LabelRun.count])]
      exact congrArg (· ++ _) (zip_replicate _ _)

/-- The label of a run that was not absorbed is its own. -/
theorem smoothedLabel_eq_self_iff {before : Word τ} {neighbour : String} :
    smoothedLabel L maxWords maxDurationS maxSpanS (some (before, neighbour)) run (some next) =
        run.label ↔
      ¬ absorbed L maxWords maxDurationS maxSpanS neighbour before run next := by
  rw [smoothedLabel]
  split
  · rename_i h
    refine iff_of_false (fun heq => ?_) (not_not.mpr h)
    simp only [absorbed, decide_eq_true_eq] at h
    exact h.2.1 heq
  · rename_i h
    exact iff_of_true rfl h

theorem absorbed_congr {before : Word τ} {neighbour : String} {next' : LabelRun τ}
    (hlabel : next.label = next'.label) (hfirst : next.first = next'.first) :
    absorbed L maxWords maxDurationS maxSpanS neighbour before run next =
      absorbed L maxWords maxDurationS maxSpanS neighbour before run next' := by
  rw [absorbed, absorbed, hlabel, hfirst]

theorem next_label_of_absorbed {before : Word τ} {neighbour : String}
    (h : absorbed L maxWords maxDurationS maxSpanS neighbour before run next) :
    neighbour = next.label ∧ neighbour ≠ run.label := by
  simp only [absorbed, decide_eq_true_eq] at h
  exact ⟨h.1, h.2.1⟩

/-- The first run, if it was kept. -/
theorem not_absorbed_of_first_kept {first : LabelRun τ} {rest : List (LabelRun τ)}
    (hchain : (first :: rest).IsChain fun a b => a.label ≠ b.label)
    {back back' : List (Word τ × String)} {before : Word τ} {neighbour : String}
    (hout : (smoothedRuns L maxWords maxDurationS maxSpanS (some (before, neighbour))
      (first :: rest)).flatMap LabelRun.labelled = run.labelled ++ back)
    (hin : (first :: rest).flatMap LabelRun.labelled = run.labelled ++ back')
    (hne : next.label ≠ run.label) (hback : back.head? = some (next.first, next.label)) :
    ¬ absorbed L maxWords maxDurationS maxSpanS neighbour before run next := by
  rw [smoothedRuns, List.flatMap_cons] at hout
  rw [List.flatMap_cons] at hin
  set label := smoothedLabel L maxWords maxDurationS maxSpanS (some (before, neighbour)) first
    rest.head? with hlabel
  have hown : label = run.label := by
    rw [run.labelled_eq_cons, LabelRun.labelled_eq_cons] at hout
    exact (Prod.mk.inj (List.cons.inj hout).1).2
  have hkept : run.label = first.label := by
    rw [run.labelled_eq_cons, LabelRun.labelled_eq_cons] at hin
    exact (Prod.mk.inj (List.cons.inj hin).1).2.symm
  -- as labelled now the run ends here, as labelled before it began here
  have hle : first.count ≤ run.count :=
    show LabelRun.count { first with label } ≤ run.count from LabelRun.count_le hout hown fun p hp => by
      obtain rfl := Option.some.inj (hback.symm.trans hp)
      exact hne
  have hge : run.count ≤ first.count := by
    refine LabelRun.count_le hin.symm hkept fun p hp => ?_
    rw [head?_flatMap_labelled] at hp
    obtain ⟨r, hr, rfl⟩ := Option.mem_map.mp hp
    exact ((List.isChain_cons.mp hchain).1 r hr).symm
  obtain ⟨hrun, -⟩ := List.append_inj hin (by
    rw [LabelRun.length_labelled, LabelRun.length_labelled]
    omega)
  obtain rfl := LabelRun.labelled_injective hrun
  obtain ⟨-, hrest⟩ := List.append_inj hout (by
    rw [LabelRun.length_labelled, LabelRun.length_labelled]
    rfl)
  rw [← hrest, head?_flatMap_labelled] at hback
  cases rest with
  | nil => simp [smoothedRuns] at hback
  | cons second rest =>
      have hsettled : ¬ absorbed L maxWords maxDurationS maxSpanS neighbour before first second :=
        smoothedLabel_eq_self_iff.mp (hlabel.symm.trans hown)
      simp only [smoothedRuns, List.head?_cons, Option.map_some, Option.some.injEq, Prod.mk.injEq] at hback
      obtain ⟨hfirst, hsecond⟩ := hback
      rw [← absorbed_congr ?_ hfirst]
      · exact hsettled
      · -- the second run was not absorbed into the first, whose label `next` does not have
        have hmem := smoothedLabel_mem L maxWords maxDurationS maxSpanS (some (first.last, label)) second
          rest.head?
        rw [hsecond, Option.map_some, Option.toList_some, List.mem_append, List.mem_singleton,
          List.mem_singleton, hown] at hmem
        exact (hmem.resolve_left hne).symm

/-- **A run that smoothing left as it was is settled.**  `run` lies at one place in the words as
labelled before and after. -/
theorem not_absorbed_of_kept (hchain : runs.IsChain fun a b => a.label ≠ b.label)
    {front front' back back' : List (Word τ × String)}
    (hout : (smoothedRuns L maxWords maxDurationS maxSpanS previous runs).flatMap LabelRun.labelled =
      front ++ (run.labelled ++ back))
    (hin : runs.flatMap LabelRun.labelled = front' ++ (run.labelled ++ back'))
    (hlen : front.length = front'.length) {before : Word τ} {neighbour : String}
    (hbefore : front.getLast?.or previous = some (before, neighbour)) (hneighbour : neighbour ≠ run.label)
    (hne : next.label ≠ run.label) (hback : back.head? = some (next.first, next.label)) :
    ¬ absorbed L maxWords maxDurationS maxSpanS neighbour before run next := by
  induction runs generalizing previous front front' with
  | nil =>
      rw [smoothedRuns, List.flatMap_nil, run.labelled_eq_cons] at hout
      simp at hout
  | cons first rest ih =>
      cases front with
      | nil =>
          obtain rfl : front' = [] := List.length_eq_zero_iff.mp hlen.symm
          rw [List.getLast?_nil, Option.none_or] at hbefore
          rw [hbefore] at hout
          exact not_absorbed_of_first_kept hchain hout hin hne hback
      | cons p front =>
          rw [smoothedRuns, List.flatMap_cons] at hout
          rw [List.flatMap_cons] at hin
          set label := smoothedLabel L maxWords maxDurationS maxSpanS previous first rest.head?
          have hA := List.prefix_append ({ first with label } : LabelRun τ).labelled
            ((smoothedRuns L maxWords maxDurationS maxSpanS (some (first.last, label)) rest).flatMap
              LabelRun.labelled)
          rw [hout] at hA
          rcases Nat.lt_or_ge (p :: front).length first.count with hlt | hge
          · obtain ⟨c, hc⟩ := List.prefix_of_prefix_length_le (List.prefix_append _ _) hA (by
              rw [LabelRun.length_labelled]
              exact hlt.le)
            rw [← hc, List.append_assoc, List.append_cancel_left_eq] at hout
            have hne : c ≠ [] := fun hnil => by
              rw [hnil, List.append_nil] at hc
              rw [hc, LabelRun.length_labelled] at hlt
              exact lt_irrefl _ hlt
            rw [Option.or_of_isSome (by simp)] at hbefore
            exact absurd (LabelRun.label_inside hc.symm hne hout hbefore) hneighbour
          · obtain ⟨c, hc⟩ := List.prefix_of_prefix_length_le hA (List.prefix_append _ _) (by
              rw [LabelRun.length_labelled]
              exact hge)
            have hB := List.prefix_append first.labelled (rest.flatMap LabelRun.labelled)
            rw [hin] at hB
            obtain ⟨c', hc'⟩ := List.prefix_of_prefix_length_le hB (List.prefix_append _ _) (by
              rw [LabelRun.length_labelled, ← hlen]
              exact hge)
            rw [← hc, List.append_assoc, List.append_cancel_left_eq] at hout
            rw [← hc', List.append_assoc, List.append_cancel_left_eq] at hin
            have hrest : c.length = c'.length := by
              rw [← hc, ← hc', List.length_append, List.length_append, LabelRun.length_labelled,
                LabelRun.length_labelled] at hlen
              exact Nat.add_left_cancel hlen
            refine ih (List.isChain_cons.mp hchain).2 hout hin hrest ?_
            rw [← hbefore, ← hc, List.getLast?_append, LabelRun.getLast?_labelled, Option.or_assoc,
              Option.some_or]
            rfl

/-! ### Islands left over -/

theorem islandAfter_cons {first : LabelRun τ} {rest front : List (LabelRun τ)} :
    IslandAfter L maxWords maxDurationS maxSpanS (first :: rest) front run ↔
      (∃ next back, front = [first] ∧ rest = run :: next :: back ∧
        absorbed L maxWords maxDurationS maxSpanS first.label first.last run next) ∨
      ∃ front', front = first :: front' ∧ IslandAfter L maxWords maxDurationS maxSpanS rest front' run := by
  constructor
  · rintro ⟨before, a, next, back, rfl, hruns, h⟩
    cases before with
    | nil =>
        obtain ⟨rfl, rfl⟩ := List.cons.inj hruns
        exact .inl ⟨next, back, rfl, rfl, h⟩
    | cons b before =>
        obtain ⟨rfl, hrest⟩ := List.cons.inj hruns
        exact .inr ⟨before ++ [a], rfl, before, a, next, back, rfl, hrest, h⟩
  · rintro (⟨next, back, rfl, rfl, h⟩ | ⟨front', rfl, before, a, next, back, rfl, rfl, h⟩)
    · exact ⟨[], first, next, back, rfl, rfl, h⟩
    · exact ⟨first :: before, a, next, back, rfl, rfl, h⟩

variable (L maxWords maxDurationS maxSpanS) in
/-- Smoothing changes nothing exactly where nothing is absorbed, neither the first run nor a later. -/
theorem smoothFrom_eq_iff (previous : Option (Word τ × String)) (runs : List (LabelRun τ)) :
    smoothFrom L maxWords maxDurationS maxSpanS previous runs =
        (runs.flatMap LabelRun.labelled).map Prod.snd ↔
      (∀ p ∈ previous, ∀ run next back, runs = run :: next :: back →
        ¬ absorbed L maxWords maxDurationS maxSpanS p.2 p.1 run next) ∧
      ∀ front run, ¬ IslandAfter L maxWords maxDurationS maxSpanS runs front run := by
  induction runs generalizing previous with
  | nil => simp [smoothFrom, IslandAfter]
  | cons first rest ih =>
      set label := smoothedLabel L maxWords maxDurationS maxSpanS previous first rest.head? with hlabel
      have hstep : smoothFrom L maxWords maxDurationS maxSpanS previous (first :: rest) =
            ((first :: rest).flatMap LabelRun.labelled).map Prod.snd ↔
          label = first.label ∧
            smoothFrom L maxWords maxDurationS maxSpanS (some (first.last, first.label)) rest =
              (rest.flatMap LabelRun.labelled).map Prod.snd := by
        rw [smoothFrom, List.flatMap_cons, List.map_append, LabelRun.map_snd_labelled,
          List.append_eq_append_iff_of_size_eq_left (by simp), List.replicate_inj]
        have hpos : first.count ≠ 0 := Nat.succ_ne_zero _
        simp only [true_and, hpos, false_or]
        exact and_congr_right fun h => by rw [h]
      have hfirst : label = first.label ↔ ∀ p ∈ previous, ∀ run next back,
          first :: rest = run :: next :: back →
            ¬ absorbed L maxWords maxDurationS maxSpanS p.2 p.1 run next := by
        cases previous with
        | none => simp [hlabel, smoothedLabel]
        | some p =>
            cases rest with
            | nil => simp [hlabel, smoothedLabel]
            | cons second rest =>
                rw [hlabel, List.head?_cons, smoothedLabel_eq_self_iff]
                simp
      have hlater : ((∀ p ∈ some (first.last, first.label), ∀ run next back, rest = run :: next :: back →
            ¬ absorbed L maxWords maxDurationS maxSpanS p.2 p.1 run next) ∧
          ∀ front run, ¬ IslandAfter L maxWords maxDurationS maxSpanS rest front run) ↔
          ∀ front run, ¬ IslandAfter L maxWords maxDurationS maxSpanS (first :: rest) front run := by
        constructor
        · rintro ⟨hsecond, hrest⟩ front run hisland
          rcases islandAfter_cons.mp hisland with ⟨next, back, -, hruns, h⟩ | ⟨front', -, h⟩
          · exact hsecond _ rfl run next back hruns h
          · exact hrest front' run h
        · rintro hall
          refine ⟨fun p hp run next back hruns h => ?_, fun front run h => ?_⟩
          · obtain rfl := Option.some.inj hp
            exact hall [first] run (islandAfter_cons.mpr (.inl ⟨next, back, rfl, hruns, h⟩))
          · exact hall (first :: front) run (islandAfter_cons.mpr (.inr ⟨front, rfl, h⟩))
      rw [hstep, ih, hfirst, hlater]

/-- **Smoothing changes nothing exactly where there is no island.** -/
theorem smoothIslands_eq_self_iff {words : List (Word τ)} {labels : List String}
    (hlen : labels.length = words.length) :
    smoothIslands L maxWords maxDurationS maxSpanS words labels = labels ↔
      ∀ front run,
        ¬ IslandAfter L maxWords maxDurationS maxSpanS (labelRuns (words.zip labels)) front run := by
  have h := smoothFrom_eq_iff L maxWords maxDurationS maxSpanS none (labelRuns (words.zip labels))
  rw [flatMap_labelRuns, List.map_snd_zip hlen.le] at h
  rw [smoothIslands, h]
  simp

variable (L maxWords maxDurationS maxSpanS) in
/-- **Islands left over are of smoothing's own making.**  Where `run` could still be absorbed, not
all of its words had its label before; and smoothing the labels again changes nothing exactly where
no such run is left. -/
theorem smooth_islands_settled {words : List (Word τ)} {labels : List String}
    (hlen : labels.length = words.length) :
    let out := smoothIslands L maxWords maxDurationS maxSpanS words labels
    (∀ front run, IslandAfter L maxWords maxDurationS maxSpanS (labelRuns (words.zip out)) front run →
      (labels.drop (front.map LabelRun.count).sum).take run.count ≠
        List.replicate run.count run.label) ∧
    (smoothIslands L maxWords maxDurationS maxSpanS words out = out ↔
      ∀ front run,
        ¬ IslandAfter L maxWords maxDurationS maxSpanS (labelRuns (words.zip out)) front run) := by
  intro out
  have hout : out.length = words.length := (length_smoothIslands _ _ _ _ hlen).trans hlen
  refine ⟨?_, smoothIslands_eq_self_iff hout⟩
  rintro front run ⟨before, a, next, back, hfront, hruns, habsorbed⟩ hkept
  obtain ⟨hnext, hne⟩ := next_label_of_absorbed habsorbed
  have hwords : words.zip out = front.flatMap LabelRun.labelled ++
      (run.labelled ++ (next :: back).flatMap LabelRun.labelled) := by
    rw [← flatMap_labelRuns (words.zip out), hruns, List.flatMap_append, List.flatMap_cons]
  have hplace := length_flatMap_labelled front
  -- the same words with the labels they had before
  have hslice : ((words.zip labels).drop (front.map LabelRun.count).sum).take run.count =
      run.labelled := by
    have h : (words.drop (front.map LabelRun.count).sum).take run.count = run.first :: run.rest := by
      have hmap := congrArg (List.map Prod.fst) hwords
      rw [List.map_fst_zip hout.ge, List.map_append, List.map_append, LabelRun.map_fst_labelled] at hmap
      rw [hmap, ← hplace, ← List.length_map Prod.fst, List.drop_left]
      exact List.take_left' rfl
    rw [List.zip_eq_zipWith, List.drop_zipWith, List.take_zipWith, h, hkept, ← List.zip_eq_zipWith]
    exact zip_replicate _ _
  have hin : (labelRuns (words.zip labels)).flatMap LabelRun.labelled =
      (words.zip labels).take (front.map LabelRun.count).sum ++ (run.labelled ++
        ((words.zip labels).drop (front.map LabelRun.count).sum).drop run.count) := by
    rw [flatMap_labelRuns, ← hslice, List.take_append_drop, List.take_append_drop]
  have hsmoothed : (smoothedRuns L maxWords maxDurationS maxSpanS none
      (labelRuns (words.zip labels))).flatMap LabelRun.labelled = words.zip out := by
    rw [← zip_smoothFrom, ← map_fst_flatMap_labelled, flatMap_labelRuns, List.map_fst_zip hlen.ge]
    rfl
  refine not_absorbed_of_kept (isChain_labelRuns _) (hsmoothed.trans hwords) hin ?_ ?_ hne
    (hnext ▸ hne) ?_ habsorbed
  · rw [List.length_take, hplace]
    have := congrArg List.length hwords
    simp only [List.length_zip, List.length_append, hout, hplace] at this
    simp only [List.length_zip, hlen]
    omega
  · rw [hfront, List.flatMap_append, List.getLast?_append, List.flatMap_singleton,
      LabelRun.getLast?_labelled]
    rfl
  · rfl

end Smooth

/-! ### Islands in a row

Three voices cut into each other within a second.  "b" takes over "c" between its two words, and only
then lies between two runs of "a". -/

def chatter : List (Word ℚ) :=
  [⟨"och", 0, 0.2, none⟩, ⟨"då", 0.2, 0.4, none⟩, ⟨"mm", 0.4, 0.6, none⟩, ⟨"sa", 0.6, 0.8, none⟩,
    ⟨"hon", 0.8, 1, none⟩]

theorem merged_island :
    ∃ out, smoothIslands .latin 2 1 3 chatter ["a", "b", "c", "b", "a"] = out ∧
      (∃ front run, IslandAfter .latin 2 1 3 (labelRuns (chatter.zip out)) front run) ∧
      smoothIslands .latin 2 1 3 chatter out ≠ out := by
  refine ⟨["a", "b", "b", "b", "a"], by decide +kernel, ?_, by decide +kernel⟩
  exact ⟨[⟨"a", ⟨"och", 0, 0.2, none⟩, []⟩], ⟨"b", ⟨"då", 0.2, 0.4, none⟩, chatter.tail.tail.take 2⟩, [],
    ⟨"a", ⟨"och", 0, 0.2, none⟩, []⟩, ⟨"a", ⟨"hon", 0.8, 1, none⟩, []⟩, [], rfl, rfl, by decide +kernel⟩

theorem smooth_islands_settled_chatter :
    let out := smoothIslands .latin 2 1 3 chatter ["a", "b", "c", "b", "a"]
    (∀ front run, IslandAfter .latin 2 1 3 (labelRuns (chatter.zip out)) front run →
      (["a", "b", "c", "b", "a"].drop (front.map LabelRun.count).sum).take run.count ≠
        List.replicate run.count run.label) ∧
    (smoothIslands .latin 2 1 3 chatter out = out ↔
      ∀ front run, ¬ IslandAfter .latin 2 1 3 (labelRuns (chatter.zip out)) front run) :=
  smooth_islands_settled .latin 2 1 3 rfl

end Vemsa.Pipeline

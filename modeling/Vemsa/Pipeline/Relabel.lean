import Vemsa.Pipeline.Shares

/-!
# Pipeline — Relabel

Clusters renamed after the labels a caller assigned.

* `callerLabel_eq_some`, `callerLabel_eq_none`: a cluster takes the label that earns it (`Earns`):
  enough of the cluster's overlap with labelled speech, and no other label holds more.
* `mem_freshNames`, `nodup_freshNames`: what the others are called is free, and theirs alone.
* `relabelTurns_rename`: nothing depends on what the clusters were called before, unless two that
  are left without a label speak equally long.
-/

namespace Vemsa.Pipeline
open Vemsa.Support Vemsa.Jobs

/-! ### Labels that are earned -/

section Earned

variable (minShare : ℚ) (spans turns : List (Turn ℚ))

/-- The turns of a cluster. -/
def turnsOf (cluster : String) : List (Turn ℚ) := turns.filter fun turn => turn.speaker = cluster

/-- How much of the cluster's speech a label holds. -/
def held (cluster label : String) : ℚ :=
  ((turnsOf turns cluster).map fun turn =>
    ((turnsOf spans label).map (overlap turn.start turn.stop)).sum).sum

/-- How much of the cluster's speech is labelled. -/
def labelledTime (cluster : String) : ℚ :=
  ((turnsOf turns cluster).map fun turn => (spans.map (overlap turn.start turn.stop)).sum).sum

/-- How long the cluster speaks. -/
def totalTime (cluster : String) : ℚ :=
  ((turnsOf turns cluster).map fun turn => turn.stop - turn.start).sum

/-- The label holds `minShare` of the cluster's labelled speech, and no other holds more. -/
structure Earns (cluster label : String) : Prop where
  pos : 0 < held spans turns cluster label
  enough : minShare * labelledTime spans turns cluster ≤ held spans turns cluster label
  most : ∀ other, held spans turns cluster other ≤ held spans turns cluster label

variable {minShare spans turns} {cluster label : String}

theorem amountOf_overlapByLabel :
    amountOf (overlapByLabel spans turns cluster) label = held spans turns cluster label :=
  (foldl_adds (f := fun shares => amountOf shares label)
    (fun _ turn => amountOf_addOverlaps turn.start turn.stop) _ []).trans (zero_add _)

theorem sumShares_overlapByLabel :
    sumShares (overlapByLabel spans turns cluster) = labelledTime spans turns cluster :=
  (foldl_adds (f := sumShares) (fun _ turn => sumShares_addOverlaps turn.start turn.stop) _ []).trans
    (zero_add _)

theorem nodup_overlapByLabel : ((overlapByLabel spans turns cluster).map Prod.fst).Nodup :=
  List.foldlRecOn (motive := fun sums : List (String × ℚ) => (sums.map Prod.fst).Nodup) _ _ List.nodup_nil
    fun _ hshares _ _ => nodup_addOverlaps hshares

theorem pos_overlapByLabel : ∀ entry ∈ overlapByLabel spans turns cluster, 0 < entry.2 :=
  List.foldlRecOn (motive := fun sums : List (String × ℚ) => ∀ entry ∈ sums, 0 < entry.2) _ _ (List.forall_mem_nil _)
    fun _ hshares _ _ => pos_addOverlaps hshares

/-- The entry that `max` finds. -/
theorem largest_entry {best : String} {share : ℚ}
    (h : (overlapByLabel spans turns cluster).argmax (fun entry => toLex (entry.2, entry.1)) =
      some (best, share)) :
    held spans turns cluster best = share ∧ 0 < share ∧
      ∀ other, held spans turns cluster other ≤ share := by
  have hmem := List.argmax_mem h
  have hpos := pos_overlapByLabel _ hmem
  refine ⟨?_, hpos, fun other => ?_⟩
  · rw [← amountOf_overlapByLabel]
    exact amountOf_of_mem nodup_overlapByLabel hmem
  · rw [← amountOf_overlapByLabel]
    by_cases hother : other ∈ (overlapByLabel spans turns cluster).map Prod.fst
    · obtain ⟨entry, hentry, rfl⟩ := List.mem_map.mp hother
      rw [amountOf_of_mem nodup_overlapByLabel hentry]
      have hle := List.le_of_mem_argmax hentry h
      rcases Prod.Lex.toLex_le_toLex.mp hle with hlt | ⟨heq, -⟩
      · exact hlt.le
      · exact heq.le
    · rw [amountOf_of_not_mem hother]
      exact hpos.le

theorem callerLabel_eq_some
    (h : callerLabel minShare (overlapByLabel spans turns cluster) = some label) :
    Earns minShare spans turns cluster label := by
  unfold callerLabel at h
  split at h
  · cases h
  · rename_i best share hbest
    obtain ⟨hheld, hpos, hmost⟩ := largest_entry hbest
    split at h
    · rename_i henough
      obtain rfl := Option.some.inj h
      rw [sumShares_overlapByLabel] at henough
      exact ⟨hheld.symm ▸ hpos, hheld.symm ▸ henough, hheld.symm ▸ hmost⟩
    · cases h

theorem callerLabel_eq_none
    (h : callerLabel minShare (overlapByLabel spans turns cluster) = none) :
    ¬ Earns minShare spans turns cluster label := by
  rintro ⟨hpos, henough, hmost⟩
  unfold callerLabel at h
  split at h
  · rename_i hnone
    rw [← amountOf_overlapByLabel, List.argmax_eq_none.mp hnone] at hpos
    exact lt_irrefl _ hpos
  · rename_i best share hbest
    obtain ⟨hheld, -, hshare⟩ := largest_entry hbest
    split at h
    · cases h
    · rename_i hfew
      -- no label holds more than `best`, so one that earned the cluster would hold as much
      rw [sumShares_overlapByLabel] at hfew
      exact hfew (henough.trans (hshare label))

theorem Earns.mem (h : Earns minShare spans turns cluster label) : label ∈ spans.map Turn.speaker := by
  by_contra hlabel
  have hnone : turnsOf spans label = [] := List.filter_eq_nil_iff.mpr fun span hspan heq =>
    hlabel (List.mem_map.mpr ⟨span, hspan, of_decide_eq_true heq⟩)
  have hzero : held spans turns cluster label = 0 := by simp [held, hnone]
  exact h.pos.ne' hzero

end Earned

/-! ### Free names -/

section Fresh

variable {taken taken' : List String} {index : ℕ} {clusters : List String}

theorem map_fst_freshNames : (freshNames taken index clusters).map Prod.fst = clusters := by
  induction clusters generalizing taken index with
  | nil => rfl
  | cons cluster rest ih => rw [freshNames, List.map_cons, ih]

/-- A name that is given is one of the numbered ones, and was free. -/
theorem mem_freshNames {entry : String × String} (h : entry ∈ freshNames taken index clusters) :
    (∃ n, entry.2 = speakerName n) ∧ entry.2 ∉ taken := by
  induction clusters generalizing taken index with
  | nil => cases h
  | cons cluster rest ih =>
      rcases List.mem_cons.mp h with rfl | h
      · exact ⟨⟨_, rfl⟩, Nat.find_spec (exists_fresh taken index)⟩
      · obtain ⟨hname, hfree⟩ := ih h
        exact ⟨hname, fun htaken => hfree (List.mem_cons_of_mem _ htaken)⟩

/-- No name is given twice. -/
theorem nodup_freshNames : ((freshNames taken index clusters).map Prod.snd).Nodup := by
  induction clusters generalizing taken index with
  | nil => exact List.nodup_nil
  | cons cluster rest ih =>
      rw [freshNames, List.map_cons]
      refine List.nodup_cons.mpr ⟨fun hmem => ?_, ih⟩
      obtain ⟨entry, hentry, heq⟩ := List.mem_map.mp hmem
      exact (mem_freshNames hentry).2 (heq ▸ List.mem_cons_self)

/-- Which names are given depends on how many are wanted and on which are taken. -/
theorem freshNames_map (σ : String → String) (htaken : ∀ name, name ∈ taken ↔ name ∈ taken') :
    freshNames taken index (clusters.map σ) =
      (freshNames taken' index clusters).map (Prod.map σ id) := by
  induction clusters generalizing taken taken' index with
  | nil => rfl
  | cons cluster rest ih =>
      have hfind : Nat.find (exists_fresh taken index) = Nat.find (exists_fresh taken' index) :=
        Nat.find_congr' (not_congr (htaken _))
      rw [List.map_cons, freshNames, freshNames, List.map_cons, hfind]
      refine congrArg₂ List.cons rfl (ih fun name => ?_)
      rw [List.mem_cons, List.mem_cons, htaken]

end Fresh

/-! ### The mapping -/

section Lookup

variable {cluster : String} {clusters : List String}

theorem lookup_matched (label : String → Option String) :
    (clusters.filterMap fun cluster => (label cluster).map (cluster, ·)).lookup cluster =
      if cluster ∈ clusters then label cluster else none := by
  induction clusters with
  | nil => rfl
  | cons first rest ih =>
      by_cases heq : cluster = first
      · subst heq
        cases hlabel : label cluster with
        | none => simp [hlabel, ih]
        | some name => simp [hlabel]
      · have hne : (cluster == first) = false := beq_false_of_ne heq
        cases hlabel : label first with
        | none => simp [hlabel, ih, heq]
        | some name => simp [hlabel, List.lookup_cons, hne, ih, heq]

theorem lookup_of_mem {mapping : List (String × String)} (h : cluster ∈ mapping.map Prod.fst) :
    ∃ name, mapping.lookup cluster = some name ∧ (cluster, name) ∈ mapping := by
  induction mapping with
  | nil => cases h
  | cons entry rest ih =>
      obtain ⟨first, name⟩ := entry
      rw [List.lookup_cons]
      by_cases heq : cluster = first
      · subst heq
        exact ⟨name, by simp, List.mem_cons_self⟩
      · have hne : (cluster == first) = false := beq_false_of_ne heq
        obtain ⟨name', hlookup, hmem⟩ := ih ((List.mem_cons.mp h).resolve_left heq)
        exact ⟨name', by rw [hne]; exact hlookup, List.mem_cons_of_mem _ hmem⟩

/-- A renamed mapping says of a renamed cluster what the mapping says of it. -/
theorem lookup_map {σ : String → String} {mapping : List (String × String)}
    (hσ : ∀ name ∈ mapping.map Prod.fst, σ cluster = σ name → cluster = name) :
    (mapping.map (Prod.map σ id)).lookup (σ cluster) = mapping.lookup cluster := by
  induction mapping with
  | nil => rfl
  | cons entry rest ih =>
      obtain ⟨first, name⟩ := entry
      obtain ⟨hfirst, hrest⟩ := List.forall_mem_cons.mp hσ
      rw [List.map_cons, Prod.map_apply, List.lookup_cons, List.lookup_cons, ih hrest]
      by_cases heq : cluster = first
      · simp [heq]
      · have hne : (cluster == first) = false := beq_false_of_ne heq
        have hneσ : (σ cluster == σ first) = false := beq_false_of_ne (mt hfirst heq)
        rw [hne, hneσ]

end Lookup

section Mapping

variable (minShare : ℚ) (spans turns : List (Turn ℚ))

/-- The clusters with their speaking times, the longest first. -/
def rankedClusters : List (String × ℚ) :=
  sortedBy (fun entry => toLex (0 - entry.2, entry.1)) (speakingTime turns)

/-- The caller's label of a cluster. -/
def labelOf (cluster : String) : Option String :=
  callerLabel minShare (overlapByLabel spans turns cluster)

/-- `unmatched` -/
def unmatchedClusters : List String :=
  ((rankedClusters turns).map Prod.fst).filter fun cluster =>
    (labelOf minShare spans turns cluster).isNone

/-- `mapping` before the unmatched clusters are named. -/
def matchedClusters : List (String × String) :=
  ((rankedClusters turns).map Prod.fst).filterMap fun cluster =>
    (labelOf minShare spans turns cluster).map (cluster, ·)

/-- `taken` -/
def takenNames : List String :=
  spans.map Turn.speaker ++ (matchedClusters minShare spans turns).map Prod.snd

theorem relabelling_eq : relabelling minShare spans turns =
    matchedClusters minShare spans turns ++
      freshNames (takenNames minShare spans turns) 0 (unmatchedClusters minShare spans turns) := rfl

variable {minShare spans turns} {cluster : String}

theorem names_speakingTime :
    cluster ∈ (speakingTime turns).map Prod.fst ↔ cluster ∈ turns.map Turn.speaker := by
  have hfold : ∀ (l : List (Turn ℚ)) (sums : List (String × ℚ)),
      cluster ∈ (l.foldl (fun sums turn => tally turn.speaker (turn.stop - turn.start) sums)
        sums).map Prod.fst ↔ cluster ∈ l.map Turn.speaker ∨ cluster ∈ sums.map Prod.fst := by
    intro l
    induction l with
    | nil => simp
    | cons turn rest ih =>
        intro sums
        rw [List.foldl_cons, ih, names_tally, List.map_cons, List.mem_cons]
        tauto
  rw [speakingTime, hfold]
  simp

theorem nodup_speakingTime : ((speakingTime turns).map Prod.fst).Nodup :=
  List.foldlRecOn (motive := fun sums : List (String × ℚ) => (sums.map Prod.fst).Nodup) turns _ List.nodup_nil
    fun _ hsums _ _ => nodup_tally hsums

theorem amountOf_speakingTime : amountOf (speakingTime turns) cluster = totalTime turns cluster := by
  have hfold : ∀ (l : List (Turn ℚ)) (sums : List (String × ℚ)),
      amountOf (l.foldl (fun sums turn => tally turn.speaker (turn.stop - turn.start) sums) sums)
        cluster = amountOf sums cluster + totalTime l cluster := by
    intro l
    induction l with
    | nil => simp [totalTime, turnsOf]
    | cons turn rest ih =>
        intro sums
        rw [List.foldl_cons, ih, amountOf_tally]
        by_cases h : turn.speaker = cluster <;> simp [h, totalTime, turnsOf, add_assoc]
  rw [speakingTime, hfold, amountOf_nil, zero_add]

theorem rankedClusters_perm : (rankedClusters turns).Perm (speakingTime turns) :=
  (stablySorted_sortedBy _ _).perm

theorem mem_rankedClusters :
    cluster ∈ (rankedClusters turns).map Prod.fst ↔ cluster ∈ turns.map Turn.speaker :=
  (rankedClusters_perm.map Prod.fst).mem_iff.trans names_speakingTime

theorem labelOf_earns {label : String} (h : labelOf minShare spans turns cluster = some label) :
    Earns minShare spans turns cluster label := callerLabel_eq_some h

theorem mem_unmatchedClusters : cluster ∈ unmatchedClusters minShare spans turns ↔
    cluster ∈ turns.map Turn.speaker ∧ labelOf minShare spans turns cluster = none := by
  rw [unmatchedClusters, List.mem_filter, mem_rankedClusters, Option.isNone_iff_eq_none]

/-- What the mapping says of a cluster. -/
theorem lookup_relabelling (minShare : ℚ) (spans : List (Turn ℚ))
    (h : cluster ∈ turns.map Turn.speaker) :
    (relabelling minShare spans turns).lookup cluster =
      (labelOf minShare spans turns cluster).or ((freshNames (takenNames minShare spans turns) 0
        (unmatchedClusters minShare spans turns)).lookup cluster) := by
  rw [relabelling_eq, List.lookup_append, matchedClusters, lookup_matched,
    if_pos (mem_rankedClusters.mpr h)]

theorem lookup_unmatched (h : cluster ∈ turns.map Turn.speaker)
    (hnone : labelOf minShare spans turns cluster = none) :
    ∃ name, (relabelling minShare spans turns).lookup cluster = some name ∧
      (cluster, name) ∈ freshNames (takenNames minShare spans turns) 0
        (unmatchedClusters minShare spans turns) := by
  rw [lookup_relabelling minShare spans h, hnone, Option.none_or]
  refine lookup_of_mem ?_
  rw [map_fst_freshNames]
  exact mem_unmatchedClusters.mpr ⟨h, hnone⟩

/-- Every cluster is in the mapping. -/
theorem lookup_isSome (minShare : ℚ) (spans : List (Turn ℚ))
    (h : cluster ∈ turns.map Turn.speaker) :
    ∃ name, (relabelling minShare spans turns).lookup cluster = some name := by
  cases hlabel : labelOf minShare spans turns cluster with
  | some label => exact ⟨label, by rw [lookup_relabelling minShare spans h, hlabel, Option.some_or]⟩
  | none =>
      obtain ⟨name, hname, -⟩ := lookup_unmatched h hlabel
      exact ⟨name, hname⟩

end Mapping

/-! ### Other names for the clusters -/

section Renamed

variable {minShare : ℚ} {spans turns : List (Turn ℚ)} {σ : String → String} {cluster : String}

/-- The same turns, with other names for the clusters. -/
def renamed (σ : String → String) (turns : List (Turn ℚ)) : List (Turn ℚ) :=
  turns.map fun turn => { turn with speaker := σ turn.speaker }

theorem tally_map (σ : String → String) (name : String) (amount : ℚ) {sums : List (String × ℚ)}
    (hσ : ∀ other ∈ sums.map Prod.fst, σ other = σ name → other = name) :
    tally (σ name) amount (sums.map (Prod.map σ id)) = (tally name amount sums).map (Prod.map σ id) := by
  induction sums with
  | nil => rfl
  | cons entry rest ih =>
      obtain ⟨first, sum⟩ := entry
      obtain ⟨hfirst, hrest⟩ := List.forall_mem_cons.mp hσ
      rw [List.map_cons, Prod.map_apply, tally, tally]
      by_cases heq : first = name
      · rw [if_pos (congrArg σ heq), if_pos heq]
        rfl
      · rw [if_neg (mt hfirst heq), if_neg heq, ih hrest]
        rfl

theorem speakingTime_renamed (hσ : Set.InjOn σ {c | c ∈ turns.map Turn.speaker}) :
    speakingTime (renamed σ turns) = (speakingTime turns).map (Prod.map σ id) := by
  have hfold : ∀ (l : List (Turn ℚ)) (sums : List (String × ℚ)),
      l.map Turn.speaker ⊆ turns.map Turn.speaker →
      sums.map Prod.fst ⊆ turns.map Turn.speaker →
      (renamed σ l).foldl (fun sums turn => tally turn.speaker (turn.stop - turn.start) sums)
          (sums.map (Prod.map σ id)) =
        (l.foldl (fun sums turn => tally turn.speaker (turn.stop - turn.start) sums) sums).map
          (Prod.map σ id) := by
    intro l
    induction l with
    | nil => exact fun _ _ _ => rfl
    | cons turn rest ih =>
        intro sums hl hsums
        obtain ⟨hturn, hrest⟩ := List.cons_subset.mp hl
        have hmap := tally_map σ turn.speaker (turn.stop - turn.start) fun other hother heq =>
          hσ (hsums hother) hturn heq
        rw [renamed, List.map_cons, List.foldl_cons, List.foldl_cons, hmap, ← renamed]
        refine ih _ hrest fun name hname => ?_
        rcases names_tally.mp hname with rfl | hname
        · exact hturn
        · exact hsums hname
  exact hfold turns [] (List.Subset.refl _) (List.nil_subset _)

theorem turnsOf_renamed (hσ : Set.InjOn σ {c | c ∈ turns.map Turn.speaker})
    (h : cluster ∈ turns.map Turn.speaker) :
    turnsOf (renamed σ turns) (σ cluster) = renamed σ (turnsOf turns cluster) := by
  rw [turnsOf, renamed, List.filter_map, turnsOf, renamed]
  refine congrArg _ (List.filter_congr fun turn hturn => ?_)
  exact decide_eq_decide.mpr
    ⟨fun heq => hσ (List.mem_map_of_mem hturn) h heq, fun heq => congrArg σ heq⟩

theorem labelOf_renamed (hσ : Set.InjOn σ {c | c ∈ turns.map Turn.speaker})
    (h : cluster ∈ turns.map Turn.speaker) :
    labelOf minShare spans (renamed σ turns) (σ cluster) = labelOf minShare spans turns cluster := by
  have hoverlap : overlapByLabel spans (renamed σ turns) (σ cluster) =
      overlapByLabel spans turns cluster := by
    have hturns := turnsOf_renamed hσ h
    rw [turnsOf, turnsOf, renamed] at hturns
    rw [overlapByLabel, overlapByLabel, renamed, hturns, renamed, List.foldl_map]
  rw [labelOf, labelOf, hoverlap]

theorem speaker_renamed : (renamed σ turns).map Turn.speaker = (turns.map Turn.speaker).map σ := by
  rw [renamed, List.map_map, List.map_map]
  rfl

/-- The ranking of the unmatched clusters, by time only. -/
theorem pairwise_ranked (p : String × ℚ → Bool) :
    ((rankedClusters turns).filter p).Pairwise fun a b => 0 - a.2 ≤ 0 - b.2 := by
  refine ((stablySorted_sortedBy _ (speakingTime turns)).ordered.filter p).imp fun h => ?_
  rcases Prod.Lex.toLex_le_toLex.mp h with hlt | ⟨heq, -⟩
  · exact hlt.le
  · exact heq.le

theorem unmatchedClusters_eq : unmatchedClusters minShare spans turns =
    ((rankedClusters turns).filter fun entry =>
      (labelOf minShare spans turns entry.1).isNone).map Prod.fst := by
  rw [unmatchedClusters, List.filter_map]
  rfl

/-- No two clusters without a label speak equally long. -/
def TimesDiffer (minShare : ℚ) (spans turns : List (Turn ℚ)) : Prop :=
  ∀ c ∈ turns.map Turn.speaker, ∀ c' ∈ turns.map Turn.speaker,
    (∀ label, ¬ Earns minShare spans turns c label) →
    (∀ label, ¬ Earns minShare spans turns c' label) →
    totalTime turns c = totalTime turns c' → c = c'

/-- **The unmatched clusters come in the same order.** -/
theorem unmatchedClusters_renamed (hσ : Set.InjOn σ {c | c ∈ turns.map Turn.speaker})
    (htimes : TimesDiffer minShare spans turns) :
    unmatchedClusters minShare spans (renamed σ turns) =
      (unmatchedClusters minShare spans turns).map σ := by
  let p := fun entry : String × ℚ => (labelOf minShare spans turns entry.1).isNone
  let p' := fun entry : String × ℚ => (labelOf minShare spans (renamed σ turns) entry.1).isNone
  have hp : ∀ entry ∈ speakingTime turns, (p' ∘ Prod.map σ id) entry = p entry :=
    fun entry hentry => congrArg Option.isNone
      (labelOf_renamed hσ (names_speakingTime.mp (List.mem_map_of_mem hentry)))
  have hperm : ((rankedClusters (renamed σ turns)).filter p').Perm
      (((rankedClusters turns).filter p).map (Prod.map σ id)) := by
    refine (rankedClusters_perm.filter p').trans ?_
    rw [speakingTime_renamed hσ, List.filter_map, List.filter_congr hp]
    exact ((rankedClusters_perm.filter p).map _).symm
  have hsorted : (((rankedClusters turns).filter p).map (Prod.map σ id)).Pairwise
      fun a b => 0 - a.2 ≤ 0 - b.2 := List.pairwise_map.mpr (pairwise_ranked p)
  have hentry : ∀ entry ∈ (rankedClusters turns).filter p,
      entry.1 ∈ turns.map Turn.speaker ∧ (∀ label, ¬ Earns minShare spans turns entry.1 label) ∧
        totalTime turns entry.1 = entry.2 := fun entry hentry => by
    obtain ⟨hmem, hnone⟩ := List.mem_filter.mp hentry
    have hspeaking := rankedClusters_perm.mem_iff.mp hmem
    refine ⟨names_speakingTime.mp (List.mem_map_of_mem hspeaking),
      fun label => callerLabel_eq_none (Option.isNone_iff_eq_none.mp hnone), ?_⟩
    rw [← amountOf_speakingTime]
    exact amountOf_of_mem nodup_speakingTime hspeaking
  have heq := hperm.eq_of_pairwise (fun a b ha hb hab hba => by
    -- clusters of one time are one cluster
    obtain ⟨c, hc, rfl⟩ := List.mem_map.mp (hperm.mem_iff.mp ha)
    obtain ⟨d, hd, rfl⟩ := List.mem_map.mp hb
    have htime : c.2 = d.2 := sub_right_injective (le_antisymm hab hba)
    obtain ⟨hcmem, hcnone, hctime⟩ := hentry c hc
    obtain ⟨hdmem, hdnone, hdtime⟩ := hentry d hd
    have hcluster := htimes c.1 hcmem d.1 hdmem hcnone hdnone (hctime.trans (htime.trans hdtime.symm))
    rw [Prod.ext hcluster htime]) (pairwise_ranked p') hsorted
  rw [unmatchedClusters_eq, unmatchedClusters_eq]
  exact (congrArg (List.map Prod.fst) heq).trans (by rw [List.map_map, List.map_map]; rfl)

theorem mem_takenNames {name : String} : name ∈ takenNames minShare spans turns ↔
    name ∈ spans.map Turn.speaker := by
  rw [takenNames, List.mem_append, or_iff_left_of_imp]
  intro h
  obtain ⟨entry, hentry, rfl⟩ := List.mem_map.mp h
  obtain ⟨cluster, -, hlabel⟩ := List.mem_filterMap.mp hentry
  obtain ⟨label, hearned, rfl⟩ := Option.map_eq_some_iff.mp hlabel
  exact (labelOf_earns hearned).mem

/-- **The mapping says the same of a cluster by any name.** -/
theorem lookup_renamed (hσ : Set.InjOn σ {c | c ∈ turns.map Turn.speaker})
    (htimes : TimesDiffer minShare spans turns) (h : cluster ∈ turns.map Turn.speaker) :
    (relabelling minShare spans (renamed σ turns)).lookup (σ cluster) =
      (relabelling minShare spans turns).lookup cluster := by
  have hσcluster : σ cluster ∈ (renamed σ turns).map Turn.speaker :=
    speaker_renamed ▸ List.mem_map_of_mem h
  rw [lookup_relabelling minShare spans h, lookup_relabelling minShare spans hσcluster, labelOf_renamed hσ h,
    unmatchedClusters_renamed hσ htimes,
    freshNames_map σ fun _ => mem_takenNames.trans mem_takenNames.symm, lookup_map]
  intro name hname heq
  rw [map_fst_freshNames, mem_unmatchedClusters] at hname
  exact hσ h hname.1 heq

end Renamed

/-! ### Relabelled turns -/

section Relabelled

variable {minShare : ℚ} {turns : List (Turn ℚ)} {reference : List (Segment ℚ)}

/-- The name the mapping gives a cluster. -/
def newName (minShare : ℚ) (spans turns : List (Turn ℚ)) (cluster : String) : String :=
  ((relabelling minShare spans turns).lookup cluster).getD cluster

theorem relabelTurns_eq (hspans : labelledSpans reference ≠ []) :
    relabelTurns minShare turns reference =
      renamed (newName minShare (labelledSpans reference) turns) turns := by
  unfold relabelTurns
  extract_lets spans
  split
  · rename_i hempty
    rw [hempty.resolve_left hspans]
    rfl
  · rfl

/-- A caller's label is earned; any other name is numbered, free, and the cluster's alone. -/
theorem newName_cases {spans : List (Turn ℚ)} {cluster : String}
    (h : cluster ∈ turns.map Turn.speaker) :
    Earns minShare spans turns cluster (newName minShare spans turns cluster) ∨
      (∀ label, ¬ Earns minShare spans turns cluster label) ∧
        (∃ n, newName minShare spans turns cluster = speakerName n) ∧
        newName minShare spans turns cluster ∉ spans.map Turn.speaker ∧
        ∀ other ∈ turns.map Turn.speaker,
          newName minShare spans turns other = newName minShare spans turns cluster →
          other = cluster := by
  cases hlabel : labelOf minShare spans turns cluster with
  | some label =>
      have hlookup := lookup_relabelling minShare spans h
      rw [hlabel, Option.some_or] at hlookup
      rw [newName, hlookup]
      exact .inl (labelOf_earns hlabel)
  | none =>
      obtain ⟨name, hname, hmem⟩ := lookup_unmatched h hlabel
      obtain ⟨hnumber, hfree⟩ := mem_freshNames hmem
      have hnew : newName minShare spans turns cluster = name := by rw [newName, hname]; rfl
      rw [hnew]
      refine .inr ⟨fun label => callerLabel_eq_none hlabel, hnumber,
        fun htaken => hfree (mem_takenNames.mpr htaken), fun other hother heq => ?_⟩
      cases hotherLabel : labelOf minShare spans turns other with
      | some label =>
          -- the other has a caller's label, and the name is none
          have hlookup := lookup_relabelling minShare spans hother
          rw [hotherLabel, Option.some_or] at hlookup
          rw [newName, hlookup, Option.getD_some] at heq
          exact absurd (mem_takenNames.mpr (heq ▸ (labelOf_earns hotherLabel).mem)) hfree
      | none =>
          obtain ⟨name', hname', hmem'⟩ := lookup_unmatched hother hotherLabel
          have hsame : name' = name := by
            rw [newName, hname'] at heq
            exact heq
          rw [hsame] at hmem'
          exact congrArg Prod.fst (List.inj_on_of_nodup_map nodup_freshNames hmem' hmem rfl)

/-- **Cluster renaming**: the turns come back with their clusters renamed alike, after a label that
earned the cluster or with a free number of its own; and by whatever names the clusters went, the
outcome is the same. -/
theorem relabel_turns_renames (minShare : ℚ) (turns : List (Turn ℚ)) (reference : List (Segment ℚ))
    (hspans : labelledSpans reference ≠ []) :
    (∃ name : String → String, relabelTurns minShare turns reference = renamed name turns ∧
      ∀ cluster ∈ turns.map Turn.speaker,
        Earns minShare (labelledSpans reference) turns cluster (name cluster) ∨
          (∀ label, ¬ Earns minShare (labelledSpans reference) turns cluster label) ∧
            (∃ n, name cluster = speakerName n) ∧
            name cluster ∉ (labelledSpans reference).map Turn.speaker ∧
            ∀ other ∈ turns.map Turn.speaker, name other = name cluster → other = cluster) ∧
    ∀ σ : String → String, Set.InjOn σ {c | c ∈ turns.map Turn.speaker} →
      TimesDiffer minShare (labelledSpans reference) turns →
      relabelTurns minShare (renamed σ turns) reference = relabelTurns minShare turns reference := by
  refine ⟨⟨_, relabelTurns_eq hspans, fun cluster hcluster => newName_cases hcluster⟩,
    fun σ hσ htimes => ?_⟩
  rw [relabelTurns_eq hspans, relabelTurns_eq hspans, renamed, renamed, renamed, List.map_map]
  refine List.map_congr_left fun turn hturn => ?_
  have hcluster : turn.speaker ∈ turns.map Turn.speaker := List.mem_map_of_mem hturn
  obtain ⟨name, hname⟩ := lookup_isSome minShare (labelledSpans reference) hcluster
  have hnew : newName minShare (labelledSpans reference) (renamed σ turns) (σ turn.speaker) =
      newName minShare (labelledSpans reference) turns turn.speaker := by
    rw [newName, newName, lookup_renamed hσ htimes hcluster, hname]
    rfl
  exact congrArg (fun speaker => ({ turn with speaker } : Turn ℚ)) hnew

/-- A second run, whose first cluster is the caller's SPEAKER_01. -/
def secondRun : List (Turn ℚ) := [⟨0, 5, "SPEAKER_00"⟩, ⟨6, 9, "SPEAKER_01"⟩]

def labelledBefore : List (Segment ℚ) := [⟨0, 5, some "SPEAKER_01", "hej", [], none, []⟩]

/-- The run, had it numbered its clusters the other way round. -/
def swapped (cluster : String) : String :=
  if cluster = "SPEAKER_00" then "SPEAKER_01" else "SPEAKER_00"

theorem relabel_turns_renames_swapped :
    relabelTurns (1 / 2) (renamed swapped secondRun) labelledBefore =
      relabelTurns (1 / 2) secondRun labelledBefore := by
  refine (relabel_turns_renames (1 / 2) secondRun labelledBefore (by decide)).2 swapped ?_ ?_
  · intro a ha b hb heq
    simp only [secondRun, List.map_cons, List.map_nil, List.mem_cons, List.not_mem_nil, or_false,
      Set.mem_ofPred_eq] at ha hb
    rcases ha with rfl | rfl <;> rcases hb with rfl | rfl <;> simp [swapped] at heq ⊢
  · have htimes : totalTime secondRun "SPEAKER_00" ≠ totalTime secondRun "SPEAKER_01" := by
      decide +kernel
    intro a ha b hb _ _ heq
    simp only [secondRun, List.map_cons, List.map_nil, List.mem_cons, List.not_mem_nil,
      or_false] at ha hb
    rcases ha with rfl | rfl <;> rcases hb with rfl | rfl
    · rfl
    · exact absurd heq htimes
    · exact absurd heq.symm htimes
    · rfl

end Relabelled

end Vemsa.Pipeline

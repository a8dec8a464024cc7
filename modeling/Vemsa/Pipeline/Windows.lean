import Vemsa.Pipeline.Attribution

/-!
# Pipeline — Windows

The windows of `task=align` in full: `alignment_windows` says which segments are in which window and
where each window lies.

The end of a window is clamped to the audio and to the midpoint of the gap after it, and then moved
out again to hold the window itself; `padWindow_around` is what is left of each clamp.
-/

namespace Vemsa.Pipeline
open Vemsa.Support Vemsa.Jobs

variable {τ : Type} [Seconds τ]

section Padding

variable {padS duration : τ}

/-- A window as padded: not before the audio, at most `padS` wider on either side, and past the end
of the audio only where the window was. -/
structure Around (padS duration : τ) (window padded : Segment τ) : Prop where
  start_nonneg : 0 ≤ padded.start
  start_le : padded.start ≤ window.start
  le_stop : window.stop ≤ padded.stop
  start_slack : window.start - padS ≤ padded.start
  stop_slack : padded.stop ≤ window.stop + padS
  inside : 0 < duration → duration < padded.stop → duration < window.stop

theorem padWindow_around (hpad : 0 ≤ padS) {window : Segment τ} (hw : 0 ≤ window.start)
    (previous next : Option (Segment τ)) :
    Around padS duration window (padWindow padS duration previous window next) := by
  have hlo : max 0 (window.start - padS) ≤ (padWindow padS duration previous window next).start := by
    cases previous with
    | none => exact le_rfl
    | some previous => exact le_max_left _ _
  -- the end before it is moved out to the window's own
  obtain ⟨stop, hstop, hslack, hclamp⟩ : ∃ stop,
      (padWindow padS duration previous window next).stop = max stop window.stop ∧
        stop ≤ window.stop + padS ∧ (0 < duration → stop ≤ duration) := by
    refine ⟨_, rfl, ?_, fun hd => ?_⟩
    · have h : (if 0 < duration then min duration (window.stop + padS) else window.stop + padS) ≤
          window.stop + padS := by
        split
        · exact min_le_right _ _
        · exact le_rfl
      cases next with
      | none => exact h
      | some next => exact (min_le_left _ _).trans h
    · cases next with
      | none => exact (if_pos hd).trans_le (min_le_left _ _)
      | some next => exact (min_le_left _ _).trans ((if_pos hd).trans_le (min_le_left _ _))
  exact
    { start_nonneg := (le_max_left _ _).trans hlo
      start_le := padWindow_start_le hpad hw previous next
      le_stop := le_padWindow_stop previous next window
      start_slack := (le_max_right _ _).trans hlo
      stop_slack := hstop ▸ max_le hslack (Seconds.le_add_self hpad)
      inside := fun hd hlt => by
        rw [hstop, lt_max_iff] at hlt
        exact hlt.resolve_left (hclamp hd).not_gt }

theorem padFrom_around (duration : τ) (hpad : 0 ≤ padS) {windows : List (Segment τ)}
    (hw : ∀ w ∈ windows, 0 ≤ w.start) (previous : Option (Segment τ)) :
    List.Forall₂ (Around padS duration) windows (padFrom padS duration previous windows) := by
  induction windows generalizing previous with
  | nil => exact .nil
  | cons w windows ih =>
      obtain ⟨hfirst, hrest⟩ := List.forall_mem_cons.mp hw
      exact .cons (padWindow_around hpad hfirst previous windows.head?) (ih hrest (some w))

end Padding

section Groups

variable {U : Unicode} {segments : List (Segment τ)} {mergeGapS padS duration : τ}

/-- The window of a group: it holds every member, reaches out at most `padS` before the first start
and after the last end, and ends past the audio only where a member does. -/
structure Holds (segments : List (Segment τ)) (padS duration : τ) (group : List (Fin segments.length))
    (window : Segment τ) : Prop where
  start_nonneg : 0 ≤ window.start
  contains : ∀ i ∈ group, window.start ≤ (segments.get i).start ∧ (segments.get i).stop ≤ window.stop
  start_slack : ∃ i ∈ group, (segments.get i).start - padS ≤ window.start
  stop_slack : ∃ i ∈ group, window.stop ≤ (segments.get i).stop + padS
  inside : 0 < duration → duration < window.stop → ∃ i ∈ group, duration < (segments.get i).stop

theorem Around.holds {group : List (Fin segments.length)} (hg : group ≠ []) {window : Segment τ}
    (h : Around padS duration (windowFor segments group) window) :
    Holds segments padS duration group window := by
  obtain ⟨⟨i, hi, hstart⟩, hstarts⟩ := windowFor_start hg
  obtain ⟨⟨j, hj, hstop⟩, hstops⟩ := windowFor_stop hg
  exact
    { start_nonneg := h.start_nonneg
      contains := fun k hk => ⟨h.start_le.trans (hstarts k hk), (hstops k hk).trans h.le_stop⟩
      start_slack := ⟨i, hi, hstart ▸ h.start_slack⟩
      stop_slack := ⟨j, hj, hstop ▸ h.stop_slack⟩
      inside := fun hd hlt => ⟨j, hj, hstop ▸ h.inside hd hlt⟩ }

variable (U segments mergeGapS) in
/-- The groups are read off by start and place. -/
theorem pairwise_flatten_groupWindows :
    (groupWindows U segments mergeGapS).flatten.Pairwise fun i j =>
      timeKey segments i < timeKey segments j := by
  have hnodup := nodup_flatten_groupWindows U segments mergeGapS
  rw [flatten_groupWindows] at hnodup ⊢
  refine ((pairwise_timeOrder segments).filter _).imp₂ (fun i j hle hne => ?_) hnodup
  refine lt_of_le_of_ne hle fun heq => hne (Fin.ext ?_)
  exact (Prod.mk.inj (toLex.injective heq)).2

/-- **Alignment windows.**  The groups hold every segment with alignable text once, by start and
place; the padded windows are disjoint and in order, and each holds its group. -/
theorem alignment_windows (U : Unicode) (hvalid : ValidTimes segments) (hgap : 0 ≤ mergeGapS)
    (hpad : 0 ≤ padS) (duration : τ) :
    let groups := groupWindows U segments mergeGapS
    let windows := padWindows (groups.map (windowFor segments)) padS duration
    (∀ i, i ∈ groups.flatten ↔ tokenCount U segments i ≠ 0) ∧
      groups.flatten.Pairwise (fun i j => timeKey segments i < timeKey segments j) ∧
      (∀ w ∈ windows, w.start ≤ w.stop) ∧ windows.Pairwise (fun w w' => w.stop ≤ w'.start) ∧
      List.Forall₂ (Holds segments padS duration) groups windows := by
  intro groups windows
  have hwindows : ValidTimes (groups.map (windowFor segments)) := validTimes_windows hvalid
  have haround := padFrom_around duration hpad (fun w hw => (hwindows w hw).1) none
  rw [List.forall₂_map_left_iff] at haround
  have hholds : List.Forall₂ (Holds segments padS duration) groups windows := by
    refine List.forall₂_iff_zip.mpr ⟨haround.length_eq, fun {g w} hgw => ?_⟩
    exact (List.forall₂_zip haround hgw).holds
      (groupWindows_ne_nil U segments mergeGapS g (List.of_mem_zip hgw).1)
  exact ⟨mem_flatten_groupWindows U segments mergeGapS,
    pairwise_flatten_groupWindows U segments mergeGapS, padFrom_valid hpad hwindows none,
    pairwise_padWindows hpad hwindows (windows_separated hgap), hholds⟩

end Groups

/-- Two segments over one stretch, and one shortly before the end of the audio. -/
def crossTalk : List (Segment ℚ) :=
  [{ start := 1, stop := 3, text := "god dag" }, { start := 0, stop := 2, text := "hej" },
    { start := 4, stop := 5, text := "ja" }]

theorem alignment_windows_crossTalk :
    let groups := groupWindows .latin crossTalk 0.5
    let windows := padWindows (groups.map (windowFor crossTalk)) 0.5 5.2
    (∀ i, i ∈ groups.flatten ↔ tokenCount .latin crossTalk i ≠ 0) ∧
      groups.flatten.Pairwise (fun i j => timeKey crossTalk i < timeKey crossTalk j) ∧
      (∀ w ∈ windows, w.start ≤ w.stop) ∧ windows.Pairwise (fun w w' => w.stop ≤ w'.start) ∧
      List.Forall₂ (Holds crossTalk 0.5 5.2) groups windows :=
  alignment_windows .latin (by unfold ValidTimes; decide +kernel) (by decide +kernel)
    (by decide +kernel) 5.2

end Vemsa.Pipeline

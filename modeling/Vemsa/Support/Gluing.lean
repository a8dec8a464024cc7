import Mathlib

/-!
# Support — Gluing

Items laid end to end in time, with gaps (`none`) between them.  `glue` lets the gaps go and joins an
item to the one before it where both have the same label; a joined item reaches over the gap.

* `flatMap_glue`, `isChain_glue`: what the items hold stays in order, and two in a row differ.
* `follows_glue`: what is left is in order, and no two overlap.
* `tiles_glue_iff`: it covers all of the time iff every gap lies between two items of one label
  (`GapsGlued`).
-/

namespace Vemsa.Support

/-- How timed items with a label are joined: the first is kept, up to the end of the second. -/
structure Gluing (α κ τ : Type*) where
  label : α → κ
  start : α → τ
  stop : α → τ
  join : α → α → α
  label_join : ∀ a b, label (join a b) = label a
  start_join : ∀ a b, start (join a b) = start a
  stop_join : ∀ a b, stop (join a b) = stop b

/-- The items follow one another without a break, from `lo` to `hi`. -/
structure Tiles {α τ : Type*} (start stop : α → τ) (lo hi : τ) (l : List α) : Prop where
  first : ∀ a ∈ l.head?, start a = lo
  last : ∀ a ∈ l.getLast?, stop a = hi
  meets : l.IsChain fun a b => stop a = start b

/-- The items follow one another, breaks allowed, between `lo` and `hi`. -/
structure Follows {α τ : Type*} [Preorder τ] (start stop : α → τ) (lo hi : τ) (l : List α) : Prop where
  within : ∀ a ∈ l, lo ≤ start a ∧ start a < stop a ∧ stop a ≤ hi
  ordered : l.IsChain fun a b => stop a ≤ start b

theorem tiles_cons_cons {α τ : Type*} {start stop : α → τ} {lo hi : τ} {a b : α} {l : List α} :
    Tiles start stop lo hi (a :: b :: l) ↔
      start a = lo ∧ Tiles start stop (stop a) hi (b :: l) := by
  constructor
  · rintro ⟨hfirst, hlast, hmeets⟩
    obtain ⟨hab, hmeets⟩ := List.isChain_cons_cons.mp hmeets
    exact ⟨hfirst a rfl, by simp [hab], hlast, hmeets⟩
  · rintro ⟨ha, hfirst, hlast, hmeets⟩
    exact ⟨by simp [ha], hlast, List.isChain_cons_cons.mpr ⟨(hfirst b rfl).symm, hmeets⟩⟩

theorem tiles_singleton {α τ : Type*} {start stop : α → τ} {lo hi : τ} {a : α} :
    Tiles start stop lo hi [a] ↔ start a = lo ∧ stop a = hi := by
  constructor
  · rintro ⟨hfirst, hlast, -⟩
    exact ⟨hfirst a rfl, hlast a rfl⟩
  · rintro ⟨ha, hb⟩
    exact ⟨by simp [ha], by simp [hb], List.isChain_singleton a⟩

/-! ### Labels -/

section Labels

variable {κ : Type*} {a b : κ} {labels : List (Option κ)}

/-- Every gap lies between two items of one label. -/
def GapsGlued (labels : List (Option κ)) : Prop :=
  ∀ before after, labels = before ++ none :: after →
    ∃ label ∈ before.reduceOption.getLast?, label ∈ after.reduceOption.head?

theorem gapsGlued_singleton (a : κ) : GapsGlued [some a] := by
  intro before after h
  cases before with
  | nil => cases h
  | cons b before => simp at h

theorem not_gapsGlued_none : ¬ GapsGlued (none :: labels) := by
  intro h
  obtain ⟨label, hlabel, -⟩ := h [] labels rfl
  simp at hlabel

theorem gapsGlued_cons_none : GapsGlued (some a :: none :: labels) ↔
    labels.reduceOption.head? = some a ∧ GapsGlued (some a :: labels) := by
  constructor
  · intro h
    constructor
    · obtain ⟨label, hlabel, hhead⟩ := h [some a] labels rfl
      obtain rfl : a = label := by simpa using hlabel
      exact hhead
    · intro before after heq
      cases before with
      | nil => cases heq
      | cons c before =>
          rw [List.cons_append, List.cons.injEq] at heq
          obtain ⟨rfl, rfl⟩ := heq
          simpa using h (some a :: none :: before) after rfl
  · rintro ⟨hhead, h⟩ before after heq
    rcases before with _ | ⟨c, _ | ⟨d, before⟩⟩
    · cases heq
    · simp only [List.cons_append, List.nil_append, List.cons.injEq, true_and] at heq
      obtain ⟨rfl, rfl⟩ := heq
      exact ⟨a, by simp, hhead⟩
    · simp only [List.cons_append, List.cons.injEq] at heq
      obtain ⟨rfl, rfl, rfl⟩ := heq
      simpa using h (some a :: before) after rfl

/-- Only the item next to a gap matters. -/
theorem gapsGlued_cons_some :
    GapsGlued (some a :: some b :: labels) ↔ GapsGlued (some b :: labels) := by
  constructor
  · intro h before after heq
    cases before with
    | nil => cases heq
    | cons c before =>
        rw [List.cons_append, List.cons.injEq] at heq
        obtain ⟨rfl, rfl⟩ := heq
        simpa using h (some a :: some b :: before) after rfl
  · intro h before after heq
    rcases before with _ | ⟨c, _ | ⟨d, before⟩⟩
    · cases heq
    · simp at heq
    · simp only [List.cons_append, List.cons.injEq] at heq
      obtain ⟨rfl, rfl, rfl⟩ := heq
      simpa using h (some b :: before) after rfl

end Labels

namespace Gluing

variable {α κ τ : Type*} [DecidableEq κ] (G : Gluing α κ τ)

/-- `last` is the item the next one may be joined to. -/
def glueFrom (last : α) : List (Option α) → List α
  | [] => [last]
  | none :: rest => glueFrom last rest
  | some a :: rest =>
    if G.label last = G.label a then glueFrom (G.join last a) rest else last :: glueFrom a rest

def glue : List (Option α) → List α
  | [] => []
  | none :: rest => glue rest
  | some a :: rest => G.glueFrom a rest

/-- One more item, behind those that are kept. -/
def glueOnto (kept : List α) : Option α → List α
  | none => kept
  | some a =>
    match kept.getLast? with
    | none => [a]
    | some last => if G.label last = G.label a then kept.dropLast ++ [G.join last a] else kept ++ [a]

variable {G} {last : α} {items : List (Option α)}

theorem foldl_glueOnto_concat (front : List α) :
    items.foldl G.glueOnto (front ++ [last]) = front ++ G.glueFrom last items := by
  induction items generalizing front last with
  | nil => rfl
  | cons item rest ih =>
      cases item with
      | none => exact ih front
      | some a =>
          rw [List.foldl_cons, glueOnto, List.getLast?_concat, List.dropLast_concat, glueFrom]
          dsimp only
          split
          · exact ih front
          · rw [ih, List.append_assoc]
            rfl

/-- A scan that keeps the items so far finds the same. -/
theorem foldl_glueOnto : items.foldl G.glueOnto [] = G.glue items := by
  induction items with
  | nil => rfl
  | cons item rest ih =>
      cases item with
      | none => exact ih
      | some a => exact foldl_glueOnto_concat []

/-! ### What is kept -/

theorem flatMap_glueFrom {γ : Type*} {f : α → List γ} (hf : ∀ a b, f (G.join a b) = f a ++ f b) :
    (G.glueFrom last items).flatMap f = f last ++ items.reduceOption.flatMap f := by
  induction items generalizing last with
  | nil => simp [glueFrom]
  | cons item rest ih =>
      cases item with
      | none => simpa [glueFrom] using ih
      | some a =>
          rw [glueFrom, List.reduceOption_cons_of_some, List.flatMap_cons]
          split
          · rw [ih, hf, List.append_assoc]
          · rw [List.flatMap_cons, ih]

/-- **What the items hold is kept, in order.** -/
theorem flatMap_glue {γ : Type*} {f : α → List γ} (hf : ∀ a b, f (G.join a b) = f a ++ f b) :
    (G.glue items).flatMap f = items.reduceOption.flatMap f := by
  induction items with
  | nil => rfl
  | cons item rest ih =>
      cases item with
      | none => simpa [glue] using ih
      | some a => rw [glue, flatMap_glueFrom hf, List.reduceOption_cons_of_some, List.flatMap_cons]

theorem forall_glueFrom {P : α → Prop} (hjoin : ∀ a b, P a → P b → P (G.join a b)) (hlast : P last)
    (h : ∀ a ∈ items.reduceOption, P a) : ∀ a ∈ G.glueFrom last items, P a := by
  induction items generalizing last with
  | nil => exact List.forall_mem_singleton.mpr hlast
  | cons item rest ih =>
      cases item with
      | none => exact ih hlast h
      | some a =>
          rw [List.reduceOption_cons_of_some, List.forall_mem_cons] at h
          rw [glueFrom]
          split
          · exact ih (hjoin last a hlast h.1) h.2
          · exact List.forall_mem_cons.mpr ⟨hlast, ih h.1 h.2⟩

theorem forall_glue {P : α → Prop} (hjoin : ∀ a b, P a → P b → P (G.join a b))
    (h : ∀ a ∈ items.reduceOption, P a) : ∀ a ∈ G.glue items, P a := by
  induction items with
  | nil => exact List.forall_mem_nil _
  | cons item rest ih =>
      cases item with
      | none => exact ih h
      | some a =>
          rw [List.reduceOption_cons_of_some, List.forall_mem_cons] at h
          exact forall_glueFrom hjoin h.1 h.2

theorem label_head_glueFrom (last : α) (items : List (Option α)) :
    (G.glueFrom last items).head?.map G.label = some (G.label last) := by
  induction items generalizing last with
  | nil => rfl
  | cons item rest ih =>
      cases item with
      | none => exact ih last
      | some a =>
          rw [glueFrom]
          split
          · rw [ih, G.label_join]
          · rfl

theorem isChain_glueFrom :
    (G.glueFrom last items).IsChain fun a b => G.label a ≠ G.label b := by
  induction items generalizing last with
  | nil => exact List.isChain_singleton _
  | cons item rest ih =>
      cases item with
      | none => exact ih
      | some a =>
          rw [glueFrom]
          split
          · exact ih
          · rename_i hne
            refine List.isChain_cons.mpr ⟨fun b hb => ?_, ih⟩
            have hlabel := label_head_glueFrom (G := G) a rest
            rw [hb, Option.map_some, Option.some.injEq] at hlabel
            rwa [hlabel]

/-- **Two in a row have different labels.** -/
theorem isChain_glue : (G.glue items).IsChain fun a b => G.label a ≠ G.label b := by
  induction items with
  | nil => exact List.isChain_nil
  | cons item rest ih =>
      cases item with
      | none => exact ih
      | some a => exact isChain_glueFrom

/-! ### What is covered -/

section Covered

variable [LinearOrder τ] (G) in
/-- The items and the gaps follow one another from `lo` to `hi`, and each takes time. -/
inductive Laid : τ → τ → List (Option α) → Prop
  | nil (t : τ) : Laid t t []
  | gap {t t' hi : τ} {rest : List (Option α)} (h : t < t') (hrest : Laid t' hi rest) :
      Laid t hi (none :: rest)
  | item {hi : τ} {a : α} {rest : List (Option α)} (h : G.start a < G.stop a)
      (hrest : Laid (G.stop a) hi rest) : Laid (G.start a) hi (some a :: rest)

variable {t hi : τ}

theorem start_head_glueFrom (last : α) (items : List (Option α)) :
    (G.glueFrom last items).head?.map G.start = some (G.start last) := by
  induction items generalizing last with
  | nil => rfl
  | cons item rest ih =>
      cases item with
      | none => exact ih last
      | some a =>
          rw [glueFrom]
          split
          · rw [ih, G.start_join]
          · rfl

theorem glueFrom_eq_cons (last : α) (items : List (Option α)) :
    ∃ b rest, G.glueFrom last items = b :: rest ∧ G.start b = G.start last := by
  have hhead := start_head_glueFrom (G := G) last items
  obtain ⟨b, hb, hstart⟩ := Option.map_eq_some_iff.mp hhead
  obtain ⟨rest, heq⟩ := List.head?_eq_some_iff.mp hb
  exact ⟨b, rest, heq, hstart⟩

variable [LinearOrder τ]

omit [DecidableEq κ] in
theorem Laid.le (hlaid : G.Laid t hi items) : t ≤ hi := by
  induction hlaid with
  | nil => exact le_rfl
  | gap h _ ih => exact h.le.trans ih
  | item h _ ih => exact h.le.trans ih

theorem follows_glueFrom (hlaid : G.Laid t hi items) (hlast : G.start last < G.stop last)
    (hle : G.stop last ≤ t) :
    Follows G.start G.stop (G.start last) hi (G.glueFrom last items) := by
  induction hlaid generalizing last with
  | nil t => exact ⟨by simp [glueFrom, hlast, hle], List.isChain_singleton _⟩
  | gap h _ ih => exact ih hlast (hle.trans h.le)
  | @item hi a rest h hrest ih =>
      rw [glueFrom]
      split
      · have hjoin := @ih (G.join last a)
        rw [G.start_join, G.stop_join] at hjoin
        exact hjoin (hlast.trans (hle.trans_lt h)) le_rfl
      · obtain ⟨hwithin, hordered⟩ := ih h le_rfl
        obtain ⟨b, others, hglue, hstart⟩ := glueFrom_eq_cons (G := G) a rest
        constructor
        · refine List.forall_mem_cons.mpr ⟨⟨le_rfl, hlast, hle.trans (h.le.trans hrest.le)⟩, ?_⟩
          intro c hc
          exact ⟨(hlast.le.trans hle).trans (hwithin c hc).1, (hwithin c hc).2⟩
        · rw [hglue] at hordered ⊢
          exact List.isChain_cons_cons.mpr ⟨hle.trans hstart.ge, hordered⟩

/-- **What is left is in order, and no two overlap.** -/
theorem follows_glue (hlaid : G.Laid t hi items) : Follows G.start G.stop t hi (G.glue items) := by
  induction hlaid with
  | nil => exact ⟨List.forall_mem_nil _, List.isChain_nil⟩
  | gap h _ ih => exact ⟨fun a ha => ⟨h.le.trans (ih.within a ha).1, (ih.within a ha).2⟩, ih.ordered⟩
  | item h hrest _ => exact follows_glueFrom hrest h le_rfl

/-- `t` is how far the items were read; behind `last` there is a gap if it stops before. -/
theorem tiles_glueFrom_iff (hlaid : G.Laid t hi items) (hle : G.stop last ≤ t) :
    Tiles G.start G.stop (G.start last) hi (G.glueFrom last items) ↔
      (G.stop last = t ∨ (items.map (·.map G.label)).reduceOption.head? = some (G.label last)) ∧
        GapsGlued (some (G.label last) :: items.map (·.map G.label)) := by
  induction hlaid generalizing last with
  | nil t => simp [glueFrom, tiles_singleton, gapsGlued_singleton]
  | gap h hrest ih =>
      have hbehind : G.stop last ≠ _ := (hle.trans_lt h).ne
      rw [glueFrom, ih (hle.trans h.le), or_iff_right hbehind]
      simp only [List.map_cons, Option.map_none, List.reduceOption_cons_of_none, gapsGlued_cons_none]
      tauto
  | @item hi a rest h hrest ih =>
      simp only [List.map_cons, Option.map_some, List.reduceOption_cons_of_some, List.head?_cons,
        Option.some.injEq, gapsGlued_cons_some]
      rw [glueFrom]
      split
      · -- the item is joined, and whatever gap there was is covered
        rename_i heq
        have hjoin := @ih (G.join last a) (G.stop_join last a).le
        rw [G.start_join, G.label_join, G.stop_join] at hjoin
        rw [hjoin, heq]
        simp
      · rename_i hne
        obtain ⟨b, others, hglue, hstart⟩ := glueFrom_eq_cons (G := G) a rest
        have hnext := @ih a le_rfl
        rw [hglue] at hnext ⊢
        rw [tiles_cons_cons, and_iff_right rfl, or_iff_left (Ne.symm hne)]
        constructor
        · intro htiles
          have hmeets : G.stop last = G.start a := hstart ▸ (htiles.first b rfl).symm
          exact ⟨hmeets, (hnext.mp (hmeets ▸ htiles)).2⟩
        · rintro ⟨hmeets, hgaps⟩
          rw [hmeets]
          exact hnext.mpr ⟨.inl rfl, hgaps⟩

/-- **It covers all of the time iff every gap lies between two items of one label.** -/
theorem tiles_glue_iff (hlaid : G.Laid t hi items) (hne : G.glue items ≠ []) :
    Tiles G.start G.stop t hi (G.glue items) ↔ GapsGlued (items.map (·.map G.label)) := by
  cases hlaid with
  | nil => exact absurd rfl hne
  | gap h hrest =>
      -- the leading gap stays open
      refine iff_of_false (fun htiles => ?_) not_gapsGlued_none
      obtain ⟨a, ha⟩ := Option.ne_none_iff_exists'.mp (mt List.head?_eq_none_iff.mp hne)
      have hlate := ((follows_glue hrest).within a (List.mem_of_head? ha)).1
      exact (h.trans_le hlate).ne' (htiles.first a ha)
  | item h hrest =>
      rw [glue, tiles_glueFrom_iff hrest le_rfl, List.map_cons, Option.map_some]
      simp

end Covered

end Gluing

end Vemsa.Support

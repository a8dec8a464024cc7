import Mathlib.Data.List.Infix

/-!
# Support — Codes

Words written one after the other with nothing between them, and how they are told apart again.  Of two
words that begin alike the longer one is `Clear` when it goes on like nothing that may follow the
shorter; then a common beginning can be cancelled (`cancel_word`), and a text of words and marks in
turn is read in one way only (`joined_injective`).
-/

namespace Vemsa.Support

variable {α β : Type} {starts starts' words marks : List (List α)} {a b s t : List α}

/-- The text is empty, or begins with one of the `starts`. -/
def StartsWith (starts : List (List α)) (s : List α) : Prop := s = [] ∨ ∃ w ∈ starts, w <+: s

/-- If `b` begins with `a` and goes on, it goes on like none of the `starts`. -/
def Clear (starts : List (List α)) (a b : List α) : Prop :=
  a <+: b → a ≠ b → ∀ w ∈ starts, ¬ b.drop a.length <+: w ∧ ¬ w <+: b.drop a.length

instance [DecidableEq α] (starts : List (List α)) (a b : List α) : Decidable (Clear starts a b) :=
  inferInstanceAs (Decidable (_ → _ → _))

theorem Clear.eq_of_begins (h : Clear starts a b) (hs : StartsWith starts s) (heq : a ++ s = b ++ t)
    (hbegins : a <+: b) : a = b := by
  by_contra hne
  have hclear := h hbegins hne
  obtain ⟨rest, rfl⟩ := hbegins
  rw [List.append_assoc] at heq
  obtain rfl := List.append_cancel_left heq
  rw [List.drop_left] at hclear
  rcases hs with hnil | ⟨w, hw, hstart⟩
  · exact hne (by rw [(List.append_eq_nil_iff.mp hnil).1, List.append_nil])
  · -- both `w` and the rest of `b` begin the same text
    rcases List.prefix_or_prefix_of_prefix hstart (List.prefix_append rest t) with hle | hge
    · exact (hclear w hw).2 hle
    · exact (hclear w hw).1 hge

/-- **Words are cancelled**, whatever may follow them. -/
theorem cancel_word (h : Clear starts a b) (h' : Clear starts' b a) (hs : StartsWith starts s)
    (ht : StartsWith starts' t) (heq : a ++ s = b ++ t) : a = b ∧ s = t := by
  have hab : a = b := by
    rcases List.prefix_or_prefix_of_prefix (List.prefix_append a s)
        (heq ▸ List.prefix_append b t) with hbegins | hbegins
    · exact h.eq_of_begins hs heq hbegins
    · exact (h'.eq_of_begins ht heq.symm hbegins).symm
  exact ⟨hab, List.append_cancel_left (hab ▸ heq)⟩

/-! ### Words alone -/

/-- Where no word begins with another, a text is read in one way. -/
theorem flatMap_injective {code : β → List α} {xs ys : List β}
    (hcode : ∀ x ∈ xs, ∀ y ∈ ys, code x <+: code y ∨ code y <+: code x → x = y)
    (hxs : ∀ x ∈ xs, code x ≠ []) (hys : ∀ y ∈ ys, code y ≠ [])
    (heq : xs.flatMap code = ys.flatMap code) : xs = ys := by
  induction xs generalizing ys with
  | nil =>
      cases ys with
      | nil => rfl
      | cons y ys => simp [hys y List.mem_cons_self] at heq
  | cons x xs ih =>
      cases ys with
      | nil => simp [hxs x List.mem_cons_self] at heq
      | cons y ys =>
          rw [List.flatMap_cons, List.flatMap_cons] at heq
          have hbegins : code y <+: code x ++ xs.flatMap code := heq ▸ List.prefix_append _ _
          have hxy : x = y := hcode x List.mem_cons_self y List.mem_cons_self
            (List.prefix_or_prefix_of_prefix (List.prefix_append _ _) hbegins)
          subst hxy
          refine congrArg (x :: ·) (ih (fun x' hx' y' hy' => ?_) (fun x' hx' => ?_) (fun y' hy' => ?_)
            (List.append_cancel_left heq))
          · exact hcode x' (List.mem_cons_of_mem _ hx') y' (List.mem_cons_of_mem _ hy')
          · exact hxs x' (List.mem_cons_of_mem _ hx')
          · exact hys y' (List.mem_cons_of_mem _ hy')

/-! ### Words and marks -/

/-- A word and a mark, again and again, and a last word. -/
def joined (chunks : List (List α × List α)) (last : List α) : List α :=
  match chunks with
  | [] => last
  | (word, mark) :: chunks => word ++ (mark ++ joined chunks last)

theorem joined_append (chunks chunks' : List (List α × List α)) (last : List α) :
    joined (chunks ++ chunks') last = joined chunks [] ++ joined chunks' last := by
  induction chunks with
  | nil => rfl
  | cons chunk chunks ih => simp [joined, ih]

/-- All words, and all marks, are among the given ones. -/
def MadeOf (words marks : List (List α)) (chunks : List (List α × List α)) (last : List α) : Prop :=
  (∀ chunk ∈ chunks, chunk.1 ∈ words ∧ chunk.2 ∈ marks) ∧ last ∈ words

/-- What comes after a mark. -/
theorem startsWith_joined {chunks : List (List α × List α)} {last : List α}
    (h : MadeOf words marks chunks last) :
    StartsWith (words.filter (fun word => !word.isEmpty) ++ marks) (joined chunks last) := by
  have hword : ∀ word ∈ words, word ≠ [] → word ∈ words.filter (fun word => !word.isEmpty) ++ marks :=
    fun word hmem hne => List.mem_append_left _ (List.mem_filter.mpr ⟨hmem, by simpa using hne⟩)
  obtain ⟨hchunks, hlast⟩ := h
  cases chunks with
  | nil =>
      by_cases hne : last = []
      · exact .inl hne
      · exact .inr ⟨last, hword last hlast hne, List.prefix_refl _⟩
  | cons chunk chunks =>
      obtain ⟨hmem, hmark⟩ := hchunks chunk List.mem_cons_self
      obtain ⟨word, mark⟩ := chunk
      by_cases hne : word = []
      · subst hne
        exact .inr ⟨mark, List.mem_append_right _ hmark, List.prefix_append _ _⟩
      · exact .inr ⟨word, hword word hmem hne, List.prefix_append _ _⟩

section Reading

variable {chunks chunks' : List (List α × List α)} {last last' : List α}

theorem MadeOf.tail {chunk : List α × List α} (h : MadeOf words marks (chunk :: chunks) last) :
    MadeOf words marks chunks last :=
  ⟨fun chunk' hmem => h.1 chunk' (List.mem_cons_of_mem _ hmem), h.2⟩

/-- A last word is no word with a mark after it. -/
theorem last_ne_joined (hwords : ∀ a ∈ words, ∀ b ∈ words, Clear marks a b)
    (hne : ∀ mark ∈ marks, mark ≠ []) {chunk : List α × List α} (hlast : last ∈ words)
    (h : MadeOf words marks (chunk :: chunks) last') : last ≠ joined (chunk :: chunks) last' := by
  intro heq
  obtain ⟨word, mark⟩ := chunk
  obtain ⟨hword, hmark⟩ := h.1 _ List.mem_cons_self
  have hstarts : StartsWith marks (mark ++ joined chunks last') := .inr ⟨mark, hmark, List.prefix_append _ _⟩
  obtain ⟨-, hnil⟩ := cancel_word (hwords last hlast word hword) (hwords word hword last hlast)
    (.inl rfl) hstarts ((List.append_nil last).trans heq)
  exact hne mark hmark (List.append_eq_nil_iff.mp hnil.symm).1

/-- **A text of words and marks is read in one way.** -/
theorem joined_injective (hwords : ∀ a ∈ words, ∀ b ∈ words, Clear marks a b)
    (hmarks : ∀ a ∈ marks, ∀ b ∈ marks, Clear (words.filter (fun word => !word.isEmpty) ++ marks) a b)
    (hne : ∀ mark ∈ marks, mark ≠ []) (h : MadeOf words marks chunks last)
    (h' : MadeOf words marks chunks' last') (heq : joined chunks last = joined chunks' last') :
    chunks = chunks' ∧ last = last' := by
  induction chunks generalizing chunks' with
  | nil =>
      cases chunks' with
      | nil => exact ⟨rfl, heq⟩
      | cons chunk' chunks' => exact absurd heq (last_ne_joined hwords hne h.2 h')
  | cons chunk chunks ih =>
      cases chunks' with
      | nil => exact absurd heq.symm (last_ne_joined hwords hne h'.2 h)
      | cons chunk' chunks' =>
          have hmem := h.1 chunk List.mem_cons_self
          have hmem' := h'.1 chunk' List.mem_cons_self
          have hstarts : ∀ {mark : List α} (rest : List α), mark ∈ marks → StartsWith marks (mark ++ rest) :=
            fun rest hmark => .inr ⟨_, hmark, List.prefix_append _ rest⟩
          obtain ⟨hword, hrest⟩ := cancel_word (hwords _ hmem.1 _ hmem'.1) (hwords _ hmem'.1 _ hmem.1)
            (hstarts _ hmem.2) (hstarts _ hmem'.2) heq
          obtain ⟨hmark, hjoined⟩ := cancel_word (hmarks _ hmem.2 _ hmem'.2) (hmarks _ hmem'.2 _ hmem.2)
            (startsWith_joined h.tail) (startsWith_joined h'.tail) hrest
          obtain ⟨hchunks, hlast⟩ := ih h.tail h'.tail hjoined
          exact ⟨congrArg₂ _ (Prod.ext hword hmark) hchunks, hlast⟩

end Reading

end Vemsa.Support

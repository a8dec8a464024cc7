import Mathlib
import Vemsa.Support.Runs

/-!
# Support — Python

The built-ins the modelled code leans on whose behaviour matters to a proof: whitespace as
`str.isspace`, `str.strip` and `\s` understand it, floats with the comparisons a `NaN` slips
through, and the arithmetic on seconds, which rounds.
-/

namespace Vemsa.Support

/-- A string as the sequence of its code points. -/
abbrev Text := List Char

/-- The code points `str.isspace` accepts; `str.strip`, `str.split` and `\s` agree with it. -/
def isSpace (c : Char) : Bool :=
  let n := c.toNat
  (0x09 ≤ n && n ≤ 0x0D) || (0x1C ≤ n && n ≤ 0x20) || n == 0x85 || n == 0xA0 || n == 0x1680 ||
    (0x2000 ≤ n && n ≤ 0x200A) || n == 0x2028 || n == 0x2029 || n == 0x202F || n == 0x205F ||
    n == 0x3000

/-- `str.strip()`. -/
def pyStrip (s : String) : String := .ofList (strip isSpace s.toList)

@[simp]
theorem toList_pyStrip (s : String) : (pyStrip s).toList = strip isSpace s.toList :=
  String.toList_ofList

theorem strip_strip {α : Type*} (sep : α → Bool) (l : List α) :
    strip sep (strip sep l) = strip sep l := by
  have hfix : (strip sep l).dropWhile sep = strip sep l := by
    rw [List.dropWhile_eq_self_iff]
    intro hpos
    obtain ⟨t, ht⟩ := List.rdropWhile_prefix sep (l := l.dropWhile sep)
    -- the first character of the stripped list is the one the left trim stopped at
    have hlen : 0 < (l.dropWhile sep).length := by
      rw [← ht, List.length_append]; exact Nat.lt_of_lt_of_le hpos (Nat.le_add_right _ _)
    have hhead : (strip sep l)[0] = (l.dropWhile sep)[0] := by
      simp only [strip]
      rw [List.getElem_of_eq ht.symm, List.getElem_append_left]
    rw [hhead]
    have h := List.head_dropWhile_not sep (l := l) (List.ne_nil_of_length_pos hlen)
    rw [List.head_eq_getElem] at h
    simpa using h
  rw [strip, hfix, strip, List.rdropWhile_idempotent]

@[simp]
theorem pyStrip_pyStrip (s : String) : pyStrip (pyStrip s) = pyStrip s := by
  rw [pyStrip, toList_pyStrip, strip_strip, ← pyStrip]

/-- `sep.join(parts)` -/
def pyJoin (sep : String) (parts : List String) : String :=
  .ofList (sep.toList.intercalate (parts.map String.toList))

@[simp]
theorem toList_pyJoin (sep : String) (parts : List String) :
    (pyJoin sep parts).toList = ((parts.map String.toList).intersperse sep.toList).flatten :=
  String.toList_ofList

/-- Two lists of parts are joined apart. -/
theorem pyJoin_append {sep : String} {l₁ l₂ : List String} (h₁ : l₁ ≠ []) (h₂ : l₂ ≠ []) :
    pyJoin sep (l₁ ++ l₂) = pyJoin sep l₁ ++ sep ++ pyJoin sep l₂ := by
  obtain ⟨a, l, rfl⟩ := List.exists_cons_of_ne_nil h₁
  obtain ⟨b, r, rfl⟩ := List.exists_cons_of_ne_nil h₂
  refine String.toList_injective ?_
  simp only [toList_pyJoin, String.toList_append]
  induction l generalizing a with
  | nil => simp
  | cons c l ih => simpa using ih c (by simp)

/-- Not empty, and `str.strip` leaves it as it is. -/
def Trimmed (s : String) : Prop := s ≠ "" ∧ pyStrip s = s

/-- The text begins and ends with something else than a blank. -/
def Solid (text : Text) : Prop :=
  (∃ c rest, text = c :: rest ∧ isSpace c = false) ∧ ∃ front c, text = front ++ [c] ∧ isSpace c = false

theorem Solid.ne_nil {text : Text} (h : Solid text) : text ≠ [] := by
  obtain ⟨⟨c, rest, rfl, -⟩, -⟩ := h
  exact List.cons_ne_nil _ _

theorem Trimmed.solid {s : String} (h : Trimmed s) : Solid s.toList := by
  have hstrip : strip isSpace s.toList = s.toList := by rw [← toList_pyStrip, h.2]
  have hne : s.toList ≠ [] := fun hnil => h.1 (String.toList_eq_nil_iff.mp hnil)
  have hle := (List.rdropWhile_prefix isSpace (l := s.toList.dropWhile isSpace)).length_le
  have hdrop : s.toList.dropWhile isSpace = s.toList := by
    refine (List.dropWhile_suffix isSpace).eq_of_length_le ?_
    rw [← strip, hstrip] at hle
    exact hle
  have hrdrop : s.toList.rdropWhile isSpace = s.toList := by rwa [strip, hdrop] at hstrip
  refine ⟨?_, ?_⟩
  · obtain ⟨c, rest, hcons⟩ := List.exists_cons_of_ne_nil hne
    refine ⟨c, rest, hcons, Bool.eq_false_of_not_eq_true fun hc => ?_⟩
    rw [List.dropWhile_eq_self_iff] at hdrop
    exact hdrop (List.length_pos_iff.mpr hne) (by simpa [hcons] using hc)
  · obtain ⟨front, c, hconcat⟩ := List.eq_nil_or_concat'  s.toList |>.resolve_left hne
    refine ⟨front, c, hconcat, Bool.eq_false_of_not_eq_true fun hc => ?_⟩
    rw [List.rdropWhile_eq_self_iff] at hrdrop
    exact hrdrop hne (by simpa [hconcat] using hc)

/-- Stripping takes off the blanks after it. -/
theorem Solid.strip_append {text blanks : Text} (h : Solid text)
    (hblanks : ∀ c ∈ blanks, isSpace c = true) : strip isSpace (text ++ blanks) = text := by
  obtain ⟨⟨c, rest, hcons, hc⟩, front, d, hconcat, hd⟩ := h
  have hdrop : (text ++ blanks).dropWhile isSpace = text ++ blanks := by
    rw [hcons, List.cons_append, List.dropWhile_cons_of_neg (by simp [hc])]
  rw [strip, hdrop]
  clear hdrop
  induction blanks using List.reverseRecOn with
  | nil => rw [List.append_nil, hconcat, List.rdropWhile_concat_neg _ _ _ (by simp [hd])]
  | append_singleton blanks b ih =>
      have hb : isSpace b = true := hblanks b (by simp)
      rw [← List.append_assoc, List.rdropWhile_concat_pos _ _ _ hb]
      exact ih fun c hc => hblanks c (List.mem_append_left _ hc)

theorem pyJoin_cons_cons (sep a b : String) (l : List String) :
    (pyJoin sep (a :: b :: l)).toList = a.toList ++ sep.toList ++ (pyJoin sep (b :: l)).toList := by
  simp

/-- What is joined of solid texts is solid. -/
theorem Solid.join {sep : String} {parts : List String} (hne : parts ≠ [])
    (h : ∀ part ∈ parts, Solid part.toList) : Solid (pyJoin sep parts).toList := by
  induction parts with
  | nil => exact absurd rfl hne
  | cons a parts ih =>
      obtain ⟨ha, hparts⟩ := List.forall_mem_cons.mp h
      cases parts with
      | nil => simpa using ha
      | cons b parts =>
          obtain ⟨⟨c, rest, hcons, hc⟩, -⟩ := ha
          obtain ⟨-, front, d, hconcat, hd⟩ := ih (List.cons_ne_nil _ _) hparts
          rw [pyJoin_cons_cons]
          refine ⟨⟨c, rest ++ sep.toList ++ (pyJoin sep (b :: parts)).toList, by simp [hcons], hc⟩,
            a.toList ++ sep.toList ++ front, d, ?_, hd⟩
          rw [hconcat, List.append_assoc, List.append_assoc]
          simp

/-- A loop that may raise: what every iteration keeps without raising, the loop keeps. -/
theorem foldlM_ok {ε σ α : Type} {f : σ → α → Except ε σ} {p : σ → Prop} (l : List α)
    (h : ∀ a ∈ l, ∀ s, p s → ∃ s', f s a = .ok s' ∧ p s') {s : σ} (hs : p s) :
    ∃ s', l.foldlM f s = .ok s' ∧ p s' := by
  induction l generalizing s with
  | nil => exact ⟨s, rfl, hs⟩
  | cons a l ih =>
      obtain ⟨t, ht, hpt⟩ := h a List.mem_cons_self s hs
      obtain ⟨s', hs', hps'⟩ := ih (fun b hb => h b (List.mem_cons_of_mem a hb)) hpt
      exact ⟨s', by rw [List.foldlM_cons, ht]; exact hs', hps'⟩

/-- The same of a loop that did not raise. -/
theorem foldlM_keeps {ε σ α : Type} {f : σ → α → Except ε σ} {p : σ → Prop} (l : List α)
    (h : ∀ a ∈ l, ∀ s s', p s → f s a = .ok s' → p s') {s s' : σ} (hs : p s)
    (hl : l.foldlM f s = .ok s') : p s' := by
  induction l generalizing s with
  | nil => exact Except.ok.inj hl ▸ hs
  | cons a l ih =>
      rw [List.foldlM_cons] at hl
      cases ha : f s a with
      | error e => rw [ha] at hl; cases hl
      | ok t =>
          rw [ha] at hl
          exact ih (fun b hb => h b (List.mem_cons_of_mem a hb)) (h a List.mem_cons_self s t hs ha) hl

/-- A list worked through item by item: no item raised. -/
theorem mapM_eq_ok {ε α β : Type} {f : α → Except ε β} {l : List α} {out : List β} :
    l.mapM f = .ok out ↔ List.Forall₂ (fun a b => f a = .ok b) l out := by
  induction l generalizing out with
  | nil =>
      rw [List.forall₂_nil_left_iff]
      exact ⟨fun h => (Except.ok.inj h).symm, fun h => congrArg Except.ok h.symm⟩
  | cons a l ih =>
      rw [List.mapM_cons, List.forall₂_cons_left_iff]
      constructor
      · intro h
        cases ha : f a with
        | error e => rw [ha] at h; cases h
        | ok b =>
            cases hl : l.mapM f with
            | error e => rw [ha, hl] at h; cases h
            | ok rest =>
                rw [ha, hl] at h
                exact ⟨b, rest, rfl, ih.mp hl, (Except.ok.inj h).symm⟩
      · rintro ⟨b, rest, ha, hrest, rfl⟩
        rw [ha, ih.mpr hrest]
        rfl

theorem mem_of_mapM_eq_ok {ε α β : Type} {f : α → Except ε β} {l : List α} {out : List β}
    (h : l.mapM f = .ok out) {b : β} (hb : b ∈ out) : ∃ a ∈ l, f a = .ok b := by
  have hout := mapM_eq_ok.mp h
  clear h
  induction hout with
  | nil => cases hb
  | @cons a c l out hac _ ih =>
      rcases List.mem_cons.mp hb with rfl | hb
      · exact ⟨a, List.mem_cons_self, hac⟩
      · obtain ⟨a', ha', heq⟩ := ih hb
        exact ⟨a', List.mem_cons_of_mem a ha', heq⟩

theorem map_of_mapM_eq_ok {ε α β γ : Type} {f : α → Except ε β} {g : α → γ} {k : β → γ}
    {l : List α} {out : List β} (h : l.mapM f = .ok out) (hk : ∀ a b, f a = .ok b → k b = g a) :
    out.map k = l.map g := by
  have hout := mapM_eq_ok.mp h
  clear h
  induction hout with
  | nil => rfl
  | cons hac _ ih => rw [List.map_cons, List.map_cons, ih, hk _ _ hac]

theorem mapM_ok {ε α β : Type} {f : α → Except ε β} {l : List α} (h : ∀ a ∈ l, ∃ b, f a = .ok b) :
    ∃ out, l.mapM f = .ok out := by
  induction l with
  | nil => exact ⟨[], rfl⟩
  | cons a l ih =>
      obtain ⟨b, hb⟩ := h a List.mem_cons_self
      obtain ⟨out, hout⟩ := ih fun c hc => h c (List.mem_cons_of_mem a hc)
      refine ⟨b :: out, ?_⟩
      rw [List.mapM_cons, hb, hout]
      rfl

/-! ### Floats -/

/-- A Python float: a finite value, taken exactly, or one of the three that are not. -/
inductive PyFloat where
  | finite (q : ℚ)
  | nan
  | posInf
  | negInf
deriving DecidableEq

namespace PyFloat

def isFinite : PyFloat → Bool
  | .finite _ => true
  | _ => false

/-- `<`; every comparison with a `NaN` is false. -/
def lt : PyFloat → PyFloat → Bool
  | .nan, _ | _, .nan => false
  | .finite p, .finite q => p < q
  | .negInf, .negInf => false
  | .negInf, _ => true
  | .finite _, .posInf => true
  | _, _ => false

end PyFloat

/-! ### Seconds -/

/-- Times as the pipeline computes with them.  Floating-point sums, differences and midpoints
round, but rounding is monotone, and these consequences are all the pipeline relies on. -/
class Seconds (τ : Type) extends LinearOrder τ, Zero τ, Add τ, Sub τ where
  /-- `x / 2` -/
  half : τ → τ
  /-- `int(x)` -/
  trunc : τ → ℤ
  sub_le_self {a p : τ} : 0 ≤ p → a - p ≤ a
  le_add_self {a p : τ} : 0 ≤ p → a ≤ a + p
  sub_nonpos_of_le {a b : τ} : a ≤ b → a - b ≤ 0
  le_midpoint {a b : τ} : a ≤ b → a ≤ half (a + b)
  midpoint_le {a b : τ} : a ≤ b → half (a + b) ≤ b

/-- Exact seconds. -/
instance : Seconds ℚ where
  half x := x / 2
  trunc x := if 0 ≤ x then ⌊x⌋ else -⌊-x⌋
  sub_le_self h := by linarith
  le_add_self h := by linarith
  sub_nonpos_of_le h := by linarith
  le_midpoint h := by linarith
  midpoint_le h := by linarith

/-- What attribution computes with besides.  Nothing is assumed of the further operations, so what
is proved holds however they round. -/
class Clock (τ : Type) extends Seconds τ, Mul τ, Div τ, NatCast τ, OfScientific τ where
  /-- `round(x)` -/
  round : τ → ℤ

/-- A clock whose differences are ordered as the times are.  Rounding keeps that too. -/
class SteadyClock (τ : Type) extends Clock τ where
  sub_le_sub {a b c : τ} : a ≤ b → a - c ≤ b - c
  sub_pos_of_lt {a b : τ} : a < b → 0 < b - a

/-- `abs(x)` -/
def Clock.abs {τ : Type} [Clock τ] (x : τ) : τ := if x < 0 then 0 - x else x

/-- The nearest integer; a tie goes to the even one. -/
def roundHalfEven (x : ℚ) : ℤ :=
  let below := ⌊x⌋
  let rest := x - below
  if rest < 1 / 2 then below
  else if 1 / 2 < rest then below + 1
  else if below % 2 = 0 then below else below + 1

/-- The nearest binary64 number, for anything that does not overflow: 53 bits, and no unit below
`2 ^ (-1074)`.  A tie goes to the even one. -/
def double (x : ℚ) : ℚ :=
  if x = 0 then 0
  else
    let ulp : ℚ := 2 ^ max (Int.log 2 |x| - 52) (-1074)
    roundHalfEven (x / ulp) * ulp

instance : Clock ℚ where
  round := roundHalfEven

instance : SteadyClock ℚ where
  sub_le_sub h := by linarith
  sub_pos_of_lt h := by linarith

/-! ### Formatting -/

/-- `f"{n:0{width}d}"` -/
def zeroPadded (width n : ℕ) : String :=
  let digits := Nat.toDigits 10 n
  .ofList (List.replicate (width - digits.length) '0' ++ digits)

theorem zeroPadded_injective (width : ℕ) : Function.Injective (zeroPadded width) := fun m n h => by
  have hvalue (k : ℕ) : Nat.ofDigitChars 10 (zeroPadded width k).toList 0 = k := by
    simp only [zeroPadded, String.toList_ofList, Nat.ofDigitChars_append,
      Nat.ofDigitChars_replicate_zero, Nat.mul_zero]
    exact Nat.ofDigitChars_ten_toDigits
  rw [← hvalue m, h, hvalue]

/-! ### Counters -/

/-- `Counter[σ]` -/
structure Counter (σ : Type) where
  keys : Finset σ
  count : σ → ℤ
  mem_keys : ∀ s, count s ≠ 0 → s ∈ keys

namespace Counter

variable {σ : Type}

def empty : Counter σ where
  keys := ∅
  count _ := 0
  mem_keys _ h := absurd rfl h

variable [DecidableEq σ] (c d : Counter σ)

/-- `c[s] += n` -/
def add (s : σ) (n : ℤ) : Counter σ where
  keys := insert s c.keys
  count t := if t = s then c.count s + n else c.count t
  mem_keys t h := by
    split at h
    · rename_i heq
      exact heq ▸ Finset.mem_insert_self _ _
    · exact Finset.mem_insert_of_mem (c.mem_keys t h)

theorem count_add (s : σ) (n : ℤ) (t : σ) :
    (c.add s n).count t = c.count t + if s = t then n else 0 := by
  by_cases h : s = t
  · simp [add, h]
  · simp [add, h, Ne.symm h]

/-- `c.update(d)` -/
def update : Counter σ where
  keys := c.keys ∪ d.keys
  count s := c.count s + d.count s
  mem_keys s h := by
    rw [Finset.mem_union]
    by_contra hs
    rw [not_or] at hs
    refine h ?_
    rw [not_not.mp (mt (c.mem_keys s) hs.1), not_not.mp (mt (d.mem_keys s) hs.2), add_zero]

/-- `frozenset(s for s, n in c.items() if n > 0)` -/
def positives : Finset σ := c.keys.filter fun s => 0 < c.count s

/-- `+c` -/
def positive : Counter σ where
  keys := c.positives
  count s := max 0 (c.count s)
  mem_keys s h := by
    have hpos : 0 < c.count s := lt_of_not_ge fun hle => h (max_eq_left hle)
    exact Finset.mem_filter.mpr ⟨c.mem_keys s hpos.ne', hpos⟩

@[simp]
theorem count_update (s : σ) : (c.update d).count s = c.count s + d.count s := rfl

omit [DecidableEq σ] in
@[simp]
theorem count_positive (s : σ) : c.positive.count s = max 0 (c.count s) := rfl

omit [DecidableEq σ] in
@[simp]
theorem mem_positives {s : σ} : s ∈ c.positives ↔ 0 < c.count s := by
  rw [positives, Finset.mem_filter, and_iff_right_iff_imp]
  exact fun h => c.mem_keys s h.ne'

end Counter

/-! ### Sorting -/

section Sorting

variable {α κ : Type*} [LinearOrder κ]

/-- `sorted(items, key=key)`, which is stable. -/
def sortedBy (key : α → κ) (items : List α) : List α :=
  items.insertionSort fun a b => key a ≤ key b

/-- `out` is `items` in the order of `key`; items with one key keep their order. -/
structure StablySorted (key : α → κ) (items out : List α) : Prop where
  perm : out.Perm items
  ordered : out.Pairwise fun a b => key a ≤ key b
  stable : ∀ k, out.filter (fun a => key a = k) = items.filter fun a => key a = k

theorem stablySorted_sortedBy (key : α → κ) (items : List α) :
    StablySorted key items (sortedBy key items) := by
  have : Std.Total fun a b => key a ≤ key b := ⟨fun _ _ => le_total _ _⟩
  have : IsTrans α fun a b => key a ≤ key b := ⟨fun _ _ _ => le_trans⟩
  have hperm : (sortedBy key items).Perm items := List.perm_insertionSort _ items
  refine ⟨hperm, List.pairwise_insertionSort _ items, fun k => ?_⟩
  -- the items with key `k` are a sorted sublist, and sorting keeps those in their order
  have hsub : (items.filter fun a => key a = k).Sublist (sortedBy key items) := by
    refine List.sublist_insertionSort (List.pairwise_iff_forall_sublist.mpr fun {a b} hab => ?_)
      List.filter_sublist
    have hkey : ∀ c ∈ [a, b], key c = k := fun c hc =>
      of_decide_eq_true (List.mem_filter.mp (hab.subset hc)).2
    have ha := hkey a (by simp)
    have hb := hkey b (by simp)
    exact (ha.trans hb.symm).le
  have hfilter := hsub.filter fun a => key a = k
  rw [List.filter_filter] at hfilter
  simp only [Bool.and_self] at hfilter
  exact (hfilter.eq_of_length (hperm.filter _).length_eq.symm).symm

theorem sortedBy_eq_nil {key : α → κ} {items : List α} : sortedBy key items = [] ↔ items = [] := by
  rw [← List.length_eq_zero_iff, (stablySorted_sortedBy key items).perm.length_eq,
    List.length_eq_zero_iff]

end Sorting

end Vemsa.Support

import Vemsa.Support.Codes
import Vemsa.Pipeline.Normalize

/-!
# Pipeline — Spelling

The Swedish speller loses nothing.  A spelled cardinal is a text of counts from 0 to 99 and of marks in
turn, "hundra", "tusen" and so on (`Reading`), that can be read in one way only; what it is read as has
the number for its value (`value_readCardinal`).  A number read digit by digit is a text in the code of
the ten digits, and never begins as a cardinal does.

* `text_readCardinal`: what the speller writes is the text of a reading.
* `readCardinal_injective`: no two cardinals are spelled alike.
* `digits_ne_cardinal`: nor a cardinal and a digit-by-digit reading.
-/

namespace Vemsa.Pipeline
open Vemsa.Support

/-! ### Counts and marks -/

/-- What stands between two counts; "tusen" loses its "t" after "ett". -/
inductive Mark where
  | hundra | tusen | usen | miljon | miljoner
deriving DecidableEq

def Mark.text : Mark → Text
  | .hundra => "hundra".toList
  | .tusen => "tusen".toList
  | .usen => "usen".toList
  | .miljon => "miljon".toList
  | .miljoner => "miljoner".toList

def marks : List Text := [Mark.hundra, .tusen, .usen, .miljon, .miljoner].map Mark.text

/-- The word for a count below a hundred; 0 is not written. -/
def countWord (v : ℕ) : Text := if v = 0 then [] else svBelowHundred v

def endsInEtt (word : Text) : Bool := "ett".toList.isSuffixOf word

/-- The count in the common gender. -/
def commonWord (word : Text) : Text :=
  if endsInEtt word then word.take (word.length - 3) ++ "en".toList else word

/-- The words for all counts, with the counts. -/
def counts : List (Text × ℕ) :=
  ((List.range 100).map fun v => (countWord v, v)) ++
    ((List.range 100).filter fun v => endsInEtt (countWord v)).map fun v => (commonWord (countWord v), v)

def countWords : List Text := counts.map Prod.fst

/-- The count a word stands for. -/
def countOf (word : Text) : ℕ := (counts.lookup word).getD 0

theorem counts_lookup : ∀ v < 100, counts.lookup (countWord v) = some v ∧
    counts.lookup (commonWord (countWord v)) = some v := by decide +kernel

theorem countWords_clear : ∀ a ∈ countWords, ∀ b ∈ countWords, Clear marks a b := by decide +kernel

theorem marks_clear : ∀ a ∈ marks, ∀ b ∈ marks,
    Clear (countWords.filter (fun word => !word.isEmpty) ++ marks) a b := by decide +kernel

section Counts

variable {v : ℕ} {word : Text}

theorem mem_countWords (h : counts.lookup word = some v) : word ∈ countWords := by
  obtain ⟨l₁, l₂, hsplit, -⟩ := List.lookup_eq_some_iff.mp h
  exact List.mem_map.mpr ⟨(word, v), by rw [hsplit]; simp, rfl⟩

theorem countWord_mem (h : v < 100) : countWord v ∈ countWords := mem_countWords (counts_lookup v h).1

theorem commonWord_mem (h : v < 100) : commonWord (countWord v) ∈ countWords :=
  mem_countWords (counts_lookup v h).2

theorem countOf_countWord (h : v < 100) : countOf (countWord v) = v := by
  rw [countOf, (counts_lookup v h).1, Option.getD_some]

theorem countOf_commonWord (h : v < 100) : countOf (commonWord (countWord v)) = v := by
  rw [countOf, (counts_lookup v h).2, Option.getD_some]

end Counts

/-! ### Readings -/

/-- A spelled number: counts with a mark each, and a last count. -/
structure Reading where
  chunks : List (Text × Mark)
  last : Text

def chunkTexts (chunks : List (Text × Mark)) : List (Text × Text) :=
  chunks.map fun chunk => (chunk.1, chunk.2.text)

def Reading.text (r : Reading) : Text := joined (chunkTexts r.chunks) r.last

/-- The reading, after more chunks. -/
def Reading.after (r : Reading) (chunks : List (Text × Mark)) : Reading := ⟨chunks ++ r.chunks, r.last⟩

/-- The reading as a count of something else. -/
def Reading.counted (r : Reading) (word : Text) (mark : Mark) : List (Text × Mark) :=
  r.chunks ++ [(word, mark)]

def readBelowThousand (n : ℕ) : Reading where
  chunks := if n / 100 = 0 then [] else [(if n / 100 = 1 then [] else countWord (n / 100), .hundra)]
  last := countWord (n % 100)

def thousandChunks (thousands : ℕ) : List (Text × Mark) :=
  let r := readBelowThousand thousands
  if thousands = 1 then [([], .tusen)]
  else r.counted r.last (if endsInEtt r.last then .usen else .tusen)

def readBelowMillion (n : ℕ) : Reading :=
  if 1100 ≤ n ∧ n ≤ 1999 then ⟨[(countWord (n / 100), .hundra)], countWord (n % 100)⟩
  else if n / 1000 = 0 then readBelowThousand n
  else (readBelowThousand (n % 1000)).after (thousandChunks (n / 1000))

def millionChunks (millions : ℕ) : List (Text × Mark) :=
  let r := readBelowThousand millions
  if millions = 1 then [("en".toList, .miljon)] else r.counted (commonWord r.last) .miljoner

def readCardinal (n : ℕ) : Reading :=
  if n / 1000000 = 0 then readBelowMillion n
  else (readBelowMillion (n % 1000000)).after (millionChunks (n / 1000000))

/-! ### What is written -/

section Texts

variable {n v : ℕ} {chunks : List (Text × Mark)} {r : Reading}

theorem text_after (r : Reading) (chunks : List (Text × Mark)) :
    (r.after chunks).text = joined (chunkTexts chunks) [] ++ r.text := by
  simp only [Reading.text, Reading.after, chunkTexts, List.map_append]
  exact joined_append _ _ _

theorem text_counted (r : Reading) (word : Text) (mark : Mark) :
    joined (chunkTexts (r.counted word mark)) [] =
      joined (chunkTexts r.chunks) [] ++ (word ++ mark.text) := by
  simp [Reading.counted, chunkTexts, joined_append, joined]

theorem text_eq_append (r : Reading) : r.text = joined (chunkTexts r.chunks) [] ++ r.last := by
  have h := joined_append (chunkTexts r.chunks) [] r.last
  rwa [List.append_nil] at h

theorem countWord_eq (v : ℕ) : countWord v = if v ≠ 0 then svBelowHundred v else [] := by
  by_cases hv : v = 0 <;> simp [countWord, hv]

/-- The hundreds of a number, as they are written. -/
def hundredsText (hundreds : ℕ) : Text :=
  if hundreds = 0 then [] else (if hundreds = 1 then [] else countWord hundreds) ++ Mark.text .hundra

theorem joined_hundreds (n : ℕ) :
    joined (chunkTexts (readBelowThousand n).chunks) [] = hundredsText (n / 100) := by
  by_cases hzero : n / 100 = 0
  · rw [readBelowThousand, hundredsText, if_pos hzero, if_pos hzero]
    rfl
  · rw [readBelowThousand, hundredsText, if_neg hzero, if_neg hzero]
    exact congrArg (_ ++ ·) (List.append_nil _)

theorem text_readBelowThousand (h : n < 1000) : (readBelowThousand n).text = svBelowThousand n := by
  have hone : n / 100 ≠ 0 → countWord (n / 100) = svOne (n / 100) := fun hne => by
    rw [countWord, if_neg hne, svBelowHundred, if_pos (by omega)]
  rw [text_eq_append, joined_hundreds, svBelowThousand, ← countWord_eq, hundredsText]
  refine congrArg (· ++ countWord (n % 100)) ?_
  by_cases hzero : n / 100 = 0
  · rw [if_pos hzero, if_neg (not_not.mpr hzero)]
  · rw [if_neg hzero, if_pos hzero, hone hzero]
    rfl

/-- A "t" is kept unless two more follow. -/
theorem replaceTtt_cons {c : Char} {text : Text} (h : c = 't' → ∀ rest, text ≠ 't' :: 't' :: rest) :
    replaceTtt (c :: text) = c :: replaceTtt text := by
  rw [replaceTtt]
  exact fun rest hc heq => h hc rest heq

/-- No match goes across another letter. -/
theorem replaceTtt_append {c : Char} (hc : c ≠ 't') (before after : Text) :
    replaceTtt (before ++ c :: after) = replaceTtt (before ++ [c]) ++ replaceTtt after := by
  fun_induction replaceTtt before with
  | case1 before ih => simp only [List.cons_append, replaceTtt, ih]
  | case2 d before hd ih =>
      have hkeep : ∀ rest : Text, d = 't' → ∀ rest', before ++ c :: rest ≠ 't' :: 't' :: rest' := by
        rintro rest rfl rest' heq
        cases before with
        | nil => exact hc (List.cons.inj heq).1
        | cons e before =>
            obtain ⟨rfl, htail⟩ := List.cons.inj heq
            cases before with
            | nil => exact hc (List.cons.inj htail).1
            | cons f before =>
                obtain ⟨rfl, -⟩ := List.cons.inj htail
                exact hd before rfl rfl
      rw [List.cons_append, List.cons_append, replaceTtt_cons (hkeep after), replaceTtt_cons (hkeep []),
        ih, List.cons_append]
  | case3 =>
      rw [List.nil_append, List.nil_append, replaceTtt_cons fun h => absurd h hc,
        replaceTtt_cons fun h => absurd h hc]
      rfl

theorem hundredsText_ends : ∀ hundreds < 10, hundreds ≠ 0 →
    hundredsText hundreds = (hundredsText hundreds).dropLast ++ ['a'] ∧
      replaceTtt (hundredsText hundreds) = hundredsText hundreds := by decide +kernel

theorem replaceTtt_tusen : ∀ v < 100, replaceTtt (countWord v ++ "tusen".toList) =
    countWord v ++ (if endsInEtt (countWord v) then Mark.usen else .tusen).text := by decide +kernel

theorem replaceTtt_hundreds {hundreds : ℕ} (h : hundreds < 10) (after : Text) :
    replaceTtt (hundredsText hundreds ++ after) = hundredsText hundreds ++ replaceTtt after := by
  by_cases hzero : hundreds = 0
  · rw [hundredsText, if_pos hzero]
    rfl
  · obtain ⟨hends, hsame⟩ := hundredsText_ends hundreds h hzero
    rw [hends] at hsame ⊢
    rw [List.append_assoc, List.singleton_append, replaceTtt_append (by decide), hsame]

theorem text_thousandChunks {thousands : ℕ} (h : thousands < 1000) :
    joined (chunkTexts (thousandChunks thousands)) [] =
      replaceTtt ((if thousands = 1 then [] else svBelowThousand thousands) ++ "tusen".toList) := by
  by_cases hone : thousands = 1
  · rw [thousandChunks, if_pos hone, if_pos hone]
    decide
  · rw [thousandChunks, if_neg hone, if_neg hone, text_counted, ← text_readBelowThousand h, text_eq_append,
      joined_hundreds, List.append_assoc, replaceTtt_hundreds (by omega)]
    exact congrArg (hundredsText (thousands / 100) ++ ·)
      (replaceTtt_tusen (thousands % 100) (Nat.mod_lt _ (by decide))).symm

/-- Nothing is written for no rest. -/
theorem rest_text {spell : ℕ → Text} (h : spell 0 = []) (rest : ℕ) :
    (if rest ≠ 0 then spell rest else []) = spell rest := by
  by_cases hrest : rest = 0 <;> simp [hrest, h]

theorem text_readBelowMillion (h : n < 1000000) : (readBelowMillion n).text = svBelowMillion n := by
  rw [readBelowMillion, svBelowMillion, rest_text (show svBelowThousand 0 = [] by decide)]
  split
  · have hne : n / 100 ≠ 0 := by omega
    rw [← countWord_eq, text_eq_append, countWord, if_neg hne]
    refine congrArg (· ++ countWord (n % 100)) ?_
    exact congrArg (svBelowHundred (n / 100) ++ ·) (List.append_nil _)
  · split
    · rw [Nat.mod_eq_of_lt (by omega), text_readBelowThousand (by omega)]
    · rw [text_after, text_thousandChunks (by omega), text_readBelowThousand (Nat.mod_lt _ (by decide))]

theorem countWord_length : ∀ v < 100, v ≠ 0 → 3 ≤ (countWord v).length := by decide +kernel

theorem hundredsText_not_ett : ∀ hundreds < 10, endsInEtt (hundredsText hundreds) = false := by
  decide +kernel

/-- Whether a number ends in "ett" shows in its last count. -/
theorem endsInEtt_hundreds {hundreds : ℕ} (h : hundreds < 10) (hv : v < 100) :
    endsInEtt (hundredsText hundreds ++ countWord v) = endsInEtt (countWord v) := by
  by_cases hzero : v = 0
  · rw [countWord, if_pos hzero, List.append_nil, hundredsText_not_ett hundreds h]
    rfl
  · have hlong := countWord_length v hv hzero
    refine Bool.eq_iff_iff.mpr ?_
    rw [endsInEtt, endsInEtt, List.isSuffixOf_iff_suffix, List.isSuffixOf_iff_suffix]
    refine ⟨fun hett => ?_, fun hett => hett.trans (List.suffix_append _ _)⟩
    exact List.suffix_of_suffix_length_le hett (List.suffix_append _ _) hlong

theorem commonWord_hundreds {hundreds : ℕ} (h : hundreds < 10) (hv : v < 100) :
    commonWord (hundredsText hundreds ++ countWord v) =
      hundredsText hundreds ++ commonWord (countWord v) := by
  rw [commonWord, commonWord, endsInEtt_hundreds h hv]
  split
  · rename_i hett
    have hlong : 3 ≤ (countWord v).length :=
      (List.isSuffixOf_iff_suffix.mp hett).length_le
    rw [List.length_append, Nat.add_sub_assoc hlong, List.take_length_add_append, List.append_assoc]
  · rfl

theorem text_millionChunks {millions : ℕ} (h : millions < 1000) :
    joined (chunkTexts (millionChunks millions)) [] =
      if millions = 1 then "enmiljon".toList else svMillionsPrefix millions ++ "miljoner".toList := by
  by_cases hone : millions = 1
  · rw [millionChunks, if_pos hone, if_pos hone]
    decide
  · rw [millionChunks, if_neg hone, if_neg hone, text_counted, joined_hundreds, ← List.append_assoc]
    refine congrArg (· ++ "miljoner".toList) ?_
    rw [svMillionsPrefix, ← text_readBelowThousand h, text_eq_append, joined_hundreds]
    exact (commonWord_hundreds (by omega) (Nat.mod_lt _ (by decide))).symm

theorem text_readCardinal (h : n < 1000000000) : (readCardinal n).text =
    if n / 1000000 = 0 then svBelowMillion (n % 1000000)
    else
      (if n / 1000000 = 1 then "enmiljon".toList
        else svMillionsPrefix (n / 1000000) ++ "miljoner".toList) ++
        if n % 1000000 ≠ 0 then svBelowMillion (n % 1000000) else [] := by
  rw [readCardinal, rest_text (by decide)]
  split
  · rw [Nat.mod_eq_of_lt (by omega), text_readBelowMillion (by omega)]
  · rw [text_after, text_millionChunks (by omega), text_readBelowMillion (Nat.mod_lt _ (by decide))]

end Texts

/-! ### What is read -/

/-- All counts of the reading are among the count words. -/
def Counted (chunks : List (Text × Mark)) : Prop := ∀ chunk ∈ chunks, chunk.1 ∈ countWords

/-- The value of a reading: what is complete, and the hundreds read since. -/
def value (total current : ℕ) : List (Text × Mark) → Text → ℕ
  | [], last => total + current + countOf last
  | (word, mark) :: chunks, last =>
    match mark with
    | .hundra => value total (max 1 (countOf word) * 100) chunks last
    | .tusen | .usen => value (total + max 1 (current + countOf word) * 1000) 0 chunks last
    | .miljon | .miljoner => value (total + (current + countOf word) * 1000000) 0 chunks last

def Reading.value (r : Reading) : ℕ := Pipeline.value 0 0 r.chunks r.last

section Values

variable {n total current : ℕ} {chunks : List (Text × Mark)} {last : Text}

theorem nil_mem_countWords : [] ∈ countWords := countWord_mem (by decide : 0 < 100)

theorem countOf_nil : countOf [] = 0 := countOf_countWord (by decide : 0 < 100)

theorem hundreds_counted (h : n < 1000) : Counted (readBelowThousand n).chunks := by
  rw [readBelowThousand]
  split
  · exact fun _ hmem => absurd hmem List.not_mem_nil
  · refine List.forall_mem_singleton.mpr ?_
    dsimp only
    split
    · exact nil_mem_countWords
    · exact countWord_mem (by omega)

theorem last_readBelowThousand (n : ℕ) : (readBelowThousand n).last = countWord (n % 100) := rfl

theorem value_nil (total current : ℕ) (last : Text) :
    value total current [] last = total + current + countOf last := rfl

theorem value_hundra (total current : ℕ) (word : Text) (chunks : List (Text × Mark)) (last : Text) :
    value total current ((word, .hundra) :: chunks) last =
      value total (max 1 (countOf word) * 100) chunks last := rfl

theorem value_tusen (ett : Bool) (total current : ℕ) (word : Text) (chunks : List (Text × Mark))
    (last : Text) : value total current ((word, if ett then .usen else .tusen) :: chunks) last =
      value (total + max 1 (current + countOf word) * 1000) 0 chunks last := by
  cases ett <;> rfl

/-- The hundreds come to the current count. -/
theorem value_hundreds (h : n < 1000) (total : ℕ) (chunks : List (Text × Mark)) (last : Text) :
    value total 0 ((readBelowThousand n).chunks ++ chunks) last =
      value total (n / 100 * 100) chunks last := by
  rw [readBelowThousand]
  by_cases hzero : n / 100 = 0
  · rw [if_pos hzero, hzero, Nat.zero_mul]
    rfl
  · rw [if_neg hzero]
    rw [List.singleton_append, value_hundra]
    by_cases hone : n / 100 = 1
    · rw [if_pos hone, countOf_nil, hone]
      rfl
    · rw [if_neg hone, countOf_countWord (by omega), max_eq_right (by omega)]

theorem value_readBelowThousand (h : n < 1000) (total : ℕ) :
    value total 0 (readBelowThousand n).chunks (readBelowThousand n).last = total + n := by
  rw [← List.append_nil (readBelowThousand n).chunks, value_hundreds h]
  rw [value_nil, last_readBelowThousand, countOf_countWord (Nat.mod_lt _ (by decide))]
  omega

theorem value_thousands (h : n < 1000) (hpos : n ≠ 0) (total : ℕ) (chunks : List (Text × Mark))
    (last : Text) :
    value total 0 (thousandChunks n ++ chunks) last = value (total + n * 1000) 0 chunks last := by
  rw [thousandChunks]
  by_cases hone : n = 1
  · rw [if_pos hone, hone]
    rw [List.singleton_append, value, countOf_nil]
    rfl
  · rw [if_neg hone, Reading.counted, List.append_assoc, value_hundreds h, List.singleton_append,
      value_tusen, last_readBelowThousand, countOf_countWord (Nat.mod_lt _ (by decide))]
    have hcount : max 1 (n / 100 * 100 + n % 100) = n := by omega
    rw [hcount]

theorem value_readBelowMillion (h : n < 1000000) (total : ℕ) :
    value total 0 (readBelowMillion n).chunks (readBelowMillion n).last = total + n := by
  rw [readBelowMillion]
  split
  · rw [value_hundra, value_nil, countOf_countWord (by omega),
      countOf_countWord (Nat.mod_lt _ (by decide))]
    omega
  · split
    · exact value_readBelowThousand (by omega) total
    · rename_i hthousands
      rw [Reading.after, value_thousands (by omega) hthousands,
        value_readBelowThousand (Nat.mod_lt _ (by decide))]
      omega

theorem value_millions (h : n < 1000) (total : ℕ) (chunks : List (Text × Mark)) (last : Text) :
    value total 0 (millionChunks n ++ chunks) last = value (total + n * 1000000) 0 chunks last := by
  rw [millionChunks]
  by_cases hone : n = 1
  · rw [if_pos hone, hone]
    rw [List.singleton_append, value, show countOf "en".toList = 1 from
      countOf_commonWord (by decide : 1 < 100)]
  · rw [if_neg hone, Reading.counted, List.append_assoc, value_hundreds h]
    have hcount : n / 100 * 100 + countOf (commonWord (readBelowThousand n).last) = n := by
      rw [last_readBelowThousand, countOf_commonWord (Nat.mod_lt _ (by decide))]
      omega
    rw [List.singleton_append, value, hcount]

/-- **A cardinal is read as the number it was written for.** -/
theorem value_readCardinal (h : n < 1000000000) : (readCardinal n).value = n := by
  rw [readCardinal, Reading.value]
  split
  · rw [value_readBelowMillion (by omega), Nat.zero_add]
  · rw [Reading.after, value_millions (by omega), value_readBelowMillion (Nat.mod_lt _ (by decide))]
    omega

end Values

/-! ### Cardinals -/

section Cardinals

variable {m n : ℕ}

theorem Counted.append {chunks chunks' : List (Text × Mark)} (h : Counted chunks) (h' : Counted chunks') :
    Counted (chunks ++ chunks') := List.forall_mem_append.mpr ⟨h, h'⟩

theorem thousands_counted (h : n < 1000) : Counted (thousandChunks n) := by
  rw [thousandChunks]
  split
  · exact List.forall_mem_singleton.mpr nil_mem_countWords
  · exact (hundreds_counted h).append
      (List.forall_mem_singleton.mpr (countWord_mem (Nat.mod_lt _ (by decide))))

theorem millions_counted (h : n < 1000) : Counted (millionChunks n) := by
  rw [millionChunks]
  split
  · exact List.forall_mem_singleton.mpr (commonWord_mem (by decide : 1 < 100))
  · exact (hundreds_counted h).append
      (List.forall_mem_singleton.mpr (commonWord_mem (Nat.mod_lt _ (by decide))))

theorem belowMillion_counted (h : n < 1000000) :
    Counted (readBelowMillion n).chunks ∧ (readBelowMillion n).last ∈ countWords := by
  have hlast : ∀ m, countWord (m % 100) ∈ countWords := fun m => countWord_mem (Nat.mod_lt _ (by decide))
  rw [readBelowMillion]
  split
  · exact ⟨List.forall_mem_singleton.mpr (countWord_mem (by omega)), hlast n⟩
  · split
    · exact ⟨hundreds_counted (by omega), hlast n⟩
    · exact ⟨(thousands_counted (by omega)).append (hundreds_counted (Nat.mod_lt _ (by decide))), hlast _⟩

theorem cardinal_counted (h : n < 1000000000) :
    Counted (readCardinal n).chunks ∧ (readCardinal n).last ∈ countWords := by
  rw [readCardinal]
  split
  · exact belowMillion_counted (by omega)
  · obtain ⟨hchunks, hlast⟩ := belowMillion_counted (Nat.mod_lt n (by decide : 0 < 1000000))
    exact ⟨(millions_counted (by omega)).append hchunks, hlast⟩

theorem mark_mem (mark : Mark) : mark.text ∈ marks := by
  refine List.mem_map_of_mem ?_
  cases mark <;> decide

theorem marks_ne_nil : ∀ mark ∈ marks, mark ≠ [] := by decide

theorem mark_text_injective : Function.Injective Mark.text := by
  intro mark mark' h
  cases mark <;> cases mark' <;> first | rfl | exact absurd h (by decide)

theorem Counted.madeOf {r : Reading} (h : Counted r.chunks ∧ r.last ∈ countWords) :
    MadeOf countWords marks (chunkTexts r.chunks) r.last := by
  refine ⟨fun chunk hmem => ?_, h.2⟩
  obtain ⟨chunk, hchunk, rfl⟩ := List.mem_map.mp hmem
  exact ⟨h.1 chunk hchunk, mark_mem _⟩

/-- **No two cardinals are spelled alike.** -/
theorem readCardinal_injective (hm : m < 1000000000) (hn : n < 1000000000)
    (h : (readCardinal m).text = (readCardinal n).text) : m = n := by
  obtain ⟨hchunks, hlast⟩ := joined_injective countWords_clear marks_clear marks_ne_nil
    (Counted.madeOf (cardinal_counted hm)) (Counted.madeOf (cardinal_counted hn)) h
  have hinjective : Function.Injective fun chunk : Text × Mark => (chunk.1, chunk.2.text) :=
    fun chunk chunk' heq => by
      obtain ⟨hword, hmark⟩ := Prod.mk.inj heq
      exact Prod.ext hword (mark_text_injective hmark)
  have hsame := List.map_injective_iff.mpr hinjective hchunks
  rw [← value_readCardinal hm, ← value_readCardinal hn, Reading.value, Reading.value, hsame, hlast]

end Cardinals

/-! ### Digit by digit -/

/-- The words of the ten digits. -/
def digitWords : List Text := (List.range 10).map svOne

theorem digitWords_apart : ∀ d < 10, ∀ d' < 10, svOne d <+: svOne d' → d = d' := by decide +kernel

theorem digitWords_clear : ∀ d < 10, ∀ word ∈ countWords,
    Clear digitWords (svOne d) word ∧ Clear marks word (svOne d) := by decide +kernel

theorem noll_not_mem : svOne 0 ∉ countWords := by decide +kernel

theorem digitWords_marks : ∀ d < 10, ∀ mark ∈ marks, ¬ svOne d <+: mark ∧ ¬ mark <+: svOne d := by
  decide +kernel

section Digits

variable {d : ℕ} {ds ds' : List ℕ}

theorem digits_injective (hds : ∀ d ∈ ds, d < 10) (hds' : ∀ d ∈ ds', d < 10)
    (h : ds.flatMap svOne = ds'.flatMap svOne) : ds = ds' := by
  refine flatMap_injective (fun d hd d' hd' hbegins => ?_) (fun d hd => ?_) (fun d hd => ?_) h
  · rcases hbegins with hbegins | hbegins
    · exact digitWords_apart d (hds d hd) d' (hds' d' hd') hbegins
    · exact (digitWords_apart d' (hds' d' hd') d (hds d hd) hbegins).symm
  · exact svOne_ne_nil ((hds d hd).trans (by decide))
  · exact svOne_ne_nil ((hds' d hd).trans (by decide))

theorem startsWith_digits (hds : ∀ d ∈ ds, d < 10) : StartsWith digitWords (ds.flatMap svOne) := by
  cases ds with
  | nil => exact .inl rfl
  | cons d ds =>
      exact .inr ⟨svOne d, List.mem_map_of_mem (List.mem_range.mpr (hds d List.mem_cons_self)),
        List.prefix_append _ _⟩

/-- A cardinal begins with a count, and goes on with a mark if it goes on. -/
theorem text_begins {r : Reading} (h : Counted r.chunks ∧ r.last ∈ countWords) :
    ∃ word ∈ countWords, ∃ rest, StartsWith marks rest ∧ r.text = word ++ rest := by
  obtain ⟨chunks, last⟩ := r
  cases chunks with
  | nil => exact ⟨last, h.2, [], .inl rfl, (List.append_nil last).symm⟩
  | cons chunk chunks =>
      exact ⟨chunk.1, h.1 chunk List.mem_cons_self, _,
        .inr ⟨chunk.2.text, mark_mem _, List.prefix_append _ _⟩, rfl⟩

/-- **No digit-by-digit reading is a cardinal**, unless it is of one digit, and not of "noll". -/
theorem digits_ne_cardinal (hd : d < 10) (hds : ∀ d ∈ ds, d < 10) (hlong : d = 0 ∨ ds ≠ []) {r : Reading}
    (hr : Counted r.chunks ∧ r.last ∈ countWords) : (d :: ds).flatMap svOne ≠ r.text := by
  intro heq
  obtain ⟨word, hword, rest, hrest, htext⟩ := text_begins hr
  rw [htext, List.flatMap_cons] at heq
  obtain ⟨hclear, hclear'⟩ := digitWords_clear d hd word hword
  obtain ⟨rfl, hsame⟩ := cancel_word hclear hclear' (startsWith_digits hds) hrest heq
  rcases hlong with rfl | hne
  · exact noll_not_mem hword
  · -- a digit would be followed by a digit and by a mark
    obtain ⟨d', ds, rfl⟩ := List.exists_cons_of_ne_nil hne
    have hd' := hds d' List.mem_cons_self
    have hbegin : svOne d' <+: rest := hsame ▸ List.prefix_append _ _
    rcases hrest with hnil | ⟨mark, hmark, hbegins⟩
    · rw [hnil, List.prefix_nil] at hbegin
      exact svOne_ne_nil (hd'.trans (by decide)) hbegin
    · obtain ⟨hneither, hnor⟩ := digitWords_marks d' hd' mark hmark
      exact (List.prefix_or_prefix_of_prefix hbegin hbegins).elim hneither hnor

end Digits

/-! ### Runs of digits -/

/-- What `int` makes of the ASCII digits. -/
def Unicode.ReadsAscii (U : Unicode) : Prop :=
  ∀ c : Char, c.isDigit = true → U.digit c = some (c.toNat - '0'.toNat)

/-- A non-empty run of ASCII digits. -/
structure DigitRun (digits : Text) : Prop where
  nonempty : digits ≠ []
  ascii : ∀ c ∈ digits, c.isDigit = true

def digitOf (c : Char) : ℕ := c.toNat - '0'.toNat

section Runs

variable {U : Unicode} (hU : U.ReadsAscii) {digits digits' : Text}

theorem digitOf_lt {c : Char} (h : c.isDigit = true) : digitOf c < 10 := by
  obtain ⟨hlow, hhigh⟩ := Char.isDigit_iff_toNat.mp h
  have hnine : '9'.toNat = '0'.toNat + 9 := rfl
  rw [digitOf]
  omega

theorem digitOf_injective {c c' : Char} (h : c.isDigit = true) (h' : c'.isDigit = true)
    (heq : digitOf c = digitOf c') : c = c' := by
  obtain ⟨hlow, -⟩ := Char.isDigit_iff_toNat.mp h
  obtain ⟨hlow', -⟩ := Char.isDigit_iff_toNat.mp h'
  rw [digitOf, digitOf] at heq
  exact Char.toNat_inj.mp (by omega)

theorem map_digitOf_injective (h : ∀ c ∈ digits, c.isDigit = true) (h' : ∀ c ∈ digits', c.isDigit = true)
    (heq : digits.map digitOf = digits'.map digitOf) : digits = digits' := by
  induction digits generalizing digits' with
  | nil => exact (List.map_eq_nil_iff.mp heq.symm).symm
  | cons c digits ih =>
      cases digits' with
      | nil => cases heq
      | cons c' digits' =>
          obtain ⟨hc, hdigits⟩ := List.forall_mem_cons.mp h
          obtain ⟨hc', hdigits'⟩ := List.forall_mem_cons.mp h'
          obtain ⟨hhead, htail⟩ := List.cons.inj heq
          exact congrArg₂ _ (digitOf_injective hc hc' hhead) (ih hdigits hdigits' htail)

theorem digits_lt (h : ∀ c ∈ digits, c.isDigit = true) : ∀ d ∈ digits.map digitOf, d < 10 := fun d hd => by
  obtain ⟨c, hc, rfl⟩ := List.mem_map.mp hd
  exact digitOf_lt (h c hc)

include hU in
/-- The number in positional notation, with its digits from the last one on. -/
theorem pyInt_eq (h : ∀ c ∈ digits, c.isDigit = true) :
    pyInt U digits = Nat.ofDigits 10 (digits.map digitOf).reverse := by
  rw [Nat.ofDigits_eq_foldr, List.foldr_reverse, List.foldl_map, pyInt]
  refine List.foldl_ext _ _ 0 fun n c hc => ?_
  rw [hU c (h c hc), Option.getD_some, add_comm]
  rfl

include hU in
/-- Without a leading zero the number has the digits it was written with. -/
theorem digits_pyInt {c : Char} (h : ∀ x ∈ c :: digits, x.isDigit = true) (hzero : c ≠ '0') :
    Nat.digits 10 (pyInt U (c :: digits)) = ((c :: digits).map digitOf).reverse := by
  rw [pyInt_eq hU h]
  refine Nat.digits_ofDigits 10 (by decide) _ (fun d hd => ?_) fun hne => ?_
  · exact digits_lt h d (List.mem_reverse.mp hd)
  · simp only [List.map_cons, List.getLast_reverse, List.head_cons]
    intro hd
    exact hzero (digitOf_injective (h c List.mem_cons_self) (by decide) hd)

include hU in
theorem flatMap_digits (h : ∀ c ∈ digits, c.isDigit = true) :
    (digits.flatMap fun digit => svOne (pyInt U [digit])) = (digits.map digitOf).flatMap svOne := by
  rw [List.flatMap_map]
  refine List.flatMap_congr fun c hc => ?_
  rw [pyInt_eq hU (by simpa using h c hc)]
  simp

include hU in
/-- **How a run is spelled**: digit by digit, or as a cardinal. -/
theorem spell_cases (h : DigitRun digits) :
    (∃ d ds, digits.map digitOf = d :: ds ∧ (d = 0 ∨ ds ≠ []) ∧
      spellNumberSv U digits = (d :: ds).flatMap svOne) ∨
    ∃ n, n ≠ 0 ∧ n < 1000000000 ∧ Nat.digits 10 n = (digits.map digitOf).reverse ∧
      spellNumberSv U digits = (readCardinal n).text := by
  obtain ⟨hne, hascii⟩ := h
  obtain ⟨c, digits, rfl⟩ := List.exists_cons_of_ne_nil hne
  have hdigits := flatMap_digits hU hascii
  have hone : ∀ c, c.isDigit = true → pyInt U [c] = digitOf c := fun c hc => by
    rw [pyInt_eq hU (by simpa using hc)]
    simp
  have hc := hascii c List.mem_cons_self
  by_cases hzero : c = '0'
  · refine .inl ⟨digitOf c, digits.map digitOf, rfl, .inl (by rw [hzero]; rfl), ?_⟩
    rw [← List.map_cons, ← hdigits, spellNumberSv]
    subst hzero
    by_cases hnil : digits = []
    · subst hnil
      have hnone : pyInt U ['0'] = 0 := hone '0' hc
      rw [if_neg (by simp [hnone]), if_pos hnone, List.flatMap_singleton, hnone]
    · rw [if_pos (.inl ⟨by simpa using List.length_pos_iff.mpr hnil, rfl⟩)]
  · by_cases hbig : pyInt U (c :: digits) > svMaxCardinal
    · have hmore : digits ≠ [] := by
        rintro rfl
        rw [hone c hc] at hbig
        exact absurd ((digitOf_lt hc).trans (by decide)) (not_lt.mpr hbig.le)
      refine .inl ⟨digitOf c, digits.map digitOf, rfl, .inr (by simpa using hmore), ?_⟩
      rw [← List.map_cons, ← hdigits, spellNumberSv, if_pos (.inr hbig)]
    · have hvalue := digits_pyInt hU hascii hzero
      have hne : pyInt U (c :: digits) ≠ 0 := fun h => by simp [h] at hvalue
      have hlt : pyInt U (c :: digits) < 1000000000 := Nat.lt_succ_of_le (not_lt.mp hbig)
      refine .inr ⟨_, hne, hlt, hvalue, ?_⟩
      rw [spellNumberSv, if_neg (by simp [hzero, not_lt.mp hbig]), text_readCardinal hlt]
      exact if_neg hne

include hU in
/-- **Different runs are spelled differently.** -/
theorem spell_injective (h : DigitRun digits) (h' : DigitRun digits')
    (heq : spellNumberSv U digits = spellNumberSv U digits') : digits = digits' := by
  have hlt := digits_lt h.ascii
  have hlt' := digits_lt h'.ascii
  refine map_digitOf_injective h.ascii h'.ascii ?_
  rcases spell_cases hU h with ⟨d, ds, hds, hlong, hspell⟩ | ⟨n, -, hn, hdigits, hspell⟩ <;>
    rcases spell_cases hU h' with ⟨d', ds', hds', hlong', hspell'⟩ | ⟨n', -, hn', hdigits', hspell'⟩ <;>
    rw [hspell, hspell'] at heq
  · rw [hds] at hlt ⊢
    rw [hds'] at hlt' ⊢
    exact digits_injective hlt hlt' heq
  · rw [hds] at hlt
    obtain ⟨hd, hds⟩ := List.forall_mem_cons.mp hlt
    exact absurd heq (digits_ne_cardinal hd hds hlong (cardinal_counted hn'))
  · rw [hds'] at hlt'
    obtain ⟨hd', hds'⟩ := List.forall_mem_cons.mp hlt'
    exact absurd heq.symm (digits_ne_cardinal hd' hds' hlong' (cardinal_counted hn))
  · obtain rfl := readCardinal_injective hn hn' heq
    exact List.reverse_injective (hdigits.symm.trans hdigits')

include hU in
theorem spell_ne_nil (h : DigitRun digits) : spellNumberSv U digits ≠ [] := by
  have hlt := digits_lt h.ascii
  rcases spell_cases hU h with ⟨d, ds, hds, -, hspell⟩ | ⟨n, hne, hn, -, hspell⟩
  · rw [hspell, List.flatMap_cons]
    rw [hds] at hlt
    exact List.append_ne_nil_of_left_ne_nil (svOne_ne_nil ((hlt d List.mem_cons_self).trans (by decide))) _
  · -- only the reading of 0 is empty
    rw [hspell]
    intro hnil
    have hempty : (readCardinal 0).text = [] := by decide
    exact hne (readCardinal_injective hn (by omega) (hnil.trans hempty.symm))

end Runs

theorem svLetters_not_space : ∀ c ∈ svLetters, isSpace c = false := by
  have h : (svLetters.all fun c => !isSpace c) = true := by decide
  simpa using h

/-- **The speller loses nothing**: no two runs of digits are spelled alike, and what it writes is neither
empty nor does it contain whitespace. -/
theorem speller_loses_nothing {U : Unicode} (hU : U.ReadsAscii) :
    (∀ digits digits', DigitRun digits → DigitRun digits' →
      spellNumberSv U digits = spellNumberSv U digits' → digits = digits') ∧
    ∀ digits, DigitRun digits →
      spellNumberSv U digits ≠ [] ∧ ∀ c ∈ spellNumberSv U digits, isSpace c = false :=
  ⟨fun _ _ => spell_injective hU, fun digits h => ⟨spell_ne_nil hU h, fun c hc =>
    svLetters_not_space c (spelled_spellNumberSv U digits c hc)⟩⟩

theorem Unicode.latin_readsAscii : Unicode.latin.ReadsAscii := fun c hc => by
  obtain ⟨hlow, hhigh⟩ := Char.isDigit_iff_toNat.mp hc
  exact if_pos ⟨hlow, hhigh⟩

/-- A year that is read in hundreds, and a number with a leading zero. -/
theorem speller_loses_nothing_latin :
    spellNumberSv .latin ['1', '9', '9', '9'] ≠ [] ∧
      spellNumberSv .latin ['1', '9', '9', '9'] ≠ spellNumberSv .latin ['0', '1', '9', '9', '9'] :=
  have hyear : DigitRun ['1', '9', '9', '9'] := ⟨by decide, by simp⟩
  have hzero : DigitRun ['0', '1', '9', '9', '9'] := ⟨by decide, by simp⟩
  have ⟨hinjective, hwritten⟩ := speller_loses_nothing Unicode.latin_readsAscii
  ⟨(hwritten _ hyear).1, fun heq => absurd (hinjective _ _ hyear hzero heq) (by decide)⟩

end Vemsa.Pipeline

import Mathlib
import Vemsa.Support.Python

/-!
# Pipeline — Normalize

Text normalization for forced alignment.  The aligner is handed `alignmentNormalizer`'s tokens;
`task=align` hands the aligned words back by counting with `alignableTokens`, which runs none
of the aligner's code.  The two agree on every text and in every language
(`alignment_normalizer_length`), because every pass of the first keeps the number of tokens
that hold a word character.

`Unicode` stands for the tables of the interpreter (`\w`, `\d`, NFKC, `str.lower`),
`SpanMapNormalizer` for the library class the passes run on.
-/

namespace Vemsa.Pipeline
open Vemsa.Support

/-! ### Unicode -/

/-- The letters a Swedish numeral is spelled with. -/
def svLetters : Text := "abcdefghijklmnopqrstuvwxyzåäö".toList

/-- The interpreter's character tables. -/
structure Unicode where
  /-- `\w` -/
  isWord : Char → Bool
  /-- `\d`, with the value `int` gives the digit -/
  digit : Char → Option ℕ
  nfkc : Text → Text
  lower : Text → Text

/-- What the normalizers rely on.  Whitespace is a boundary for NFKC and stays whitespace under
it; a run keeps whether it holds a word character under `lower`, and gains no whitespace. -/
structure Unicode.Lawful (U : Unicode) : Prop where
  nfkc_nil : U.nfkc [] = []
  nfkc_append_space : ∀ a c b, isSpace c = true →
    U.nfkc (a ++ c :: b) = U.nfkc a ++ U.nfkc [c] ++ U.nfkc b
  nfkc_space : ∀ c, isSpace c = true → U.nfkc [c] ≠ [] ∧ ∀ d ∈ U.nfkc [c], isSpace d = true
  lower_run : ∀ u : Text, (∀ c ∈ u, isSpace c = false) →
    (∀ c ∈ U.lower u, isSpace c = false) ∧ (U.lower u).any U.isWord = u.any U.isWord
  word_not_space : ∀ c, U.isWord c = true → isSpace c = false
  digit_word : ∀ c, (U.digit c).isSome = true → U.isWord c = true
  digit_lt : ∀ c d, U.digit c = some d → d < 10
  letter_word : ∀ c ∈ svLetters, U.isWord c = true

/-! ### The patterns -/

/-- The regular expressions of the normalizer. -/
inductive Pattern where
  /-- `\S+` -/
  | nonSpaceRun
  /-- `\d+` -/
  | digitRun
  /-- `[^\w\s]` -/
  | nonWordChar
  /-- `\s+` -/
  | spaceRun
  /-- `^\s+|\s+$` -/
  | edgeSpace
deriving DecidableEq

/-- Every match of the pattern replaced by its image under `f`. -/
def Pattern.sub (U : Unicode) (f : Text → Text) (text : Text) : Pattern → Text
  | nonSpaceRun => rewriteRuns (fun c => !isSpace c) f text
  | digitRun => rewriteRuns (fun c => (U.digit c).isSome) f text
  | nonWordChar => text.flatMap fun c => if isSpace c || U.isWord c then [c] else f [c]
  | spaceRun => rewriteRuns isSpace f text
  | edgeSpace =>
    let rest := text.dropWhile isSpace
    flush f (text.takeWhile isSpace) ++ rest.rdropWhile isSpace ++
      flush f (rest.rtakeWhile isSpace)

/-! ### Swedish cardinals -/

/-- `_SV_ONES` -/
def svOnes : List Text :=
  ["noll", "ett", "två", "tre", "fyra", "fem", "sex", "sju", "åtta", "nio", "tio", "elva",
    "tolv", "tretton", "fjorton", "femton", "sexton", "sjutton", "arton", "nitton"].map
    String.toList

/-- `_SV_TENS` -/
def svTens : List (ℕ × Text) :=
  [(2, "tjugo".toList), (3, "trettio".toList), (4, "fyrtio".toList), (5, "femtio".toList),
    (6, "sextio".toList), (7, "sjuttio".toList), (8, "åttio".toList), (9, "nittio".toList)]

/-- `_SV_MAX_CARDINAL` -/
def svMaxCardinal : ℕ := 999999999

/-- `_SV_ONES[n]` -/
def svOne (n : ℕ) : Text := svOnes.getD n []

/-- `_SV_TENS[n]` -/
def svTen (n : ℕ) : Text := (svTens.lookup n).getD []

/-- `_sv_below_hundred` -/
def svBelowHundred (n : ℕ) : Text :=
  if n < 20 then svOne n
  else svTen (n / 10) ++ if n % 10 ≠ 0 then svOne (n % 10) else []

/-- `_sv_below_thousand` -/
def svBelowThousand (n : ℕ) : Text :=
  (if n / 100 ≠ 0 then (if n / 100 = 1 then [] else svOne (n / 100)) ++ "hundra".toList else []) ++
    if n % 100 ≠ 0 then svBelowHundred (n % 100) else []

/-- `.replace("ttt", "tt")` -/
def replaceTtt : Text → Text
  | 't' :: 't' :: 't' :: cs => 't' :: 't' :: replaceTtt cs
  | c :: cs => c :: replaceTtt cs
  | [] => []

/-- `_sv_below_million` -/
def svBelowMillion (n : ℕ) : Text :=
  if 1100 ≤ n ∧ n ≤ 1999 then
    svBelowHundred (n / 100) ++ "hundra".toList ++
      if n % 100 ≠ 0 then svBelowHundred (n % 100) else []
  else if n / 1000 = 0 then svBelowThousand (n % 1000)
  else
    replaceTtt ((if n / 1000 = 1 then [] else svBelowThousand (n / 1000)) ++ "tusen".toList) ++
      if n % 1000 ≠ 0 then svBelowThousand (n % 1000) else []

/-- `int(digits)` -/
def pyInt (U : Unicode) (digits : Text) : ℕ :=
  digits.foldl (fun n c => 10 * n + (U.digit c).getD 0) 0

/-- The count of millions in the common gender: "ett" at the end becomes "en". -/
def svMillionsPrefix (millions : ℕ) : Text :=
  let before := svBelowThousand millions
  if "ett".toList.isSuffixOf before then before.take (before.length - 3) ++ "en".toList else before

/-- `spell_number_sv` -/
def spellNumberSv (U : Unicode) (digits : Text) : Text :=
  if (digits.length > 1 ∧ digits.head? = some '0') ∨ pyInt U digits > svMaxCardinal then
    digits.flatMap fun digit => svOne (pyInt U [digit])
  else
    let n := pyInt U digits
    if n = 0 then svOne 0
    else if n / 1000000 = 0 then svBelowMillion (n % 1000000)
    else
      (if n / 1000000 = 1 then "enmiljon".toList
        else svMillionsPrefix (n / 1000000) ++ "miljoner".toList) ++
        if n % 1000000 ≠ 0 then svBelowMillion (n % 1000000) else []

/-- `_NUMBER_SPELLERS` -/
def numberSpellers (U : Unicode) : List (Text × (Text → Text)) := [("sv".toList, spellNumberSv U)]

/-- `number_speller` -/
def numberSpeller (U : Unicode) (language : Option String) : Option (Text → Text) :=
  match language with
  | none => none
  | some language =>
    if language.isEmpty then none
    else (numberSpellers U).lookup ((U.lower (pyStrip language).toList).takeWhile (· ≠ '-'))

/-! ### The two normalizers -/

/-- easyaligner's `SpanMapNormalizer`: a text under rewriting that remembers its original. -/
structure SpanMapNormalizer where
  State : Type
  Token : Type
  init : Text → State
  text : State → Text
  transform : State → Pattern → (Text → Text) → State
  getTokenMap : State → List Token
  normalizedToken : Token → Text

/-- `transform` rewrites every match in the current text; `get_token_map` has one entry for each
whitespace-separated token of the final text. -/
structure SpanMapNormalizer.Lawful (S : SpanMapNormalizer) (U : Unicode) : Prop where
  text_init : ∀ t, S.text (S.init t) = t
  text_transform : ∀ s p f, S.text (S.transform s p f) = p.sub U f (S.text s)
  tokens_getTokenMap : ∀ s, (S.getTokenMap s).map S.normalizedToken = tokens isSpace (S.text s)

/-- `alignment_normalizer` -/
def alignmentNormalizer (U : Unicode) (S : SpanMapNormalizer) (language : Option String)
    (text : String) : List Text × List S.Token :=
  let s := S.transform (S.init text.toList) .nonSpaceRun U.nfkc
  let s :=
    match numberSpeller U language with
    | none => s
    | some speller =>
      S.transform s .digitRun fun m => Pattern.spaceRun.sub U (fun _ => []) (speller m)
  let s := S.transform s .nonSpaceRun U.lower
  let s := S.transform s .nonWordChar fun _ => []
  let s := S.transform s .spaceRun fun _ => [' ']
  let s := S.transform s .edgeSpace fun _ => []
  let mapping := S.getTokenMap s
  (mapping.map S.normalizedToken, mapping)

/-- `_NON_ALIGNABLE.sub("", unicodedata.normalize("NFKC", text)).split()` -/
def alignableTokenList (U : Unicode) (text : Text) : List Text :=
  tokens isSpace (Pattern.nonWordChar.sub U (fun _ => []) (U.nfkc text))

/-- `alignable_tokens` -/
def alignableTokens (U : Unicode) (text : String) : ℕ := (alignableTokenList U text.toList).length

/-! ### What the speller writes -/

/-- A numeral is spelled with Swedish letters only. -/
def Spelled (t : Text) : Prop := ∀ c ∈ t, c ∈ svLetters

theorem Spelled.append {s t : Text} (hs : Spelled s) (ht : Spelled t) : Spelled (s ++ t) :=
  fun c hc => (List.mem_append.mp hc).elim (hs c) (ht c)

/-- The check runs over the text, not over all characters. -/
theorem spelled_of_all {t : Text} (h : t.all svLetters.contains = true) : Spelled t :=
  fun c hc => List.contains_iff_mem.mp (List.all_eq_true.mp h c hc)

theorem spelled_nil : Spelled [] := fun _ h => absurd h List.not_mem_nil

theorem Spelled.ite {p : Prop} [Decidable p] {s t : Text} (hs : Spelled s) (ht : Spelled t) :
    Spelled (if p then s else t) := by
  split
  · exact hs
  · exact ht

theorem spelled_svOne (n : ℕ) : Spelled (svOne n) := by
  have h : (svOnes.all fun t => t.all svLetters.contains) = true := by decide
  unfold svOne
  rw [List.getD_eq_getElem?_getD]
  cases hn : svOnes[n]? with
  | none => exact spelled_nil
  | some t => exact spelled_of_all (List.all_eq_true.mp h t (List.mem_of_getElem? hn))

theorem spelled_svTen (n : ℕ) : Spelled (svTen n) := by
  have h : (svTens.all fun p => p.2.all svLetters.contains) = true := by decide
  unfold svTen
  cases hl : svTens.lookup n with
  | none => exact spelled_nil
  | some t =>
      obtain ⟨l₁, l₂, hsplit, -⟩ := List.lookup_eq_some_iff.mp hl
      exact spelled_of_all (List.all_eq_true.mp h (n, t) (by rw [hsplit]; simp))

theorem spelled_svBelowHundred (n : ℕ) : Spelled (svBelowHundred n) :=
  .ite (spelled_svOne n) (.append (spelled_svTen _) (.ite (spelled_svOne _) spelled_nil))

theorem spelled_hundra : Spelled "hundra".toList := spelled_of_all (by decide)

theorem spelled_svBelowThousand (n : ℕ) : Spelled (svBelowThousand n) :=
  .append (.ite (.append (.ite spelled_nil (spelled_svOne _)) spelled_hundra) spelled_nil)
    (.ite (spelled_svBelowHundred _) spelled_nil)

theorem replaceTtt_subset (t : Text) : ∀ c ∈ replaceTtt t, c ∈ t := by
  fun_induction replaceTtt t with
  | case1 cs ih =>
      intro c hc
      rcases List.mem_cons.mp hc with rfl | hc
      · simp
      · rcases List.mem_cons.mp hc with rfl | hc
        · simp
        · simp [ih c hc]
  | case2 d cs _ ih =>
      intro c hc
      rcases List.mem_cons.mp hc with rfl | hc
      · simp
      · exact List.mem_cons_of_mem d (ih c hc)
  | case3 => simp

theorem replaceTtt_ne_nil {t : Text} (ht : t ≠ []) : replaceTtt t ≠ [] := by
  fun_cases replaceTtt t with
  | case1 => simp
  | case2 => simp
  | case3 => exact absurd rfl ht

theorem spelled_svBelowMillion (n : ℕ) : Spelled (svBelowMillion n) := by
  have tusen : Spelled "tusen".toList := spelled_of_all (by decide)
  refine .ite (.append (.append (spelled_svBelowHundred _) spelled_hundra)
    (.ite (spelled_svBelowHundred _) spelled_nil)) (.ite (spelled_svBelowThousand _) ?_)
  refine .append (fun c hc => ?_) (.ite (spelled_svBelowThousand _) spelled_nil)
  exact ((Spelled.ite spelled_nil (spelled_svBelowThousand _)).append tusen) c
    (replaceTtt_subset _ c hc)

theorem spelled_svMillionsPrefix (n : ℕ) : Spelled (svMillionsPrefix n) := by
  have en : Spelled "en".toList := spelled_of_all (by decide)
  refine .ite (.append (fun c hc => ?_) en) (spelled_svBelowThousand n)
  exact spelled_svBelowThousand n c (List.mem_of_mem_take hc)

/-- Every character of a spelled number is a Swedish letter. -/
theorem spelled_spellNumberSv (U : Unicode) (digits : Text) : Spelled (spellNumberSv U digits) := by
  have enmiljon : Spelled "enmiljon".toList := spelled_of_all (by decide)
  have miljoner : Spelled "miljoner".toList := spelled_of_all (by decide)
  refine .ite (fun c hc => ?_) (.ite (spelled_svOne 0) (.ite (spelled_svBelowMillion _) ?_))
  · obtain ⟨d, -, hd⟩ := List.mem_flatMap.mp hc
    exact spelled_svOne _ c hd
  · exact .append (.ite enmiljon (.append (spelled_svMillionsPrefix _) miljoner))
      (.ite (spelled_svBelowMillion _) spelled_nil)

theorem svOne_ne_nil {n : ℕ} (h : n < 20) : svOne n ≠ [] := by
  have hall : ∀ k < 20, svOne k ≠ [] := by decide
  exact hall n h

theorem svBelowHundred_ne_nil {n : ℕ} (h : n < 100) : svBelowHundred n ≠ [] := by
  have hten : ∀ k < 10, 2 ≤ k → svTen k ≠ [] := by decide
  unfold svBelowHundred
  split
  · exact svOne_ne_nil ‹_›
  · exact List.append_ne_nil_of_left_ne_nil (hten (n / 10) (by omega) (by omega)) _

theorem svBelowThousand_ne_nil {n : ℕ} (h₀ : 0 < n) : svBelowThousand n ≠ [] := by
  unfold svBelowThousand
  by_cases hh : n / 100 = 0
  · have hr : n % 100 ≠ 0 := by omega
    rw [if_pos hr]
    exact List.append_ne_nil_of_right_ne_nil _ (svBelowHundred_ne_nil (Nat.mod_lt _ (by omega)))
  · rw [if_pos hh]
    exact List.append_ne_nil_of_left_ne_nil (List.append_ne_nil_of_right_ne_nil _ (by simp)) _

theorem svBelowMillion_ne_nil {n : ℕ} (h₀ : 0 < n) : svBelowMillion n ≠ [] := by
  unfold svBelowMillion
  split
  · exact List.append_ne_nil_of_left_ne_nil (List.append_ne_nil_of_right_ne_nil _ (by simp)) _
  · split
    · exact svBelowThousand_ne_nil (by omega)
    · exact List.append_ne_nil_of_left_ne_nil
        (replaceTtt_ne_nil (List.append_ne_nil_of_right_ne_nil _ (by simp))) _

/-- A digit run is never spelled as nothing. -/
theorem spellNumberSv_ne_nil {U : Unicode} (hU : U.Lawful) {digits : Text} (hne : digits ≠ [])
    (hd : ∀ c ∈ digits, (U.digit c).isSome = true) : spellNumberSv U digits ≠ [] := by
  unfold spellNumberSv
  split
  · obtain ⟨c, cs, rfl⟩ := List.exists_cons_of_ne_nil hne
    obtain ⟨d, hc⟩ := Option.isSome_iff_exists.mp (hd c List.mem_cons_self)
    rw [List.flatMap_cons]
    refine List.append_ne_nil_of_left_ne_nil (svOne_ne_nil ?_) _
    simpa [pyInt, hc] using Nat.lt_trans (hU.digit_lt c d hc) (by omega : 10 < 20)
  · dsimp only
    split
    · exact svOne_ne_nil (by omega)
    · split
      · exact svBelowMillion_ne_nil (by omega)
      · refine List.append_ne_nil_of_left_ne_nil ?_ _
        split
        · simp
        · exact List.append_ne_nil_of_right_ne_nil _ (by simp)

/-! ### The passes keep the number of alignable tokens -/

section Counting

variable {U : Unicode} (hU : U.Lawful)

/-- The tokens of a text that hold a word character. -/
def wordTokens (U : Unicode) (text : Text) : ℕ := marked isSpace U.isWord false text

theorem nonWordChar_sub_nil (text : Text) :
    Pattern.nonWordChar.sub U (fun _ => []) text =
      text.filter fun c => isSpace c || U.isWord c := by
  induction text with
  | nil => rfl
  | cons c text ih =>
      simp only [Pattern.sub, List.flatMap_cons, List.filter_cons] at ih ⊢
      rw [ih]
      split <;> rfl

theorem spaceRun_sub_nil (text : Text) :
    Pattern.spaceRun.sub U (fun _ => []) text = text.filter fun c => !isSpace c := by
  have hflush : ∀ run : Text, flush (fun _ => []) run = ([] : Text) := by
    intro run; cases run <;> rfl
  suffices h : ∀ run, rewriteFrom isSpace (fun _ => []) run text =
      text.filter fun c => !isSpace c from h []
  induction text with
  | nil => intro run; rw [rewriteFrom, hflush]; rfl
  | cons c text ih =>
      intro run
      by_cases hc : isSpace c
      · simp [rewriteFrom, hc, ih]
      · simp [rewriteFrom, hc, ih, hflush]

theorem edgeSpace_sub_nil (text : Text) :
    Pattern.edgeSpace.sub U (fun _ => []) text = strip isSpace text := by
  have hflush : ∀ run : Text, flush (fun _ => []) run = ([] : Text) := by
    intro run; cases run <;> rfl
  simp [Pattern.sub, hflush, strip]

include hU

theorem wordTokens_nfkc_runs (text : Text) :
    wordTokens U (Pattern.nonSpaceRun.sub U U.nfkc text) = wordTokens U (U.nfkc text) :=
  marked_map_runs hU.nfkc_nil hU.nfkc_append_space hU.nfkc_space text

/-- A digit run keeps a word character: it is spelled with letters, and never as nothing. -/
theorem wordTokens_spell_digits (text : Text) :
    wordTokens U (Pattern.digitRun.sub U
      (fun m => Pattern.spaceRun.sub U (fun _ => []) (spellNumberSv U m)) text) =
      wordTokens U text := by
  refine marked_rewriteRuns (fun c hc => hU.word_not_space c (hU.digit_word c hc))
    (fun u hne hd => ?_) false text
  rw [spaceRun_sub_nil]
  refine ⟨fun c hc => by simpa using (List.mem_filter.mp hc).2, ?_⟩
  have hu : u.any U.isWord = true := by
    obtain ⟨c, u, rfl⟩ := List.exists_cons_of_ne_nil hne
    simp [hU.digit_word c (hd c List.mem_cons_self)]
  obtain ⟨c, cs, hspell⟩ := List.exists_cons_of_ne_nil (spellNumberSv_ne_nil hU hne hd)
  have hc : c ∈ spellNumberSv U u := by rw [hspell]; exact List.mem_cons_self
  have hw : U.isWord c = true := hU.letter_word c (spelled_spellNumberSv U u c hc)
  rw [hu, List.any_eq_true]
  exact ⟨c, List.mem_filter.mpr ⟨hc, by simp [hU.word_not_space c hw]⟩, hw⟩

theorem wordTokens_lower_runs (text : Text) :
    wordTokens U (Pattern.nonSpaceRun.sub U U.lower text) = wordTokens U text :=
  marked_rewriteRuns (fun c hc => by simpa using hc)
    (fun u _ hu => hU.lower_run u fun c hc => by simpa using hu c hc) false text

omit hU in
theorem wordTokens_nonWordChar (text : Text) :
    wordTokens U (Pattern.nonWordChar.sub U (fun _ => []) text) = wordTokens U text := by
  rw [nonWordChar_sub_nil]
  exact marked_filter (fun _ => rfl) false text

omit hU in
theorem wordTokens_spaceRun (text : Text) :
    wordTokens U (Pattern.spaceRun.sub U (fun _ => [' ']) text) = wordTokens U text :=
  marked_rewriteSeps (fun _ _ => ⟨by simp, List.all_eq_true.mp (by decide)⟩) text

omit hU in
theorem wordTokens_edgeSpace (text : Text) :
    wordTokens U (Pattern.edgeSpace.sub U (fun _ => []) text) = wordTokens U text := by
  rw [edgeSpace_sub_nil]
  exact marked_strip text

omit hU in
/-- The expansion of the digits, whether the language has a speller or not. -/
theorem numberSpeller_eq (language : Option String) :
    numberSpeller U language = none ∨ numberSpeller U language = some (spellNumberSv U) := by
  unfold numberSpeller
  split
  · exact .inl rfl
  · split
    · exact .inl rfl
    · simp only [numberSpellers, List.lookup]
      split
      · exact .inr rfl
      · exact .inl rfl

omit hU in
theorem alignableTokens_eq (text : String) :
    alignableTokens U text = wordTokens U (U.nfkc text.toList) := by
  rw [alignableTokens, alignableTokenList, length_tokens (q := U.isWord) fun c hc hs => ?_]
  · exact wordTokens_nonWordChar _
  · rw [nonWordChar_sub_nil] at hc
    simpa [hs] using (List.mem_filter.mp hc).2

omit hU in
/-- After the last three passes every character is a word character or a space. -/
theorem word_of_mem_cleaned {text : Text} {c : Char}
    (hc : c ∈ Pattern.edgeSpace.sub U (fun _ => []) (Pattern.spaceRun.sub U (fun _ => [' '])
      (Pattern.nonWordChar.sub U (fun _ => []) text))) (hs : isSpace c = false) :
    U.isWord c = true := by
  rw [edgeSpace_sub_nil, nonWordChar_sub_nil] at hc
  have hmem : c ∈ rewriteRuns isSpace (fun _ => [' ']) (text.filter fun c => isSpace c || U.isWord c) :=
    (List.dropWhile_sublist _).subset ((List.rdropWhile_prefix _ _).subset hc)
  suffices h : ∀ (l run : Text), c ∈ rewriteFrom isSpace (fun _ => [' ']) run l → c ∈ l by
    simpa [hs] using (List.mem_filter.mp (h _ [] hmem)).2
  have hflush : ∀ run : Text, c ∉ flush (fun _ => [' ']) run := by
    intro run h
    cases run with
    | nil => simp at h
    | cons d run =>
        rw [show c = ' ' by simpa [flush] using h] at hs
        exact absurd hs (by decide)
  intro l
  induction l with
  | nil => intro run h; exact absurd h (hflush run)
  | cons d l ih =>
      intro run h
      rw [rewriteFrom] at h
      split at h
      · exact List.mem_cons_of_mem d (ih _ h)
      · rcases List.mem_append.mp h with h | h
        · exact absurd h (hflush run)
        · rcases List.mem_cons.mp h with rfl | h
          · exact List.mem_cons_self
          · exact List.mem_cons_of_mem d (ih _ h)

/-- **Two normalizers, one count.**  For every text and every language, the aligner is handed as
many tokens as `alignableTokens` counts. -/
theorem alignment_normalizer_length {S : SpanMapNormalizer} (hS : S.Lawful U)
    (language : Option String) (text : String) :
    (alignmentNormalizer U S language text).1.length = alignableTokens U text := by
  have cleaned : ∀ s : S.State, wordTokens U (S.text s) = wordTokens U (U.nfkc text.toList) →
      ((S.getTokenMap (S.transform (S.transform (S.transform (S.transform s .nonSpaceRun U.lower)
        .nonWordChar fun _ => []) .spaceRun fun _ => [' ']) .edgeSpace fun _ => [])).map
          S.normalizedToken).length = alignableTokens U text := by
    intro s h
    rw [hS.tokens_getTokenMap]
    simp only [hS.text_transform]
    rw [length_tokens (q := U.isWord) fun c hc hs => word_of_mem_cleaned hc hs,
      alignableTokens_eq, ← h]
    exact (wordTokens_edgeSpace _).trans <| (wordTokens_spaceRun _).trans <|
      (wordTokens_nonWordChar _).trans <| wordTokens_lower_runs hU _
  have nfkc : wordTokens U (S.text (S.transform (S.init text.toList) .nonSpaceRun U.nfkc)) =
      wordTokens U (U.nfkc text.toList) := by
    rw [hS.text_transform, hS.text_init]
    exact wordTokens_nfkc_runs hU _
  rcases numberSpeller_eq (U := U) language with h | h
  · simp only [alignmentNormalizer, h]
    exact cleaned _ nfkc
  · simp only [alignmentNormalizer, h]
    refine cleaned _ ?_
    rw [hS.text_transform, ← nfkc]
    exact wordTokens_spell_digits hU _

end Counting

/-! ### The tables on Latin text -/

/-- The capital letters `lower` folds, with what it folds them to. -/
def latinCapitals : List (Char × Char) :=
  ("ABCDEFGHIJKLMNOPQRSTUVWXYZÅÄÖ".toList).zip svLetters

/-- The interpreter's tables on ASCII and the Swedish letters, where NFKC is the identity. -/
def Unicode.latin : Unicode where
  isWord c :=
    let n := c.toNat
    (48 ≤ n && n ≤ 57) || (65 ≤ n && n ≤ 90) || n == 95 || (97 ≤ n && n ≤ 122) ||
      n == 0xC4 || n == 0xC5 || n == 0xD6 || n == 0xE4 || n == 0xE5 || n == 0xF6
  digit c := if 48 ≤ c.toNat ∧ c.toNat ≤ 57 then some (c.toNat - 48) else none
  nfkc t := t
  lower t := t.map fun c => (latinCapitals.lookup c).getD c

theorem Unicode.latin_lawful : Unicode.latin.Lawful where
  nfkc_nil := rfl
  nfkc_append_space a c b _ := by simp [latin]
  nfkc_space c hc := by simp [latin, hc]
  lower_run u hu := by
    have fold : ∀ p ∈ latinCapitals, isSpace p.2 = false ∧
        latin.isWord p.1 = true ∧ latin.isWord p.2 = true := by decide
    have lower : ∀ c, isSpace c = false →
        isSpace ((latinCapitals.lookup c).getD c) = false ∧
          latin.isWord ((latinCapitals.lookup c).getD c) = latin.isWord c := by
      intro c hc
      cases hl : latinCapitals.lookup c with
      | none => exact ⟨hc, rfl⟩
      | some d =>
          obtain ⟨l₁, l₂, hsplit, -⟩ := List.lookup_eq_some_iff.mp hl
          obtain ⟨h₁, h₂, h₃⟩ := fold (c, d) (by rw [hsplit]; simp)
          exact ⟨h₁, h₃.trans h₂.symm⟩
    refine ⟨fun c hc => ?_, ?_⟩
    · obtain ⟨d, hd, rfl⟩ := List.mem_map.mp hc
      exact (lower d (hu d hd)).1
    · show (u.map _).any latin.isWord = u.any latin.isWord
      induction u with
      | nil => rfl
      | cons d u ih =>
          rw [List.map_cons, List.any_cons, List.any_cons, (lower d (hu d List.mem_cons_self)).2,
            ih fun e he => hu e (List.mem_cons_of_mem d he)]
  word_not_space c h := by
    simp only [latin, isSpace, Bool.or_eq_true, Bool.and_eq_true, decide_eq_true_eq, beq_iff_eq,
      Bool.or_eq_false_iff, Bool.and_eq_false_iff, decide_eq_false_iff_not, beq_eq_false_iff_ne]
      at h ⊢
    omega
  digit_word c h := by
    simp only [latin, Option.isSome_ite] at h
    simp [latin, h.1, h.2]
  digit_lt c d h := by
    simp only [latin, Option.ite_none_right_eq_some, Option.some.injEq] at h
    omega
  letter_word := List.all_eq_true.mp (by decide)

/-- A normalizer that keeps the current text only. -/
def SpanMapNormalizer.plain (U : Unicode) : SpanMapNormalizer where
  State := Text
  Token := Text
  init t := t
  text t := t
  transform t p f := p.sub U f t
  getTokenMap t := tokens isSpace t
  normalizedToken t := t

theorem SpanMapNormalizer.plain_lawful (U : Unicode) : (plain U).Lawful U :=
  ⟨fun _ => rfl, fun _ _ _ => rfl, fun s => List.map_id (tokens isSpace s)⟩

theorem alignment_normalizer_length_sv :
    (alignmentNormalizer .latin (.plain .latin) (some "sv-SE") "Kl. 08:30 – 57 (år)!").1.length =
      alignableTokens .latin "Kl. 08:30 – 57 (år)!" :=
  alignment_normalizer_length Unicode.latin_lawful (SpanMapNormalizer.plain_lawful .latin) _ _

end Vemsa.Pipeline

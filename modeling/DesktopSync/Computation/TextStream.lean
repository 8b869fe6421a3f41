import DesktopSync.Computation.Decimal

/-!
# Formatted input from a text

A stream is the text that has not been read yet, or has failed. Each extraction skips
blanks; on a stream that has failed, or that holds nothing else, it fails and leaves its
variable as it was.
-/

set_option autoImplicit false

universe u

namespace TextStream

/-- The rest of the text; `none` once an extraction has failed. -/
abbrev Stream := Option (List Char)

namespace Stream

/-- An extraction into a variable that holds `old`. `scan` finds the value at the front of
a text, and fails where there is none. -/
def extract {α : Type u} (scan : List Char → α × Stream) (old : α) (s : Stream) : α × Stream :=
  match s.map Decimal.skipSpace with
  | none | some [] => (old, none)
  | some (c :: text) => scan (c :: text)

/-- The extraction of a word. -/
def word (s : Stream) : Option (List Char × List Char) :=
  match s.map Decimal.skipSpace with
  | none | some [] => none
  | some (c :: text) =>
      let isPart := fun c => !Decimal.isSpace c
      some ((c :: text).takeWhile isPart, (c :: text).dropWhile isPart)

/-- How much is still to be read; less once the stream has failed. -/
def size : Stream → ℕ
  | none => 0
  | some text => text.length + 1

/-- What `scan` leaves is not longer than what it found. -/
def Shortens {α : Type u} (scan : List Char → α × Stream) : Prop :=
  ∀ text, (scan text).2.size ≤ text.length + 1

theorem length_skipSpace_le (text : List Char) : (Decimal.skipSpace text).length ≤ text.length :=
  (List.dropWhile_suffix _).length_le

theorem size_extract_le {α : Type u} {scan : List Char → α × Stream} (hscan : Shortens scan)
    (old : α) (s : Stream) : (extract scan old s).2.size ≤ s.size := by
  unfold extract
  cases s with
  | none => exact le_rfl
  | some text =>
      have hskip := length_skipSpace_le text
      rw [Option.map_some]
      cases htext : Decimal.skipSpace text with
      | nil => exact Nat.zero_le _
      | cons c rest =>
          rw [htext] at hskip
          exact le_trans (hscan (c :: rest)) (Nat.succ_le_succ hskip)

/-- A stream that has failed stays so. -/
theorem extract_none {α : Type u} (scan : List Char → α × Stream) (old : α) :
    extract scan old none = (old, none) := rfl

/-- What the variable holds is nothing to the stream. -/
theorem snd_extract {α : Type u} (scan : List Char → α × Stream) (old old' : α) (s : Stream) :
    (extract scan old s).2 = (extract scan old' s).2 := by
  unfold extract
  split
  · rfl
  · rfl
  · rfl

/-- Nor to an extraction that succeeds. -/
theorem extract_of_some {α : Type u} {scan : List Char → α × Stream} {old v : α} {s : Stream}
    {rest : List Char} (h : extract scan old s = (v, some rest)) (old' : α) :
    extract scan old' s = (v, some rest) := by
  unfold extract at h ⊢
  split at h
  · cases (Prod.mk.inj h).2
  · cases (Prod.mk.inj h).2
  · exact h

/-- A word is not empty. -/
theorem size_word_lt {s : Stream} {word rest : List Char} (h : s.word = some (word, rest)) :
    size (some rest) < s.size := by
  unfold Stream.word at h
  cases s with
  | none => cases h
  | some text =>
      have hskip := length_skipSpace_le text
      rw [Option.map_some] at h
      cases htext : Decimal.skipSpace text with
      | nil =>
          rw [htext] at h
          cases h
      | cons c tail =>
          rw [htext] at h hskip
          have hblank : Decimal.isSpace c = false := by
            have hhead := List.head?_dropWhile_not Decimal.isSpace text
            unfold Decimal.skipSpace at htext
            rw [htext] at hhead
            simpa using hhead
          obtain ⟨-, hrest⟩ := Prod.mk.inj (Option.some.inj h)
          rw [List.dropWhile_cons_of_pos (by rw [hblank]; rfl)] at hrest
          have hle := (List.dropWhile_suffix (l := tail) fun c => !Decimal.isSpace c).length_le
          rw [hrest] at hle
          rw [List.length_cons] at hskip
          have hlt : rest.length + 1 < text.length + 1 := by omega
          exact hlt

end Stream

/-! ## The words of a text -/

/-- A word has characters, and no blank among them. -/
def IsWord (word : List Char) : Prop := word ≠ [] ∧ ∀ c ∈ word, Decimal.isSpace c = false

theorem IsWord.skipSpace {word : List Char} (h : IsWord word) (rest : List Char) :
    Decimal.skipSpace (word ++ rest) = word ++ rest := by
  cases word with
  | nil => exact absurd rfl h.1
  | cons c word =>
      have hc : ¬Decimal.isSpace c = true := by
        rw [h.2 c List.mem_cons_self]
        exact Bool.false_ne_true
      exact List.dropWhile_cons_of_neg hc

/-- What is extracted as a word is one, and reaches to a blank or to the end. -/
theorem word_spec {text word rest : List Char} (h : Stream.word (some text) = some (word, rest)) :
    Decimal.skipSpace text = word ++ rest ∧ IsWord word ∧ Decimal.Ends rest := by
  unfold Stream.word at h
  rw [Option.map_some] at h
  cases htext : Decimal.skipSpace text with
  | nil =>
      rw [htext] at h
      cases h
  | cons c tail =>
      rw [htext] at h
      have hblank : Decimal.isSpace c = false := by
        have hhead := List.head?_dropWhile_not Decimal.isSpace text
        unfold Decimal.skipSpace at htext
        rw [htext] at hhead
        simpa using hhead
      obtain ⟨rfl, rfl⟩ := Prod.mk.inj (Option.some.inj h)
      refine ⟨List.takeWhile_append_dropWhile.symm, ⟨?_, ?_⟩, ?_⟩
      · rw [List.takeWhile_cons_of_pos (by rw [hblank]; rfl)]
        exact List.cons_ne_nil _ _
      · intro d hd
        have hpart := List.all_eq_true.mp List.all_takeWhile d hd
        rwa [Bool.not_eq_true'] at hpart
      · intro d hd
        have hhead := List.head?_dropWhile_not (fun c => !Decimal.isSpace c) (c :: tail)
        rw [hd] at hhead
        simpa using hhead

theorem word_append {word rest : List Char} (hword : IsWord word) (hrest : Decimal.Ends rest) :
    Stream.word (some (word ++ rest)) = some (word, rest) := by
  have hparts : ∀ c ∈ word, (!Decimal.isSpace c) = true := by
    intro c hc
    rw [hword.2 c hc]
    rfl
  have hstop : rest.takeWhile (fun c => !Decimal.isSpace c) = [] ∧
      rest.dropWhile (fun c => !Decimal.isSpace c) = rest := by
    cases rest with
    | nil => exact ⟨rfl, rfl⟩
    | cons c rest =>
        have hc : ¬(!Decimal.isSpace c) = true := by
          rw [hrest c rfl]
          exact Bool.false_ne_true
        exact ⟨List.takeWhile_cons_of_neg hc, List.dropWhile_cons_of_neg hc⟩
  unfold Stream.word
  rw [Option.map_some, hword.skipSpace]
  cases word with
  | nil => exact absurd rfl hword.1
  | cons c word =>
      simp only [List.cons_append]
      rw [← List.cons_append, List.takeWhile_append_of_pos hparts,
        List.dropWhile_append_of_pos hparts, hstop.1, hstop.2, List.append_nil]

theorem length_word_lt {text word rest : List Char}
    (h : Stream.word (some text) = some (word, rest)) : rest.length < text.length := by
  have hsize := Stream.size_word_lt h
  unfold Stream.size at hsize
  exact Nat.lt_of_succ_lt_succ hsize

/-- The words that are extracted one after the other. -/
def words (text : List Char) : List (List Char) :=
  match _ : Stream.word (some text) with
  | none => []
  | some (word, rest) => word :: words rest
termination_by text.length
decreasing_by exact length_word_lt ‹_›

theorem words_of_none {text : List Char} (h : Stream.word (some text) = none) :
    words text = [] := by
  rw [words]
  split
  · rfl
  · next hsome =>
      rw [h] at hsome
      cases hsome

theorem words_of_some {text word rest : List Char}
    (h : Stream.word (some text) = some (word, rest)) : words text = word :: words rest := by
  rw [words]
  split
  · next hnone =>
      rw [h] at hnone
      cases hnone
  · next hsome =>
      rw [h] at hsome
      obtain ⟨rfl, rfl⟩ := Prod.mk.inj (Option.some.inj hsome)
      rfl

theorem word_of_words {text : List Char} (h : words text = []) :
    Stream.word (some text) = none := by
  cases hword : Stream.word (some text) with
  | none => rfl
  | some next =>
      rw [words_of_some hword] at h
      cases h

theorem word_of_words_cons {text word : List Char} {others : List (List Char)}
    (h : words text = word :: others) :
    ∃ rest, Stream.word (some text) = some (word, rest) ∧ words rest = others := by
  cases hword : Stream.word (some text) with
  | none =>
      rw [words_of_none hword] at h
      cases h
  | some next =>
      rw [words_of_some hword] at h
      obtain ⟨rfl, rfl⟩ := List.cons.inj h
      exact ⟨next.2, rfl, rfl⟩

theorem isWord_of_mem_words {text word : List Char} (h : word ∈ words text) :
    IsWord word ∧ ∀ c ∈ word, c ∈ text := by
  fun_induction words text with
  | case1 text hnone => cases h
  | case2 text first rest hsome ih =>
      obtain ⟨hskip, hfirst, -⟩ := word_spec hsome
      have hmem : ∀ c ∈ first ++ rest, c ∈ text := by
        intro c hc
        rw [← hskip] at hc
        exact (List.dropWhile_suffix _).mem hc
      rcases List.mem_cons.mp h with rfl | h
      · exact ⟨hfirst, fun c hc => hmem c (List.mem_append_left _ hc)⟩
      · exact ⟨(ih h).1, fun c hc => hmem c (List.mem_append_right _ ((ih h).2 c hc))⟩

/-- A text of the words, with a blank behind each. -/
def joined (words : List (List Char)) : List Char := words.flatMap fun word => word ++ [' ']

theorem words_joined {list : List (List Char)} (h : ∀ word ∈ list, IsWord word) :
    words (joined list) = list := by
  induction list with
  | nil =>
      rw [words]
      rfl
  | cons word list ih =>
      obtain ⟨hword, hlist⟩ := List.forall_mem_cons.mp h
      have hblank : Decimal.Ends (' ' :: joined list) := by
        rintro _ ⟨⟩
        rfl
      have hskip : words (' ' :: joined list) = words (joined list) := by
        have hsame : Stream.word (some (' ' :: joined list)) = Stream.word (some (joined list)) :=
          rfl
        cases hnext : Stream.word (some (joined list)) with
        | none => rw [words_of_none hnext, words_of_none (hsame.trans hnext)]
        | some next => rw [words_of_some hnext, words_of_some (hsame.trans hnext)]
      have happend : joined (word :: list) = word ++ (' ' :: joined list) := by
        unfold joined
        rw [List.flatMap_cons, List.append_assoc]
        rfl
      rw [happend, words_of_some (word_append hword hblank), hskip, ih hlist]

/-- What `scan` takes for the whole of a word, it takes where a blank follows. -/
def Delimited {α : Type u} (scan : List Char → α × Stream) : Prop :=
  ∀ {word rest v}, Decimal.Ends rest → scan word = (v, some []) →
    scan (word ++ rest) = (v, some rest)

theorem extract_of_word {α : Type u} {scan : List Char → α × Stream} (hscan : Delimited scan)
    {text word rest : List Char} {v : α} (hword : Stream.word (some text) = some (word, rest))
    (hv : scan word = (v, some [])) (old : α) :
    Stream.extract scan old (some text) = (v, some rest) := by
  obtain ⟨hskip, hisWord, hrest⟩ := word_spec hword
  unfold Stream.extract
  rw [Option.map_some, hskip]
  cases word with
  | nil => exact absurd rfl hisWord.1
  | cons c word => exact hscan hrest hv

/-- Two values one after the other. -/
theorem extract_two {α : Type u} {scan : List Char → α × Stream} (hscan : Delimited scan)
    {text a b : List Char} {others : List (List Char)} (htext : words text = a :: b :: others)
    {v w : α} (ha : scan a = (v, some [])) (hb : scan b = (w, some [])) (old old' : α) :
    ∃ behind rest, Stream.extract scan old (some text) = (v, some behind) ∧
      Stream.extract scan old' (some behind) = (w, some rest) ∧ words rest = others := by
  obtain ⟨behind, hfirst, hbehind⟩ := word_of_words_cons htext
  obtain ⟨rest, hsecond, hrest⟩ := word_of_words_cons hbehind
  exact ⟨behind, rest, extract_of_word hscan hfirst ha old, extract_of_word hscan hsecond hb old',
    hrest⟩

end TextStream

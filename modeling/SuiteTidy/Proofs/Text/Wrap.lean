import SuiteTidy.Text.Wrap
import Mathlib.Data.List.Chain

/-!
Filling lines with words. The words of a text stay what they are, a line goes on as long as the next
word fits, and only a word that is too long for every line sticks out. Main statement: these
properties determine the filled text, so that it is the only text with them.
-/

set_option autoImplicit false
set_option relaxedAutoImplicit false

namespace SuiteTidy.Text

/-! Words and blanks. -/

def Unbroken (w : List Char) : Prop := w ≠ [] ∧ ∀ c ∈ w, isBlank c = false

private theorem wordsFrom_letter {c : Char} (hc : isBlank c = false) (read cs : List Char) :
    wordsFrom read (c :: cs) = wordsFrom (c :: read) cs := by
  cases read <;> simp [wordsFrom, hc]

private theorem wordsFrom_append_blank {c : Char} (hc : isBlank c = true) (read xs ys : List Char) :
    wordsFrom read (xs ++ c :: ys) = wordsFrom read xs ++ words ys := by
  induction xs generalizing read with
  | nil => cases read <;> simp [wordsFrom, hc, words]
  | cons x xs ih =>
    by_cases hx : isBlank x = true
    · cases read <;> simp [wordsFrom, hx, ih]
    · have hletter : isBlank x = false := by simpa using hx
      rw [List.cons_append, wordsFrom_letter hletter, wordsFrom_letter hletter, ih]

private theorem words_append_blank {c : Char} (hc : isBlank c = true) (xs ys : List Char) :
    words (xs ++ c :: ys) = words xs ++ words ys :=
  wordsFrom_append_blank hc [] xs ys

private theorem words_intercalate {c : Char} (hc : isBlank c = true) (pieces : List (List Char)) :
    words ([c].intercalate pieces) = pieces.flatMap words := by
  induction pieces with
  | nil => rfl
  | cons x pieces ih =>
    cases pieces with
    | nil => simp
    | cons y pieces =>
      rw [List.intercalate_cons_cons, List.append_assoc, List.singleton_append,
        words_append_blank hc, ih]
      rfl

private theorem wordsFrom_of_unbroken {w : List Char} (hw : ∀ c ∈ w, isBlank c = false)
    (read : List Char) : wordsFrom read w = wordsFrom (w.reverse ++ read) [] := by
  induction w generalizing read with
  | nil => rfl
  | cons c w ih =>
    rw [List.forall_mem_cons] at hw
    rw [wordsFrom_letter hw.1, ih hw.2]
    simp

private theorem Unbroken.words_eq {w : List Char} (h : Unbroken w) : words w = [w] := by
  obtain ⟨c, cs, hcs⟩ := List.exists_cons_of_ne_nil (List.reverse_ne_nil_iff.mpr h.1)
  rw [words, wordsFrom_of_unbroken h.2, List.append_nil, hcs, wordsFrom, ← hcs,
    List.reverse_reverse]
  simp

private theorem unbroken_of_mem_wordsFrom (read : List Char) {cs w : List Char}
    (hread : ∀ c ∈ read, isBlank c = false) (hw : w ∈ wordsFrom read cs) : Unbroken w := by
  have hended : ∀ c read, (∀ x ∈ c :: read, isBlank x = false) → Unbroken (c :: read).reverse := by
    intro c read h
    exact ⟨by simp, fun x hx => h x (List.mem_reverse.mp hx)⟩
  induction cs generalizing read with
  | nil =>
    cases read with
    | nil => simp [wordsFrom] at hw
    | cons c read =>
      obtain rfl : w = (c :: read).reverse := by simpa [wordsFrom] using hw
      exact hended c read hread
  | cons x cs ih =>
    by_cases hx : isBlank x = true
    · cases read with
      | nil => exact ih [] (by simp) (by simpa [wordsFrom, hx] using hw)
      | cons c read =>
        have hcases : w = (c :: read).reverse ∨ w ∈ wordsFrom [] cs := by
          simpa [wordsFrom, hx] using hw
        rcases hcases with rfl | hlater
        · exact hended c read hread
        · exact ih [] (by simp) hlater
    · have hletter : isBlank x = false := by simpa using hx
      rw [wordsFrom_letter hletter] at hw
      exact ih (x :: read) (List.forall_mem_cons.mpr ⟨hletter, hread⟩) hw

private theorem unbroken_of_mem_words {cs w : List Char} (h : w ∈ words cs) : Unbroken w :=
  unbroken_of_mem_wordsFrom [] (by simp) h

/-! Lines of words. -/

def spaced (line : List (List Char)) : List Char := [' '].intercalate line

private theorem words_spaced {line : List (List Char)} (h : ∀ w ∈ line, Unbroken w) :
    words (spaced line) = line := by
  rw [spaced, words_intercalate rfl, List.flatMap_congr fun w hw => (h w hw).words_eq,
    List.flatMap_singleton']

private theorem newline_not_mem_spaced {line : List (List Char)} (h : ∀ w ∈ line, Unbroken w) :
    '\n' ∉ spaced line := by
  induction line with
  | nil => simp [spaced]
  | cons w line ih =>
    rw [List.forall_mem_cons] at h
    have hw : '\n' ∉ w := fun hmem => absurd (h.1.2 _ hmem) (by decide)
    cases line with
    | nil => simpa [spaced] using hw
    | cons v line =>
      have hrest := ih h.2
      simp only [spaced, List.intercalate_cons_cons, List.mem_append, not_or] at hrest ⊢
      exact ⟨⟨hw, by decide⟩, hrest⟩

private theorem lettersIn_append (xs ys : List (List Char)) :
    lettersIn (xs ++ ys) = lettersIn xs + lettersIn ys := by
  induction xs with
  | nil => simp [lettersIn]
  | cons x xs ih =>
    simp only [lettersIn, List.cons_append, List.map_cons, List.foldr_cons] at ih ⊢
    omega

private theorem length_spaced {line : List (List Char)} (h : line ≠ []) :
    (spaced line).length + 1 = lettersIn line + line.length := by
  induction line with
  | nil => exact absurd rfl h
  | cons w line ih =>
    cases line with
    | nil => simp [spaced, lettersIn]
    | cons v line =>
      have hrest := ih (List.cons_ne_nil v line)
      rw [spaced, List.intercalate_cons_cons]
      simp only [spaced, lettersIn, List.length_append, List.length_cons, List.length_nil,
        List.map_cons, List.foldr_cons] at hrest ⊢
      omega

private theorem length_spaced_append {line more : List (List Char)} (h : line ≠ [])
    (hmore : more ≠ []) :
    (spaced (line ++ more)).length = (spaced line).length + 1 + (spaced more).length := by
  have hline := length_spaced h
  have hrest := length_spaced hmore
  have hwhole := length_spaced (List.append_ne_nil_of_left_ne_nil h more)
  rw [lettersIn_append, List.length_append] at hwhole
  omega

private theorem spaced_ne_nil {line : List (List Char)} (hne : line ≠ [])
    (h : ∀ w ∈ line, Unbroken w) : spaced line ≠ [] := by
  intro hnil
  have hwords := words_spaced h
  rw [hnil] at hwords
  exact hne hwords.symm

private theorem length_le_spaced (w : List Char) (line : List (List Char)) :
    w.length ≤ (spaced (w :: line)).length := by
  have hlength := length_spaced (List.cons_ne_nil w line)
  simp only [lettersIn, List.map_cons, List.foldr_cons, List.length_cons] at hlength
  omega

/-! Filling. -/

/-- A line that stays within the width, or holds nothing but one word that is too long for it. -/
def Fits (width : Int) (line : List (List Char)) : Prop :=
  (spaced line).length ≤ width ∨ ∃ w, line = [w] ∧ width < w.length

/-- The first word of a line would make the line in front of it too long. -/
def Full (width : Int) (line next : List (List Char)) : Prop :=
  ∀ w ∈ next.head?, width < w.length + 1 + (spaced line).length

structure Filled (width : Int) (ws : List (List Char)) (lines : List (List (List Char))) :
    Prop where
  words_kept : lines.flatten = ws
  some_word : ∀ line ∈ lines, line ≠ []
  fits : ∀ line ∈ lines, Fits width line
  full : lines.IsChain (Full width)

variable {width : Int} {ws : List (List Char)} {lines : List (List (List Char))}

theorem Filled.cons {line : List (List Char)} (h : Filled width ws lines) (hne : line ≠ [])
    (hfits : Fits width line) (hfull : ∀ next ∈ lines.head?, Full width line next) :
    Filled width (line ++ ws) (line :: lines) where
  words_kept := by rw [List.flatten_cons, h.words_kept]
  some_word := List.forall_mem_cons.mpr ⟨hne, h.some_word⟩
  fits := List.forall_mem_cons.mpr ⟨hfits, h.fits⟩
  full := List.isChain_cons.mpr ⟨hfull, h.full⟩

theorem Filled.tail {line : List (List Char)} (h : Filled width ws (line :: lines)) :
    Filled width lines.flatten lines where
  words_kept := rfl
  some_word := fun l hl => h.some_word l (List.mem_cons_of_mem line hl)
  fits := fun l hl => h.fits l (List.mem_cons_of_mem line hl)
  full := (List.isChain_cons.mp h.full).2

private theorem fill_nil_cons (w : List Char) (ws : List (List Char)) :
    fill width [] (w :: ws) =
      if width < w.length then [w] :: fill width [] ws else fill width [w] ws := by
  simp [fill, lettersIn]

/-- The letters and words counted on a line are its length and the space that a further word
needs. -/
private theorem fill_cons {line : List (List Char)} (hne : line ≠ []) (w : List Char)
    (ws : List (List Char)) :
    fill width line (w :: ws) =
      if width < w.length + 1 + (spaced line).length then line :: fill width [w] ws
      else fill width (line ++ [w]) ws := by
  have hlength := length_spaced hne
  obtain ⟨v, line, rfl⟩ := List.exists_cons_of_ne_nil hne
  have hsame : (lettersIn (v :: line) + w.length + (v :: line).length : Nat) > width ↔
      width < w.length + 1 + (spaced (v :: line)).length := by omega
  rw [fill, if_congr hsame rfl rfl]
  simp

private theorem exists_fill_eq_cons (width : Int) {line : List (List Char)} (hne : line ≠ [])
    (ws : List (List Char)) : ∃ more others, fill width line ws = (line ++ more) :: others := by
  induction ws generalizing line with
  | nil =>
    obtain ⟨w, line, rfl⟩ := List.exists_cons_of_ne_nil hne
    exact ⟨[], [], by simp [fill]⟩
  | cons w ws ih =>
    rw [fill_cons hne]
    split_ifs
    · exact ⟨[], fill width [w] ws, by simp⟩
    · obtain ⟨more, others, hfill⟩ := ih (List.append_ne_nil_of_left_ne_nil hne [w])
      exact ⟨w :: more, others, by simpa using hfill⟩

private theorem fits_singleton (width : Int) (w : List Char) : Fits width [w] := by
  by_cases hshort : (w.length : Int) ≤ width
  · exact .inl (by simpa [spaced] using hshort)
  · exact .inr ⟨w, rfl, by omega⟩

private theorem filled_fill (line : List (List Char)) (hline : line ≠ [] → Fits width line)
    (ws : List (List Char)) : Filled width (line ++ ws) (fill width line ws) := by
  induction ws generalizing line with
  | nil =>
    have hnone : Filled width [] [] := ⟨rfl, by simp, by simp, by simp⟩
    cases line with
    | nil => exact hnone
    | cons w line => exact hnone.cons (by simp) (hline (by simp)) (by simp)
  | cons w ws ih =>
    by_cases hne : line = []
    · subst hne
      rw [fill_nil_cons]
      split_ifs with hlong
      · refine (ih [] (by simp)).cons (List.cons_ne_nil w []) (fits_singleton width w) ?_
        intro next _ v _
        have hlength : (spaced [w]).length = w.length := by simp [spaced]
        omega
      · exact ih [w] fun _ => fits_singleton width w
    · rw [fill_cons hne]
      split_ifs with hlong
      · have hnext : Filled width ([w] ++ ws) (fill width [w] ws) :=
          ih [w] fun _ => fits_singleton width w
        refine hnext.cons hne (hline hne) ?_
        intro next hhead v hv
        obtain ⟨more, others, hfill⟩ :=
          exists_fill_eq_cons width (List.cons_ne_nil w []) ws
        -- The next line starts with the word that did not fit.
        obtain rfl : v = w := by
          simp only [hfill, List.head?_cons, Option.mem_def, Option.some.injEq] at hhead
          subst hhead
          simpa [eq_comm] using hv
        exact hlong
      · have hopen : Filled width ((line ++ [w]) ++ ws) (fill width (line ++ [w]) ws) := by
          refine ih (line ++ [w]) fun _ => .inl ?_
          rw [length_spaced_append hne (List.cons_ne_nil w [])]
          simp only [spaced, List.intercalate_singleton] at hlong ⊢
          omega
        simpa using hopen

private theorem Filled.not_longer {line more others : List (List Char)}
    {rest : List (List (List Char))} (h : Filled width ws (line :: rest)) (hmore : more ≠ [])
    (hrest : rest.flatten = more ++ others) (hfits : Fits width (line ++ more)) : False := by
  obtain ⟨w, more, rfl⟩ := List.exists_cons_of_ne_nil hmore
  have hne := h.some_word line (by simp)
  have hfull : width < w.length + 1 + (spaced line).length := by
    cases rest with
    | nil => simp at hrest
    | cons next rest =>
      refine (List.isChain_cons_cons.mp h.full).1 w ?_
      obtain ⟨v, next, rfl⟩ := List.exists_cons_of_ne_nil (h.some_word next (by simp))
      simp only [List.flatten_cons, List.cons_append, List.cons.injEq] at hrest
      simp [hrest.1]
  have hword := length_le_spaced w more
  have hlength := length_spaced_append hne hmore
  rcases hfits with hshort | ⟨v, heq, -⟩
  · omega
  · have hcount := congrArg List.length heq
    have hpos := List.length_pos_iff.mpr hne
    simp only [List.length_append, List.length_cons, List.length_nil] at hcount
    omega

theorem Filled.unique {others : List (List (List Char))} (h : Filled width ws lines)
    (h' : Filled width ws others) : lines = others := by
  induction lines generalizing ws others with
  | nil =>
    have hnone : others.flatten = [] := h'.words_kept.trans h.words_kept.symm
    cases others with
    | nil => rfl
    | cons line others =>
      exact absurd (List.flatten_eq_nil_iff.mp hnone line (by simp)) (h'.some_word line (by simp))
  | cons line lines ih =>
    cases others with
    | nil =>
      have hnone : (line :: lines).flatten = [] := h.words_kept.trans h'.words_kept.symm
      exact absurd (List.flatten_eq_nil_iff.mp hnone line (by simp)) (h.some_word line (by simp))
    | cons line' others =>
      have hwords : line ++ lines.flatten = line' ++ others.flatten :=
        h.words_kept.trans h'.words_kept.symm
      have hfirst : line = line' := by
        rcases List.append_eq_append_iff.mp hwords with ⟨more, rfl, hrest⟩ | ⟨more, rfl, hrest⟩
        · by_contra hne
          exact h.not_longer (by simpa using hne) hrest (h'.fits _ (by simp))
        · by_contra hne
          exact h'.not_longer (by simpa [eq_comm] using hne) hrest (h.fits _ (by simp))
      subst hfirst
      have hrest : Filled width lines.flatten others :=
        List.append_cancel_left hwords ▸ h'.tail
      rw [ih h.tail hrest]

/-! The filled text. -/

def linesIn (cs : List Char) : List (List Char) := if cs.isEmpty then [] else splitLines cs

private theorem intercalate_linesIn (cs : List Char) : ['\n'].intercalate (linesIn cs) = cs := by
  rw [linesIn]
  split_ifs with hempty
  · exact (List.isEmpty_iff.mp hempty).symm
  · exact List.intercalate_splitOn '\n'

private theorem linesIn_intercalate {pieces : List (List Char)} (hne : ∀ piece ∈ pieces, piece ≠ [])
    (hbreak : ∀ piece ∈ pieces, '\n' ∉ piece) : linesIn (['\n'].intercalate pieces) = pieces := by
  cases pieces with
  | nil => rfl
  | cons piece pieces =>
    have hsome : (['\n'].intercalate (piece :: pieces)).isEmpty = false := by
      obtain ⟨c, piece, rfl⟩ := List.exists_cons_of_ne_nil (hne piece (by simp))
      rw [List.intercalate_cons_cons_left]
      rfl
    rw [linesIn, hsome]
    exact List.splitOn_intercalate '\n' hbreak (by simp)

private theorem words_eq_flatMap (cs : List Char) : words cs = (linesIn cs).flatMap words := by
  rw [← words_intercalate (c := '\n') rfl, intercalate_linesIn]

/-- A text whose lines hold the words of another text in their order, each line with one space
between its words and filled as far as it goes. -/
structure Wrapped (width : Int) (cs out : List Char) : Prop where
  words_kept : words out = words cs
  consecutive : (linesIn out).flatMap words = words cs
  line_spaced : ∀ line ∈ linesIn out, words line ≠ [] ∧ line = [' '].intercalate (words line)
  line_fits : ∀ line ∈ linesIn out,
    line.length ≤ width ∨ ∃ w, words line = [w] ∧ width < w.length
  line_full : (linesIn out).IsChain fun line next =>
    ∀ w ∈ (words next).head?, width < w.length + 1 + line.length

private theorem filled_map_words_iff {out : List Char}
    (hspaced : ∀ line ∈ linesIn out, words line ≠ [] ∧ line = spaced (words line)) :
    Filled width ws ((linesIn out).map words) ↔
      (linesIn out).flatMap words = ws ∧
      (∀ line ∈ linesIn out, line.length ≤ width ∨ ∃ w, words line = [w] ∧ width < w.length) ∧
      (linesIn out).IsChain fun line next =>
        ∀ w ∈ (words next).head?, width < w.length + 1 + line.length := by
  have hfits : ∀ line ∈ linesIn out, (Fits width (words line) ↔
      line.length ≤ width ∨ ∃ w, words line = [w] ∧ width < w.length) := by
    intro line hline
    rw [Fits, ← (hspaced line hline).2]
  have hfull : ((linesIn out).map words).IsChain (Full width) ↔
      (linesIn out).IsChain fun line next =>
        ∀ w ∈ (words next).head?, width < w.length + 1 + line.length := by
    rw [List.isChain_map]
    refine List.IsChain.iff_of_mem_imp ?_
    intro line next hline _
    rw [Full, ← (hspaced line hline).2]
  constructor
  · intro h
    exact ⟨h.words_kept, fun line hline => (hfits line hline).mp
      (h.fits _ (List.mem_map_of_mem hline)), hfull.mp h.full⟩
  · rintro ⟨hkept, hlines, hchain⟩
    refine ⟨hkept, ?_, ?_, hfull.mpr hchain⟩
    · exact List.forall_mem_map.mpr fun line hline => (hspaced line hline).1
    · exact List.forall_mem_map.mpr fun line hline => (hfits line hline).mpr (hlines line hline)

/-- Filling lines of a given width, which may be zero or negative too, keeps the words of a text in
their order. Every line is made of consecutive words with one space between them, it is longer than
the width only if it is a single word that is, and the first word of the next line would not have
fitted on it. There is no other text of this kind. -/
theorem wrap_eq_iff (cs : List Char) (width : Int) (out : List Char) :
    wrap cs width = out ↔ Wrapped width cs out := by
  have hfilled : Filled width (words cs) (fill width [] (words cs)) :=
    filled_fill [] (by simp) (words cs)
  constructor
  · rintro rfl
    have hunbroken : ∀ line ∈ fill width [] (words cs), ∀ w ∈ line, Unbroken w := by
      intro line hline w hw
      have hmem : w ∈ words cs := by
        rw [← hfilled.words_kept]
        exact List.mem_flatten.mpr ⟨line, hline, hw⟩
      exact unbroken_of_mem_words hmem
    have hlines : linesIn (wrap cs width) = (fill width [] (words cs)).map spaced := by
      apply linesIn_intercalate
      · exact List.forall_mem_map.mpr fun line hline =>
          spaced_ne_nil (hfilled.some_word line hline) (hunbroken line hline)
      · exact List.forall_mem_map.mpr fun line hline =>
          newline_not_mem_spaced (hunbroken line hline)
    have hspaced : ∀ line ∈ linesIn (wrap cs width),
        words line ≠ [] ∧ line = spaced (words line) := by
      rw [hlines, List.forall_mem_map]
      intro line hline
      rw [words_spaced (hunbroken line hline)]
      exact ⟨hfilled.some_word line hline, rfl⟩
    have hwords : (linesIn (wrap cs width)).map words = fill width [] (words cs) := by
      rw [hlines, List.map_map]
      exact (List.map_congr_left fun line hline => words_spaced (hunbroken line hline)).trans
        (List.map_id' _)
    rw [← hwords, filled_map_words_iff hspaced] at hfilled
    obtain ⟨hkept, hfits, hfull⟩ := hfilled
    exact ⟨(words_eq_flatMap _).trans hkept, hkept, hspaced, hfits, hfull⟩
  · intro h
    have hmapped : Filled width (words cs) ((linesIn out).map words) :=
      (filled_map_words_iff h.line_spaced).mpr ⟨h.consecutive, h.line_fits, h.line_full⟩
    calc wrap cs width
        = ['\n'].intercalate ((fill width [] (words cs)).map spaced) := rfl
      _ = ['\n'].intercalate (((linesIn out).map words).map spaced) := by
          rw [hfilled.unique hmapped]
      _ = ['\n'].intercalate (linesIn out) := by
          rw [List.map_map]
          congr 1
          exact (List.map_congr_left fun line hline => (h.line_spaced line hline).2.symm).trans
            (List.map_id' _)
      _ = out := intercalate_linesIn out

end SuiteTidy.Text

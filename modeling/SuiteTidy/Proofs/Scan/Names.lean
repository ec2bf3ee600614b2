import SuiteTidy.Check.File
import SuiteTidy.Proofs.Files.Sound
import SuiteTidy.Proofs.Suite.Scan
import SuiteTidy.Scan
import SuiteTidy.Suite.Source

/-!
Names of test files. A name fits one of the patterns of a search exactly if it has one of the
endings of test sources, and it never fits two of them. A file with such a name keeps the rules for
test files, and the text of its path has the ending too.
-/

set_option autoImplicit false
set_option relaxedAutoImplicit false

namespace SuiteTidy

/-! Patterns that start with a star. -/

namespace Glob

private theorem mem_suffixes {s cs : List Char} : s ∈ suffixes cs ↔ s <:+ cs := by
  induction cs with
  | nil => simp [suffixes]
  | cons c cs ih => simp [suffixes, List.suffix_cons_iff, ih]

private theorem matchTokens_literals {word cs : List Char} :
    matchTokens (word.map .literal) cs = true ↔ cs = word := by
  induction word generalizing cs with
  | nil => simp [matchTokens]
  | cons x word ih =>
    cases cs with
    | nil => simp [matchTokens]
    | cons c cs => simp [matchTokens, ih]

private theorem matchTokens_star {word cs : List Char} :
    matchTokens (.star :: word.map .literal) cs = true ↔ word <:+ cs := by
  rw [matchTokens, List.any_eq_true]
  constructor
  · rintro ⟨s, hs, hmatch⟩
    rw [matchTokens_literals] at hmatch
    exact hmatch ▸ mem_suffixes.mp hs
  · intro h
    exact ⟨word, mem_suffixes.mpr h, matchTokens_literals.mpr rfl⟩

end Glob

namespace Suite

private theorem isSourceName_iff {name : String} :
    isSourceName name = true ↔ ∃ ending ∈ sourceEndings, ending.toList <:+ name.toList := by
  simp only [isSourceName, List.any_eq_true, endsWith, startsWith_iff, List.reverse_prefix]

end Suite

namespace Scan

open Suite

private theorem patterns_eq : patterns = sourceEndings.map ("*" ++ ·) := by decide

private theorem fits_pattern_iff {ending name : String} (h : ending ∈ sourceEndings) :
    Glob.fits ("*" ++ ending) name = true ↔ ending.toList <:+ name.toList := by
  have htokens : ∀ e ∈ sourceEndings,
      Glob.tokens ("*" ++ e) = .star :: e.toList.map .literal := by decide
  rw [Glob.fits, htokens ending h, Glob.matchTokens_star]

theorem any_patterns_fits (name : String) :
    patterns.any (Glob.fits · name) = isSourceName name := by
  rw [Bool.eq_iff_iff, isSourceName_iff, patterns_eq, List.any_map, List.any_eq_true]
  refine exists_congr fun ending => and_congr_right fun hending => ?_
  exact fits_pattern_iff hending

theorem patterns_exclusive :
    patterns.Pairwise fun a b => ∀ name, Glob.fits a name = true → Glob.fits b name ≠ true := by
  have hapart : sourceEndings.Pairwise fun a b =>
      ¬a.toList <:+ b.toList ∧ ¬b.toList <:+ a.toList := by decide
  rw [patterns_eq, List.pairwise_map]
  refine hapart.imp_of_mem fun {a b} ha hb h name hfits hfits' => ?_
  rw [fits_pattern_iff ha] at hfits
  rw [fits_pattern_iff hb] at hfits'
  -- Of two endings of one name, one is an ending of the other.
  rcases List.suffix_or_suffix_of_suffix hfits hfits' with hab | hba
  · exact h.1 hab
  · exact h.2 hba

end Scan

/-! The text of a path. -/

private theorem Path.toList_text {p : Path} {above : List String} {name : String}
    (h : p.parts = above ++ [name]) :
    ∃ front, p.text.toList = front ++ name.toList ∧
      (front = [] ∨ ∃ more, front = more ++ ['/']) := by
  have hbody : ∃ front, ("/".intercalate p.parts).toList = front ++ name.toList ∧
      (front = [] ∨ ∃ more, front = more ++ ['/']) := by
    by_cases habove : above = []
    · exact ⟨[], by simp [h, habove], .inl rfl⟩
    · refine ⟨("/".intercalate above).toList ++ ['/'], ?_, .inr ⟨_, rfl⟩⟩
      rw [h, String.intercalate_append_of_ne_nil habove (by simp)]
      simp
  obtain ⟨front, hfront, hslash⟩ := hbody
  have hparts : p.parts.isEmpty = false := by simp [h]
  rw [text, hparts]
  cases p.absolute with
  | false => exact ⟨front, by simpa using hfront, hslash⟩
  | true =>
    refine ⟨'/' :: front, by simp [hfront], .inr ?_⟩
    rcases hslash with rfl | ⟨more, rfl⟩
    · exact ⟨[], rfl⟩
    · exact ⟨'/' :: more, rfl⟩

theorem Suite.isSourceName_text {p : Path} {above : List String} {name : String}
    (h : p.parts = above ++ [name]) : isSourceName p.text = isSourceName name := by
  have hslash : ∀ ending ∈ sourceEndings, '/' ∉ ending.toList := by decide
  obtain ⟨front, htext, hfront⟩ := Path.toList_text h
  rw [Bool.eq_iff_iff, isSourceName_iff, isSourceName_iff]
  refine exists_congr fun ending => and_congr_right fun hending => ?_
  rw [htext]
  constructor
  · intro hsuffix
    rcases hfront with rfl | ⟨more, rfl⟩
    · simpa using hsuffix
    · have hstart : ending.toList.reverse <+: name.toList.reverse ++ '/' :: more.reverse := by
        simpa using List.reverse_prefix.mpr hsuffix
      have hname := prefix_of_append_cons (by simpa using hslash ending hending) hstart
      exact List.reverse_prefix.mp hname
  · intro hsuffix
    exact hsuffix.trans (List.suffix_append _ _)

/-! The rules for test files. -/

private theorem Path.splitName_snd {front ext : List Char} (hfront : front ≠ []) (hext : ext ≠ [])
    (hdot : '.' ∉ ext) :
    (splitName (String.ofList (front ++ '.' :: ext))).2 = String.ofList ('.' :: ext) := by
  have htail : ((front ++ '.' :: ext).reverse.takeWhile (· != '.')).reverse = ext := by
    have hall : ∀ c ∈ ext.reverse, (c != '.') = true := by
      intro c hc
      have hne : c ≠ '.' := fun heq => hdot (heq ▸ List.mem_reverse.mp hc)
      simpa using hne
    rw [List.reverse_append, List.reverse_cons, List.append_assoc,
      List.takeWhile_append_of_pos hall]
    simp
  have hpos := List.length_pos_iff.mpr hfront
  have hpos' := List.length_pos_iff.mpr hext
  simp only [splitName, String.toList_ofList, htail, List.length_append, List.length_cons]
  have hat : front.length + (ext.length + 1) - ext.length = front.length + 1 := by omega
  rw [hat, if_pos ⟨by omega, by omega⟩, Nat.add_sub_cancel, List.drop_left]

namespace Text

/-- What stands behind a text is put into lower case by itself, but for what it follows. -/
private theorem lowerFrom_append_suffix (before front rest : List Char) :
    lowerFrom (front.reverse ++ before) rest <:+ lowerFrom before (front ++ rest) := by
  induction front generalizing before with
  | nil => exact List.suffix_refl _
  | cons c front ih =>
    rw [List.cons_append, lowerFrom, List.reverse_cons, List.append_assoc]
    exact (ih (c :: before)).trans (List.suffix_append _ _)

private theorem lowerFrom_eq_self {cs : List Char} (h : ∀ c ∈ cs, c ≠ 'Σ' ∧ lowerChar c = [c])
    (before : List Char) : lowerFrom before cs = cs := by
  induction cs generalizing before with
  | nil => rfl
  | cons c cs ih =>
    rw [List.forall_mem_cons] at h
    rw [lowerFrom, if_neg h.1.1, h.1.2, ih h.2, List.singleton_append]

end Text

namespace FileCheck

open Suite

private theorem isTestName_of_isSourceName {name : String} (h : isSourceName name = true) :
    isTestName name = true := by
  have hplain : ∀ ending ∈ sourceEndings,
      ending.toList.all (fun c => c != 'Σ' && Text.lowerChar c == [c]) = true := by decide
  have hlower : ∀ ending ∈ sourceEndings, ∀ c ∈ ending.toList,
      c ≠ 'Σ' ∧ Text.lowerChar c = [c] := by
    intro ending hending c hc
    simpa using List.all_eq_true.mp (hplain ending hending) c hc
  have hwords : ∀ ending ∈ sourceEndings, ∃ word ∈ testWords, hasText ending word = true := by
    decide
  obtain ⟨ending, hending, front, hname⟩ := isSourceName_iff.mp h
  obtain ⟨word, hword, hhas⟩ := hwords ending hending
  rw [isTestName, List.any_eq_true]
  refine ⟨word, hword, hasText_iff.mpr ?_⟩
  have hkept : ending.toList <:+ (lowered name).toList := by
    have hsuffix := Text.lowerFrom_append_suffix [] front ending.toList
    rw [Text.lowerFrom_eq_self (hlower ending hending), hname] at hsuffix
    rwa [lowered, String.toList_ofList]
  exact (hasText_iff.mp hhas).trans hkept.isInfix

private theorem suffix_mem_extensions {p : Path} (h : isSourceName p.name = true) :
    p.suffix ∈ extensions := by
  have hdots : ∀ ending ∈ sourceEndings,
      ending.toList = ending.toList.take 5 ++ '.' :: ending.toList.drop 6 ∧
        ending.toList.take 5 ≠ [] ∧ ending.toList.drop 6 ≠ [] ∧ '.' ∉ ending.toList.drop 6 ∧
        String.ofList ('.' :: ending.toList.drop 6) ∈ extensions := by decide
  obtain ⟨ending, hending, front, hname⟩ := isSourceName_iff.mp h
  obtain ⟨hsplit, hstart, hext, hdot, hmem⟩ := hdots ending hending
  have hwhole : p.name = String.ofList
      ((front ++ ending.toList.take 5) ++ '.' :: ending.toList.drop 6) := by
    rw [List.append_assoc, ← hsplit, hname, String.ofList_toList]
  rw [Path.suffix, hwhole, Path.splitName_snd (by simp [hstart]) hext hdot]
  exact hmem

theorem testFile_of_isSourceName {t : FileTree} {p : Path} (hfile : t.isFile p = .ok true)
    (hname : isSourceName p.name = true) : testFile t (some (.path p)) = .ok p := by
  obtain ⟨place, c, hplace, hentry⟩ := FileTree.isFile_eq_true_iff.mp hfile
  have hexists : t.exists_ p = .ok true := by
    rw [FileTree.exists_of_locate hplace, hentry]
    rfl
  have hext : extensions.contains p.suffix = true :=
    List.contains_iff_mem.mpr (suffix_mem_extensions hname)
  simp only [testFile, file, path, ask, hexists, hfile, hext, isTestName_of_isSourceName hname,
    Except.mapError, bind, Except.bind, pure, Except.pure, Bool.not_true, if_true,
    Bool.false_eq_true, if_false]

end FileCheck
end SuiteTidy

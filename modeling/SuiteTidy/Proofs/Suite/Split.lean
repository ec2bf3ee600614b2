import SuiteTidy.Proofs.Text.Slug
import SuiteTidy.Suite.Draft
import Mathlib.Data.List.Sigma

/-!
The files that a split makes. Files are collected by name, so that two of one name would leave only
the later text. The number in a name can be read back from it, whatever the topic is. Main
statement: a split has one file for each topic, in the order of the topics, and all names differ.
-/

set_option autoImplicit false
set_option relaxedAutoImplicit false

namespace SuiteTidy.Suite

open SuiteTidy.Text

/-! Collecting files by name. -/

private theorem putFile_of_not_mem {name text : String} {files : List (String × String)}
    (h : name ∉ files.map (·.1)) : putFile name text files = files ++ [(name, text)] := by
  induction files with
  | nil => rfl
  | cons f files ih =>
    rw [List.map_cons, List.mem_cons, not_or] at h
    rw [putFile, if_neg (Ne.symm h.1), ih h.2, List.cons_append]

private theorem foldl_putFile {files more : List (String × String)}
    (h : ((files ++ more).map (·.1)).Nodup) :
    more.foldl (fun files f => putFile f.1 f.2 files) files = files ++ more := by
  induction more generalizing files with
  | nil => rw [List.foldl_nil, List.append_nil]
  | cons f more ih =>
    have hnew : f.1 ∉ files.map (·.1) := by
      rw [List.map_append, List.map_cons, List.nodup_middle, List.nodup_cons] at h
      exact fun hmem => h.1 (List.mem_append_left _ hmem)
    rw [List.foldl_cons, putFile_of_not_mem hnew, ih (by simpa using h), List.append_assoc,
      List.singleton_append]

namespace SplitWords

variable {w : SplitWords} {i j : Nat} {topic other : String}

/-! The names of the files. -/

private theorem toList_fileName (w : SplitWords) (i : Nat) (topic : String) :
    (w.fileName i topic).toList = w.stem.toList ++ '_' :: (Nat.toDigits 10 (i + 1) ++
      '_' :: ((topicName topic).toList ++ ".spec.ts".toList)) := by
  simp [fileName]

private theorem not_mem_toDigits {c : Char} (hc : c.isDigit = false) (n : Nat) :
    c ∉ Nat.toDigits 10 n := by
  intro hmem
  rw [Nat.isDigit_of_mem_toDigits (by decide) (by decide) hmem] at hc
  cases hc

def numberIn (w : SplitWords) (name : String) : Nat :=
  Nat.ofDigitChars 10 ((name.toList.drop (w.stem.toList.length + 1)).takeWhile (· ≠ '_')) 0

private theorem numberIn_fileName (w : SplitWords) (i : Nat) (topic : String) :
    w.numberIn (w.fileName i topic) = i + 1 := by
  have hdigits : ∀ c ∈ Nat.toDigits 10 (i + 1), decide (c ≠ '_') = true := fun c hc =>
    decide_eq_true (ne_of_mem_of_not_mem hc (not_mem_toDigits rfl (i + 1)))
  rw [numberIn, toList_fileName, List.drop_length_add_append, List.drop_one, List.tail_cons,
    List.takeWhile_append_of_pos hdigits, List.takeWhile_cons_of_neg (by decide), List.append_nil,
    Nat.ofDigitChars_ten_toDigits]

private theorem index_eq_of_fileName_eq (h : w.fileName i topic = w.fileName j other) : i = j := by
  have hnumber : i + 1 = j + 1 := by rw [← w.numberIn_fileName i topic, h, numberIn_fileName]
  exact Nat.succ.inj hnumber

private theorem not_mem_topicName {c : Char} (hc : c = '/' ∨ c = ' ') (topic : String) :
    c ∉ (topicName topic).toList := by
  have hcode : 0 < c.toNat ∧ c.toNat < 64 := by
    rcases hc with rfl | rfl
    · decide
    · decide
  rw [topicName, lowered, String.toList_ofList, String.toList_ofList]
  intro hmem
  obtain ⟨d, -, rfl⟩ := List.mem_map.mp (mem_of_mem_lowerFrom hcode hmem)
  -- The sign that took the place of `d` is none of the two, and where `d` stayed it is none either.
  split_ifs at hc with hd
  · exact absurd hc (by decide)
  · simp only [Bool.or_eq_true, decide_eq_true_eq] at hd
    exact hd hc.symm

private theorem not_mem_fileName {c : Char} (hc : c = '/' ∨ c = ' ') (hstem : c ∉ w.stem.toList)
    (i : Nat) (topic : String) : c ∉ (w.fileName i topic).toList := by
  have hplain : c ≠ '_' ∧ c.isDigit = false ∧ c ∉ ".spec.ts".toList := by
    rcases hc with rfl | rfl
    · decide
    · decide
  rw [toList_fileName]
  simp only [List.mem_append, List.mem_cons, not_or]
  exact ⟨hstem, hplain.1, not_mem_toDigits hplain.2.1 (i + 1), hplain.1,
    not_mem_topicName hc topic, hplain.2.2⟩

/-! The files. -/

/-- One file for each topic in the order of the topics, under names that all differ and that hold
no slash and no space. -/
structure Complete (w : SplitWords) (now : Moment) (topics : List String)
    (files : List (String × String)) : Prop where
  count : files.length = topics.length
  inOrder : ∀ i : Nat,
    files[i]? = topics[i]?.map fun topic => (w.fileName i topic, w.source now topic)
  apart : (files.map (·.1)).Nodup
  plain : ∀ f ∈ files, '/' ∉ f.1.toList ∧ ' ' ∉ f.1.toList

def numbered (w : SplitWords) (now : Moment) (topics : List String) : List (String × String) :=
  topics.zipIdx.map fun x => (w.fileName x.2 x.1, w.source now x.1)

private theorem nodup_numbered (w : SplitWords) (now : Moment) (topics : List String) :
    ((w.numbered now topics).map (·.1)).Nodup := by
  have hindices : (topics.zipIdx.map (·.2)).Nodup := List.nodup_zipIdx_map_snd topics
  rw [numbered, List.map_map]
  rw [List.Nodup, List.pairwise_map] at hindices ⊢
  exact hindices.imp fun hne heq => hne (index_eq_of_fileName_eq heq)

private theorem files_eq_numbered (w : SplitWords) (now : Moment) (topics : List String) :
    w.files now topics = w.numbered now topics := by
  have hcollected : (w.numbered now topics).foldl (fun files f => putFile f.1 f.2 files) [] =
      w.numbered now topics := foldl_putFile (w.nodup_numbered now topics)
  rwa [numbered, List.foldl_map] at hcollected

private theorem complete_files (hslash : '/' ∉ w.stem.toList) (hspace : ' ' ∉ w.stem.toList)
    (now : Moment) (topics : List String) : w.Complete now topics (w.files now topics) := by
  rw [files_eq_numbered]
  refine ⟨by simp [numbered], fun i => ?_, w.nodup_numbered now topics, fun f hf => ?_⟩
  · rw [numbered, List.getElem?_map, List.getElem?_zipIdx, Option.map_map, Nat.zero_add]
    rfl
  · obtain ⟨x, -, rfl⟩ := List.mem_map.mp hf
    exact ⟨not_mem_fileName (.inl rfl) hslash _ _, not_mem_fileName (.inr rfl) hspace _ _⟩

end SplitWords

/-- No file of a split takes the place of another, whatever the topics are called. -/
theorem splits_complete (now : Moment) (topics : List String) :
    byCategory.Complete now topics (byCategory.files now topics) ∧
      byConcern.Complete now topics (byConcern.files now topics) :=
  ⟨SplitWords.complete_files (by decide) (by decide) now topics,
    SplitWords.complete_files (by decide) (by decide) now topics⟩

/-- Without its number a name would be that of another topic. -/
example : topicName "Edge Cases" = topicName "edge/cases" := by decide +kernel

end SuiteTidy.Suite

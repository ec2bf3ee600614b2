import SuiteTidy.Files.Path
import SuiteTidy.Proofs.Text.Slug

/-!
Where a text leads that is read as a path below a directory. It leads through the names between its
slashes; only a text without slashes, or with nothing to pass through in front of the last one,
leads to a file in the directory itself.
-/

set_option autoImplicit false
set_option relaxedAutoImplicit false

namespace SuiteTidy.Path

def pieces (s : String) : List String := (s.toList.splitOn '/').map String.ofList

def isIdle (piece : String) : Bool := piece == "" || piece == "."

/-- The names that a text leads through, and the piece behind its last slash. -/
def way (s : String) : List String × String :=
  ((pieces s).dropLast.filter (!isIdle ·), (pieces s).getLastD "")

def Flat (s : String) : Prop := ∀ piece ∈ (pieces s).dropLast, isIdle piece = true

def ChildOf (p folder : Path) : Prop :=
  ∃ name : String, '/' ∉ name.toList ∧ isIdle name = false ∧ name ≠ ".." ∧
    p = { folder with parts := folder.parts ++ [name] }

variable {s ending : String}

theorem flat_iff : Flat s ↔ (way s).1 = [] := by
  simp [Flat, way, List.filter_eq_nil_iff]

-- An ending without a slash belongs to the last piece.
private theorem splitOn_append_ending {ending : List Char} (h : '/' ∉ ending) (cs : List Char) :
    ∃ front last, '/' ∉ last ∧ cs.splitOn '/' = front ++ [last] ∧
      (cs ++ ending).splitOn '/' = front ++ [last ++ ending] := by
  induction cs with
  | nil => exact ⟨[], [], by simp, rfl, List.splitOn_eq_singleton h⟩
  | cons c cs ih =>
    obtain ⟨front, last, hlast, hcs, hlonger⟩ := ih
    rw [List.cons_append, List.splitOn_cons_eq_if_modifyHead, List.splitOn_cons_eq_if_modifyHead,
      hcs, hlonger]
    by_cases hc : c = '/'
    · exact ⟨[] :: front, last, hlast, by simp [hc], by simp [hc]⟩
    · have hne : (c == '/') = false := beq_false_of_ne hc
      cases front with
      | nil => exact ⟨[], c :: last, by simp [hlast, Ne.symm hc], by simp [hne], by simp [hne]⟩
      | cons first front =>
        exact ⟨(c :: first) :: front, last, hlast, by simp [hne], by simp [hne]⟩

private theorem exists_pieces (s : String) (h : '/' ∉ ending.toList) :
    ∃ (front : List String) (last : String), '/' ∉ last.toList ∧ pieces s = front ++ [last] ∧
      pieces (s ++ ending) = front ++ [last ++ ending] := by
  obtain ⟨front, last, hlast, hs, hlonger⟩ := splitOn_append_ending h s.toList
  refine ⟨front.map String.ofList, String.ofList last, by simpa using hlast, ?_, ?_⟩
  · simp [pieces, hs]
  · rw [pieces, String.toList_append, hlonger]
    simp [String.ofList_append]

private theorem pieces_of_not_mem (h : '/' ∉ s.toList) : pieces s = [s] := by
  rw [pieces, List.splitOn_eq_singleton h]
  simp

theorem way_of_not_mem (h : '/' ∉ s.toList) : way s = ([], s) := by
  simp [way, pieces_of_not_mem h]

theorem slash_not_mem_way (s : String) : '/' ∉ (way s).2.toList := by
  have hempty : '/' ∉ "".toList := by simp
  obtain ⟨front, last, hlast, hs, -⟩ := exists_pieces s hempty
  simpa [way, hs] using hlast

theorem isIdle_append_ending (s : String) (h : 1 < ending.length) :
    isIdle (s ++ ending) = false := by
  have hlength : 1 < (s ++ ending).length := by
    rw [String.length_append]
    omega
  have hempty : s ++ ending ≠ "" := by
    intro heq
    simp [heq] at hlength
  have hdot : s ++ ending ≠ "." := by
    intro heq
    exact absurd (heq ▸ hlength) (by decide)
  simp [isIdle, hempty, hdot]

theorem append_ending_ne_dots (s : String) (h : 2 < ending.length) : s ++ ending ≠ ".." := by
  intro heq
  have hlength := congrArg String.length heq
  rw [String.length_append] at hlength
  have htwo : "..".length = 2 := by decide
  omega

theorem below_append {folder : Path} (hslash : '/' ∉ ending.toList) (hending : 1 < ending.length)
    (hrelative : (s ++ ending).toList.head? ≠ some '/') :
    folder.below (s ++ ending) =
      { folder with parts := folder.parts ++ (way s).1 ++ [(way s).2 ++ ending] } := by
  obtain ⟨front, last, -, hs, hlonger⟩ := exists_pieces s hslash
  have hkept : ((pieces (s ++ ending)).filter fun p => p != "" && p != ".") =
      front.filter (!isIdle ·) ++ [last ++ ending] := by
    have hsame : (fun p : String => p != "" && p != ".") = (!isIdle ·) := by
      funext p
      simp [isIdle, bne]
    rw [hsame, hlonger, List.filter_append]
    simp [isIdle_append_ending last hending]
  have hread : ofString (s ++ ending) =
      { parts := front.filter (!isIdle ·) ++ [last ++ ending] } := by
    have habsolute : ((s ++ ending).toList.head? == some '/') = false := beq_false_of_ne hrelative
    rw [← hkept]
    simp only [ofString, habsolute]
    rfl
  simp [below, join, hread, way, hs]

/-! Flat texts. -/

private theorem isIdle_ofList {cs : List Char} :
    isIdle (String.ofList cs) = true ↔ cs = [] ∨ cs = ['.'] := by
  have hempty : String.ofList cs = "" ↔ cs = [] := by simp
  have hdot : String.ofList cs = "." ↔ cs = ['.'] := String.ofList_inj
  simp [isIdle, hempty, hdot]

private theorem flat_iff_splitOn :
    Flat s ↔ ∀ cs ∈ (s.toList.splitOn '/').dropLast, cs = [] ∨ cs = ['.'] := by
  rw [Flat, pieces, ← List.map_dropLast, List.forall_mem_map]
  exact forall₂_congr fun cs _ => isIdle_ofList

private theorem forall_idle_iff {as bs : List (List Char)} (h : List.Forall₂ Text.Respelled as bs) :
    (∀ cs ∈ bs, cs = [] ∨ cs = ['.']) ↔ ∀ cs ∈ as, cs = [] ∨ cs = ['.'] := by
  induction h with
  | nil => simp
  | cons hhead htail ih =>
    rw [List.forall_mem_cons, List.forall_mem_cons, hhead.eq_nil_iff, hhead.eq_dot_iff, ih]

theorem flat_append_slug (front name : String) :
    Flat (front ++ slug name) ↔ Flat (front ++ name) := by
  have hpieces := ((respelled_slug name).append_left front.toList).splitOn
  rw [← String.toList_append, ← String.toList_append] at hpieces
  have hlength := hpieces.length_eq
  have hfronts : List.Forall₂ Text.Respelled ((front ++ name).toList.splitOn '/').dropLast
      ((front ++ slug name).toList.splitOn '/').dropLast := by
    rw [List.dropLast_eq_take, List.dropLast_eq_take, hlength]
    exact List.forall₂_take _ hpieces
  rw [flat_iff_splitOn, flat_iff_splitOn]
  exact forall_idle_iff hfronts

theorem flat_append_iff {front : String} (hfront : 1 < front.length) (hslash : '/' ∉ front.toList)
    (name : String) : Flat (front ++ name) ↔ '/' ∉ name.toList := by
  constructor
  · intro hflat hmem
    obtain ⟨before, after, hname, hfree⟩ := List.eq_append_cons_of_mem hmem
    have hfirst : (front ++ name).toList.splitOn '/' =
        (front.toList ++ before) :: after.splitOn '/' := by
      rw [String.toList_append, hname, ← List.append_assoc]
      exact List.splitOn_append_cons_self_of_not_mem (by simp [hslash, hfree]) after
    have hrest : after.splitOn '/' ≠ [] := List.splitOn_ne_nil '/' after
    rw [flat_iff_splitOn, hfirst, List.dropLast_cons_of_ne_nil hrest] at hflat
    -- The first piece is too long to be passed over.
    have hlength : 1 < (front.toList ++ before).length := by
      rw [List.length_append, String.length_toList]
      omega
    rcases hflat _ List.mem_cons_self with hidle | hidle
    · simp [hidle] at hlength
    · simp [hidle] at hlength
  · intro hname
    simp [Flat, pieces_of_not_mem, hname, hslash]

/-! Entries of a directory. -/

theorem childOf_iff {folder : Path} {names : List String} {name : String}
    (hslash : '/' ∉ name.toList) (hidle : isIdle name = false) (hdots : name ≠ "..") :
    ChildOf { folder with parts := folder.parts ++ names ++ [name] } folder ↔ names = [] := by
  constructor
  · rintro ⟨other, -, -, -, heq⟩
    have hparts := (Path.mk.inj heq).2
    rw [List.append_assoc, List.append_cancel_left_eq] at hparts
    have hlength := congrArg List.length hparts
    simpa using hlength
  · rintro rfl
    exact ⟨name, hslash, hidle, hdots, by simp⟩

end SuiteTidy.Path

import SuiteTidy.Text.Case
import SuiteTidy.Text.Lines
import Mathlib.Data.List.Forall2

/-!
Slugs: names in lower case with dashes for spaces, as they stand in the names of files. Slashes and
dots are the characters that mean something in a path, and a slug has them where the name has them.
-/

set_option autoImplicit false
set_option relaxedAutoImplicit false

namespace SuiteTidy.Text

def IsMark (c : Char) : Prop := c = '/' ∨ c = '.'

/-- A text and another form of it: the marks stand where they stood, and every other character has
become one or more characters of which none is a mark. -/
inductive Respelled : List Char → List Char → Prop
  | nil : Respelled [] []
  | mark {c : Char} {cs out : List Char} (hc : IsMark c) (h : Respelled cs out) :
      Respelled (c :: cs) (c :: out)
  | other {c : Char} {word cs out : List Char} (hc : ¬IsMark c) (hne : word ≠ [])
      (hword : ∀ x ∈ word, ¬IsMark x) (h : Respelled cs out) : Respelled (c :: cs) (word ++ out)

variable {cs out : List Char}

namespace Respelled

theorem single {c : Char} (word : List Char) (hmark : IsMark c → word = [c])
    (hother : ¬IsMark c → word ≠ [] ∧ ∀ x ∈ word, ¬IsMark x) (h : Respelled cs out) :
    Respelled (c :: cs) (word ++ out) := by
  by_cases hc : IsMark c
  · rw [hmark hc]
    exact .mark hc h
  · exact .other hc (hother hc).1 (hother hc).2 h

theorem append_left (front : List Char) (h : Respelled cs out) :
    Respelled (front ++ cs) (front ++ out) := by
  induction front with
  | nil => exact h
  | cons c front ih =>
    refine single [c] (fun _ => rfl) ?_ ih
    intro hc
    exact ⟨List.cons_ne_nil c [], by simpa using hc⟩

theorem eq_nil_iff (h : Respelled cs out) : out = [] ↔ cs = [] := by
  cases h with
  | nil => simp
  | mark hc h => simp
  | other hc hne hword h => simp [hne]

theorem eq_dot_iff (h : Respelled cs out) : out = ['.'] ↔ cs = ['.'] := by
  cases h with
  | nil => simp
  | mark hc h => simp [h.eq_nil_iff]
  | @other c word cs out hc hne hword h =>
    have hdot : c ≠ '.' := fun heq => hc (.inr heq)
    obtain ⟨x, xs, rfl⟩ := List.exists_cons_of_ne_nil hne
    have hx : x ≠ '.' := fun heq => hword x (by simp) (.inr heq)
    simp [hdot, hx]

theorem slash_mem_iff (h : Respelled cs out) : '/' ∈ out ↔ '/' ∈ cs := by
  induction h with
  | nil => simp
  | mark hc h ih => simp [ih]
  | @other c word cs out hc hne hword h ih =>
    have hslash : '/' ≠ c := fun heq => hc (.inl heq.symm)
    have hfree : '/' ∉ word := fun hmem => hword '/' hmem (.inl rfl)
    simp [hslash, hfree, ih]

theorem map {f : Char → Char} (hmark : ∀ c, IsMark c → f c = c)
    (hother : ∀ c, ¬IsMark c → ¬IsMark (f c)) (h : Respelled cs out) :
    Respelled cs (out.map f) := by
  induction h with
  | nil => exact .nil
  | mark hc h ih =>
    rw [List.map_cons, hmark _ hc]
    exact .mark hc ih
  | other hc hne hword h ih =>
    rw [List.map_append]
    refine .other hc (by simpa using hne) ?_ ih
    intro x hx
    obtain ⟨y, hy, rfl⟩ := List.mem_map.mp hx
    exact hother y (hword y hy)

private theorem splitOn_append {word : List Char} (hword : '/' ∉ word) (cs : List Char) :
    (word ++ cs).splitOn '/' = (cs.splitOn '/').modifyHead (word ++ ·) := by
  induction word with
  | nil => exact (congrFun List.modifyHead_id (cs.splitOn '/')).symm
  | cons c word ih =>
    rw [List.mem_cons, not_or] at hword
    have hc : (c == '/') = false := beq_false_of_ne (Ne.symm hword.1)
    rw [List.cons_append, List.splitOn_cons_eq_if_modifyHead, hc, ih hword.2]
    simp [List.modifyHead_modifyHead, Function.comp_def]

private theorem forall₂_modifyHead {f g : List Char → List Char}
    (hfg : ∀ {cs out}, Respelled cs out → Respelled (f cs) (g out)) {as bs : List (List Char)}
    (h : List.Forall₂ Respelled as bs) :
    List.Forall₂ Respelled (as.modifyHead f) (bs.modifyHead g) := by
  cases h with
  | nil => exact .nil
  | cons hhead htail => exact .cons (hfg hhead) htail

theorem splitOn (h : Respelled cs out) :
    List.Forall₂ Respelled (cs.splitOn '/') (out.splitOn '/') := by
  induction h with
  | nil => exact .cons .nil .nil
  | @mark c cs out hc h ih =>
    rcases hc with rfl | rfl
    · rw [List.splitOn_cons_eq_if_modifyHead, List.splitOn_cons_eq_if_modifyHead]
      exact .cons .nil ih
    · rw [List.splitOn_cons_eq_if_modifyHead, List.splitOn_cons_eq_if_modifyHead]
      exact forall₂_modifyHead (fun hrest => .mark (.inr rfl) hrest) ih
  | @other c word cs out hc hne hword h ih =>
    have hslash : (c == '/') = false := beq_false_of_ne fun heq => hc (.inl heq)
    rw [List.splitOn_cons_eq_if_modifyHead, hslash,
      splitOn_append (fun hmem => hword '/' hmem (.inl rfl))]
    exact forall₂_modifyHead (fun hrest => .other hc hne hword hrest) ih

end Respelled

/-! Lower case. -/

private theorem toNat_ofNat_cases {n : Nat} (hn : 64 ≤ n) :
    (Char.ofNat n).toNat = 0 ∨ 64 ≤ (Char.ofNat n).toNat := by
  -- A number that is no character stands for the null character.
  by_cases hvalid : n.isValidChar
  · right
    rw [Char.ofNat, dif_pos hvalid]
    exact hn
  · left
    rw [Char.ofNat, dif_neg hvalid]
    rfl

private theorem le_movedBy {runs : List CaseRun}
    (hruns : ∀ run ∈ runs, (64 : Int) ≤ run.first + run.delta) {n : Nat} (hn : 64 ≤ n) :
    64 ≤ movedBy runs n := by
  induction runs with
  | nil => exact hn
  | cons run runs ih =>
    rw [List.forall_mem_cons] at hruns
    rw [movedBy]
    split_ifs with hbefore hin
    · exact hn
    · omega
    · exact ih hruns.2

private theorem lowerChar_of_isMark {c : Char} (hc : IsMark c) : lowerChar c = [c] := by
  rcases hc with rfl | rfl
  · rfl
  · rfl

private theorem lowerChar_ne_nil (c : Char) : lowerChar c ≠ [] := by
  have hspecials : ∀ e ∈ lowerSpecials, e.2 ≠ [] := by decide
  rw [lowerChar]
  split_ifs
  · exact List.cons_ne_nil _ _
  · cases hfound : lowerSpecials.lookup c.toNat with
    | some ns =>
      obtain ⟨before, after, hlist, -⟩ := List.lookup_eq_some_iff.mp hfound
      simpa using hspecials (c.toNat, ns) (by simp [hlist])
    | none => exact List.cons_ne_nil _ _

/-- What lower case changes a character into has a code among the letters, or is the null
character. -/
private theorem eq_or_toNat_of_mem_lowerChar {c x : Char} (hx : x ∈ lowerChar c) :
    x = c ∨ x.toNat = 0 ∨ 64 ≤ x.toNat := by
  have hruns : ∀ run ∈ lowerRuns, (64 : Int) ≤ run.first + run.delta := by decide +kernel
  have hspecials : ∀ e ∈ lowerSpecials, ∀ n ∈ e.2, 64 ≤ n := by decide
  have hascii : ∀ n < 128, (Char.ofNat n).toLower = Char.ofNat n ∨
      64 ≤ (Char.ofNat n).toLower.toNat := by decide +kernel
  rw [lowerChar] at hx
  split_ifs at hx with hsmall
  · have hkept := hascii c.toNat hsmall
    rw [Char.ofNat_toNat] at hkept
    rw [List.mem_singleton.mp hx]
    exact hkept.imp_right .inr
  · cases hfound : lowerSpecials.lookup c.toNat with
    | some ns =>
      rw [hfound] at hx
      obtain ⟨before, after, hlist, -⟩ := List.lookup_eq_some_iff.mp hfound
      obtain ⟨n, hn, rfl⟩ := List.mem_map.mp hx
      exact .inr (toNat_ofNat_cases (hspecials (c.toNat, ns) (by simp [hlist]) n hn))
    | none =>
      rw [hfound] at hx
      rw [List.mem_singleton.mp hx]
      exact .inr (toNat_ofNat_cases (le_movedBy hruns (by omega)))

private theorem lowerChar_of_not_isMark {c : Char} (hc : ¬IsMark c) :
    lowerChar c ≠ [] ∧ ∀ x ∈ lowerChar c, ¬IsMark x := by
  refine ⟨lowerChar_ne_nil c, fun x hx hmark => ?_⟩
  rcases eq_or_toNat_of_mem_lowerChar hx with rfl | hcode
  · exact hc hmark
  · rcases hmark with rfl | rfl
    · exact absurd hcode (by decide)
    · exact absurd hcode (by decide)

theorem mem_of_mem_lowerFrom {x : Char} (hcode : 0 < x.toNat ∧ x.toNat < 64)
    {before cs : List Char} (hx : x ∈ lowerFrom before cs) : x ∈ cs := by
  induction cs generalizing before with
  | nil => cases hx
  | cons c cs ih =>
    rw [lowerFrom, List.mem_append] at hx
    rcases hx with hfirst | hrest
    · suffices heq : x = c by rw [heq]; exact List.mem_cons_self
      split_ifs at hfirst
      · exact absurd hcode (by rw [List.mem_singleton.mp hfirst]; decide)
      · exact absurd hcode (by rw [List.mem_singleton.mp hfirst]; decide)
      · rcases eq_or_toNat_of_mem_lowerChar hfirst with heq | hzero | hlarge
        · exact heq
        · omega
        · omega
    · exact List.mem_cons_of_mem c (ih hrest)

private theorem respelled_lowerFrom (before cs : List Char) :
    Respelled cs (lowerFrom before cs) := by
  induction cs generalizing before with
  | nil => exact .nil
  | cons c cs ih =>
    rw [lowerFrom]
    apply Respelled.single _ _ _ (ih (c :: before))
    · intro hc
      have hsigma : c ≠ 'Σ' := by
        rintro rfl
        simp [IsMark] at hc
      rw [if_neg hsigma, lowerChar_of_isMark hc]
    · intro hc
      split_ifs with hsigma hfinal
      · simp [IsMark]
      · simp [IsMark]
      · exact lowerChar_of_not_isMark hc

private theorem replaceAll_singleton (old new : Char) (cs : List Char) :
    replaceAll [old] [new] cs = cs.map fun c => if c = old then new else c := by
  induction cs with
  | nil => rfl
  | cons c cs ih =>
    rw [replaceAll] at ih ⊢
    by_cases hc : c = old
    · simp [replaceFrom, startsWith, hc, ih]
    · simp [replaceFrom, startsWith, hc, ih]

end SuiteTidy.Text

namespace SuiteTidy

open Text

def slug (name : String) : String := replaced (lowered name) " " "-"

theorem respelled_slug (name : String) : Respelled name.toList (slug name).toList := by
  have hlower : Respelled name.toList (lower name.toList) := respelled_lowerFrom [] _
  simp only [slug, replaced, lowered, String.toList_ofList]
  change Respelled _ (replaceAll [' '] ['-'] (lower name.toList))
  rw [replaceAll_singleton]
  refine hlower.map ?_ ?_
  · rintro c (rfl | rfl) <;> rfl
  · intro c hc
    split_ifs with hspace
    · simp [IsMark]
    · exact hc

end SuiteTidy

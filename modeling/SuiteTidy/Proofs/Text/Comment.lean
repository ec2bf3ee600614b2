import SuiteTidy.Proofs.Suite.Scan
import SuiteTidy.Text.Comment

/-!
Texts without comments. Removing a comment joins what stands on its two sides, and the joint is
never the mark of a comment: a line comment goes up to a line feed, and where no two slashes are
left neither of the sides of a block comment can add to a mark. Main statement: what is left has no
comment in it, and a text stays as it is exactly if it has none.
-/

set_option autoImplicit false
set_option relaxedAutoImplicit false

namespace SuiteTidy.Text

open SuiteTidy.Suite (occurs_iff)

/-- No two slashes stand together, and no opening mark has a closing mark behind it. -/
structure CommentFree (cs : List Char) : Prop where
  no_line : ¬ ['/', '/'] <:+: cs
  no_block : ∀ before body after, cs ≠ before ++ '/' :: '*' :: (body ++ '*' :: '/' :: after)

/-! Two characters in a row. -/

theorem head?_ne_of_forall {c a b : Char} {cs : List Char}
    (h : ∀ rest, c = a → cs = b :: rest → False) (hc : c = a) : cs.head? ≠ some b := by
  intro hhead
  obtain ⟨rest, hcs⟩ := List.head?_eq_some_iff.mp hhead
  exact h rest hc hcs

theorem pair_infix_cons_iff {a b c : Char} {cs : List Char} :
    [a, b] <:+: c :: cs ↔ (a = c ∧ cs.head? = some b) ∨ [a, b] <:+: cs := by
  rw [List.infix_cons_iff, List.cons_prefix_cons, List.singleton_prefix_iff_head?_eq_some]

theorem closing_infix_iff {cs : List Char} :
    ['*', '/'] <:+: cs ↔ ∃ body after, cs = body ++ '*' :: '/' :: after := by
  constructor
  · rintro ⟨body, after, rfl⟩
    exact ⟨body, after, by simp⟩
  · rintro ⟨body, after, rfl⟩
    exact ⟨body, after, by simp⟩

theorem CommentFree.cons {c : Char} {cs : List Char} (h : CommentFree cs)
    (hline : c = '/' → cs.head? ≠ some '/')
    (hblock : ∀ rest, c = '/' → cs = '*' :: rest → ¬ ['*', '/'] <:+: rest) :
    CommentFree (c :: cs) where
  no_line := by
    rw [pair_infix_cons_iff]
    rintro (⟨hc, hhead⟩ | hlater)
    · exact hline hc.symm hhead
    · exact h.no_line hlater
  no_block := by
    intro before body after heq
    cases before with
    | nil =>
      obtain ⟨hc, hcs⟩ := List.cons.inj heq
      exact hblock _ hc hcs (closing_infix_iff.mpr ⟨body, after, rfl⟩)
    | cons d before => exact h.no_block before body after (List.cons.inj heq).2

/-! Line comments. -/

theorem dropLineComments_true (cs : List Char) :
    dropLineComments true cs = dropLineComments false (cs.dropWhile (· != '\n')) := by
  induction cs with
  | nil => rfl
  | cons c cs ih =>
    by_cases hc : c = '\n'
    · subst hc
      simp [dropLineComments]
    · simp [dropLineComments, hc, ih]

theorem dropLineComments_slashes (cs : List Char) :
    dropLineComments false ('/' :: '/' :: cs) =
      dropLineComments false (cs.dropWhile (· != '\n')) := by
  rw [dropLineComments, dropLineComments_true]

theorem dropLineComments_cons {c : Char} {cs : List Char}
    (h : c = '/' → cs.head? ≠ some '/') :
    dropLineComments false (c :: cs) = c :: dropLineComments false cs := by
  rw [dropLineComments]
  rintro rest rfl rfl
  exact h rfl rfl

/-- What follows a dropped comment is a line feed, so that every other character at the front has
been there before. -/
theorem head?_dropLineComments {inside : Bool} {cs : List Char} {c : Char} (hc : c ≠ '\n')
    (h : (dropLineComments inside cs).head? = some c) : inside = false ∧ cs.head? = some c := by
  fun_induction dropLineComments inside cs with
  | case1 => cases h
  | case2 cs => exact absurd (Option.some.inj h).symm hc
  | case3 d cs hd ih => exact absurd (ih h).1 (by simp)
  | case4 cs ih => exact absurd (ih h).1 (by simp)
  | case5 d cs _ ih => exact ⟨rfl, h⟩

/-- Dropping line comments brings no two characters together, a line feed apart. -/
theorem pair_infix_of_dropLineComments {inside : Bool} {cs : List Char} {a b : Char} (hb : b ≠ '\n')
    (h : [a, b] <:+: dropLineComments inside cs) : [a, b] <:+: cs := by
  fun_induction dropLineComments inside cs with
  | case1 => exact h
  | case2 cs ih =>
    rw [pair_infix_cons_iff] at h ⊢
    exact h.imp (fun hfirst => ⟨hfirst.1, (head?_dropLineComments hb hfirst.2).2⟩) ih
  | case3 d cs hd ih => exact List.infix_cons (ih h)
  | case4 cs ih => exact List.infix_cons (List.infix_cons (ih h))
  | case5 d cs _ ih =>
    rw [pair_infix_cons_iff] at h ⊢
    exact h.imp (fun hfirst => ⟨hfirst.1, (head?_dropLineComments hb hfirst.2).2⟩) ih

theorem slashes_not_infix_dropLineComments (inside : Bool) (cs : List Char) :
    ¬ ['/', '/'] <:+: dropLineComments inside cs := by
  fun_induction dropLineComments inside cs with
  | case1 => simp
  | case2 cs ih =>
    rw [pair_infix_cons_iff]
    rintro (⟨hslash, -⟩ | hlater)
    · exact absurd hslash (by decide)
    · exact ih hlater
  | case3 d cs hd ih => exact ih
  | case4 cs ih => exact ih
  | case5 d cs hother ih =>
    rw [pair_infix_cons_iff]
    rintro (⟨rfl, hhead⟩ | hlater)
    · exact head?_ne_of_forall hother rfl (head?_dropLineComments (by decide) hhead).2
    · exact ih hlater

theorem dropLineComments_eq_self {cs : List Char} (h : ¬ ['/', '/'] <:+: cs) :
    dropLineComments false cs = cs := by
  induction cs with
  | nil => rfl
  | cons c cs ih =>
    rw [pair_infix_cons_iff, not_or] at h
    rw [dropLineComments_cons fun hc hhead => h.1 ⟨hc.symm, hhead⟩, ih h.2]

/-! Block comments. -/

theorem dropBlockComments_cons {c : Char} {cs : List Char} (h : c = '/' → cs.head? ≠ some '*') :
    dropBlockComments false (c :: cs) = c :: dropBlockComments false cs := by
  rw [dropBlockComments]
  rintro rest rfl rfl
  exact h rfl rfl

theorem dropBlockComments_unclosed {cs : List Char} (h : ¬ ['*', '/'] <:+: cs) :
    dropBlockComments false ('/' :: '*' :: cs) = '/' :: '*' :: dropBlockComments false cs := by
  rw [dropBlockComments, if_neg (mt occurs_iff.mp h)]

private theorem head?_dropBlockComments {cs : List Char} (h : cs.head? ≠ some '/') :
    (dropBlockComments false cs).head? = cs.head? := by
  cases cs with
  | nil => rfl
  | cons c cs => rw [dropBlockComments_cons fun hc => absurd (congrArg some hc) h]; rfl

private theorem dropBlockComments_eq_self {cs : List Char}
    (h : ∀ before body after, cs ≠ before ++ '/' :: '*' :: (body ++ '*' :: '/' :: after)) :
    dropBlockComments false cs = cs := by
  induction cs with
  | nil => rfl
  | cons c cs ih =>
    have hcs : dropBlockComments false cs = cs := by
      refine ih fun before body after heq => h (c :: before) body after ?_
      rw [heq, List.cons_append]
    by_cases hopen : c = '/' ∧ cs.head? = some '*'
    · obtain ⟨rfl, hhead⟩ := hopen
      obtain ⟨rest, rfl⟩ := List.head?_eq_some_iff.mp hhead
      have hunclosed : ¬ ['*', '/'] <:+: rest := by
        rw [closing_infix_iff]
        rintro ⟨body, after, rfl⟩
        exact h [] body after rfl
      rw [dropBlockComments_cons (by simp)] at hcs
      rw [dropBlockComments_unclosed hunclosed, hcs]
    · rw [dropBlockComments_cons fun hc hhead => hopen ⟨hc, hhead⟩, hcs]

/-- Where no two slashes stand together, a comment that is dropped has neither a slash in front of
it nor one behind it. -/
private theorem commentFree_dropBlockComments (inside : Bool) {cs : List Char}
    (h : ¬ ['/', '/'] <:+: cs) : CommentFree (dropBlockComments inside cs) := by
  fun_induction dropBlockComments inside cs with
  | case1 => exact ⟨by simp, by simp⟩
  | case2 cs ih => exact ih fun hlater => h (List.infix_cons (List.infix_cons hlater))
  | case3 c cs _ ih => exact ih fun hlater => h (List.infix_cons hlater)
  | case4 cs _ ih => exact ih fun hlater => h (List.infix_cons (List.infix_cons hlater))
  | case5 cs hoccurs ih =>
    have hunclosed : ¬ ['*', '/'] <:+: cs := mt occurs_iff.mpr hoccurs
    have hkept : dropBlockComments false cs = cs := by
      refine dropBlockComments_eq_self fun before body after heq => hunclosed ?_
      exact closing_infix_iff.mpr ⟨before ++ '/' :: '*' :: body, after, by simp [heq]⟩
    have hcs : CommentFree cs :=
      hkept ▸ ih fun hlater => h (List.infix_cons (List.infix_cons hlater))
    rw [hkept]
    refine (hcs.cons (by simp) (by simp)).cons (by simp) ?_
    rintro rest - hrest
    obtain rfl := (List.cons.inj hrest).2
    exact hunclosed
  | case6 c cs hother ih =>
    rw [pair_infix_cons_iff, not_or] at h
    -- Behind a slash that opens nothing the text goes on with the character that it had there.
    have hnext : c = '/' → (dropBlockComments false cs).head? = cs.head? ∧
        cs.head? ≠ some '/' ∧ cs.head? ≠ some '*' := by
      rintro rfl
      have hslash : cs.head? ≠ some '/' := fun hhead => h.1 ⟨rfl, hhead⟩
      exact ⟨head?_dropBlockComments hslash, hslash, head?_ne_of_forall hother rfl⟩
    refine (ih h.2).cons ?_ ?_
    · intro hc
      rw [(hnext hc).1]
      exact (hnext hc).2.1
    · intro rest hc hrest
      have hhead := (hnext hc).1
      rw [hrest] at hhead
      exact absurd hhead.symm (hnext hc).2.2

private theorem stripComments_eq_self {cs : List Char} (h : CommentFree cs) :
    stripComments cs = cs := by
  rw [stripComments, dropLineComments_eq_self h.no_line, dropBlockComments_eq_self h.no_block]

/-- Nothing that reads as a comment is left, and only texts with a comment are changed. -/
theorem commentFree_stripComments (cs : List Char) :
    CommentFree (stripComments cs) ∧ stripComments (stripComments cs) = stripComments cs ∧
      (stripComments cs = cs ↔ CommentFree cs) := by
  have hfree : CommentFree (stripComments cs) :=
    commentFree_dropBlockComments false (slashes_not_infix_dropLineComments false cs)
  refine ⟨hfree, stripComments_eq_self hfree, fun heq => ?_, stripComments_eq_self⟩
  rwa [heq] at hfree

end SuiteTidy.Text

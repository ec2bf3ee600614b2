import SuiteTidy.Proofs.Text.Comment
import SuiteTidy.Suite.Import
import Mathlib.Data.List.TakeWhile

/-!
One scan for both kinds of comments. From the left, it cuts a text into comments and the characters
outside them. Each piece is fixed by what stands in front of it and behind it, so that a text is
followed piece by piece.
-/

set_option autoImplicit false
set_option relaxedAutoImplicit false

namespace SuiteTidy.Text

open SuiteTidy.Suite (afterStart?_eq_some_iff beforeText occurs_iff startsWith_iff)

/-- A piece of a text: a character outside all comments, or a comment without its marks. -/
inductive Piece where
  | char (c : Char)
  | line (body : List Char)
  | block (body : List Char)

namespace Piece

def text : Piece → List Char
  | char c => [c]
  | line body => '/' :: '/' :: body
  | block body => '/' :: '*' :: (body ++ ['*', '/'])

def kept : Piece → List Char
  | char c => [c]
  | line _ => []
  | block _ => []

/-- A piece can stand in front of a text: a line comment ends with its line, a block comment at its
first closing mark, and a character outside comments starts none. -/
def StandsBefore : Piece → List Char → Prop
  | char c, rest => c = '/' →
      rest.head? ≠ some '/' ∧ ∀ more, rest = '*' :: more → ¬ ['*', '/'] <:+: more
  | line body, rest => '\n' ∉ body ∧ ∀ c ∈ rest.head?, c = '\n'
  | block body, _ => ¬ ['*', '/'] <:+: body

end Piece

def firstPiece : Char → List Char → Piece × List Char
  | '/', '/' :: cs => (.line (cs.takeWhile (· != '\n')), cs.dropWhile (· != '\n'))
  | '/', '*' :: cs =>
    match afterFirst? ['*', '/'] cs with
    | some rest => (.block (beforeText ['*', '/'] cs), rest)
    | none => (.char '/', '*' :: cs)
  | c, cs => (.char c, cs)

section Closing

variable {body rest cs : List Char}

private theorem exists_first_closing (h : ['*', '/'] <:+: cs) :
    ∃ body rest, cs = body ++ '*' :: '/' :: rest ∧ ¬ ['*', '/'] <:+: body := by
  induction cs with
  | nil => simp at h
  | cons c cs ih =>
    by_cases hfirst : c = '*' ∧ cs.head? = some '/'
    · obtain ⟨rfl, hhead⟩ := hfirst
      obtain ⟨rest, rfl⟩ := List.head?_eq_some_iff.mp hhead
      exact ⟨[], rest, rfl, by simp⟩
    · have hlater :=
        (pair_infix_cons_iff.mp h).resolve_left fun hmark => hfirst ⟨hmark.1.symm, hmark.2⟩
      obtain ⟨body, rest, rfl, hbody⟩ := ih hlater
      refine ⟨c :: body, rest, rfl, ?_⟩
      rw [pair_infix_cons_iff]
      rintro (⟨rfl, hhead⟩ | hinside)
      · exact hfirst ⟨rfl, by simp [List.head?_append, hhead]⟩
      · exact hbody hinside

private theorem no_closing_at {c : Char} (h : ¬ ['*', '/'] <:+: c :: body) (rest : List Char) :
    ¬ ['*', '/'] <+: c :: (body ++ '*' :: rest) := by
  rw [List.cons_prefix_cons, List.singleton_prefix_iff_head?_eq_some]
  rintro ⟨hc, hhead⟩
  refine h (pair_infix_cons_iff.mpr (.inl ⟨hc, ?_⟩))
  cases body with
  | nil => exact absurd hhead (by simp)
  | cons d body => exact hhead

theorem closing_not_infix_star (h : ¬ ['*', '/'] <:+: body) : ¬ ['*', '/'] <:+: body ++ ['*'] := by
  induction body with
  | nil => decide
  | cons c body ih =>
    rw [List.cons_append, List.infix_cons_iff, not_or]
    exact ⟨no_closing_at h [], ih fun hinside => h (List.infix_cons hinside)⟩

private theorem afterStart?_eq_none {p : List Char} (h : ¬ p <+: cs) : afterStart? cs p = none := by
  rw [Option.eq_none_iff_forall_ne_some]
  intro more hmore
  exact h ⟨more, (afterStart?_eq_some_iff.mp hmore).symm⟩

private theorem afterFirst?_closing (h : ¬ ['*', '/'] <:+: body) (rest : List Char) :
    afterFirst? ['*', '/'] (body ++ '*' :: '/' :: rest) = some rest := by
  induction body with
  | nil => simp [afterFirst?, afterStart?]
  | cons c body ih =>
    rw [List.cons_append, afterFirst?, afterStart?_eq_none (no_closing_at h _)]
    exact ih fun hinside => h (List.infix_cons hinside)

private theorem afterFirst?_eq_none (h : ¬ ['*', '/'] <:+: cs) :
    afterFirst? ['*', '/'] cs = none := by
  induction cs with
  | nil => rfl
  | cons c cs ih =>
    rw [afterFirst?, afterStart?_eq_none fun hstart => h hstart.isInfix]
    exact ih fun hinside => h (List.infix_cons hinside)

private theorem beforeText_closing (h : ¬ ['*', '/'] <:+: body) (rest : List Char) :
    beforeText ['*', '/'] (body ++ '*' :: '/' :: rest) = body := by
  induction body with
  | nil => simp [beforeText, startsWith]
  | cons c body ih =>
    rw [List.cons_append, beforeText, if_neg (mt startsWith_iff.mp (no_closing_at h _)),
      ih fun hinside => h (List.infix_cons hinside)]

theorem dropBlockComments_block (h : ¬ ['*', '/'] <:+: body) (rest : List Char) :
    dropBlockComments false ('/' :: '*' :: (body ++ '*' :: '/' :: rest)) =
      dropBlockComments false rest := by
  have hclosed : occurs ['*', '/'] (body ++ '*' :: '/' :: rest) = true :=
    occurs_iff.mpr (closing_infix_iff.mpr ⟨body, rest, rfl⟩)
  rw [dropBlockComments, if_pos hclosed]
  clear hclosed
  induction body with
  | nil => rfl
  | cons c body ih =>
    rw [List.cons_append, dropBlockComments]
    · exact ih fun hinside => h (List.infix_cons hinside)
    · rintro more rfl hmore
      refine no_closing_at h ('/' :: rest) ?_
      rw [hmore]
      exact ⟨more, rfl⟩

end Closing

/-! The scan, piece by piece. -/

private theorem firstPiece_stands (c : Char) (cs : List Char) :
    c :: cs = (firstPiece c cs).1.text ++ (firstPiece c cs).2 ∧
      (firstPiece c cs).1.StandsBefore (firstPiece c cs).2 := by
  fun_cases firstPiece c cs with
  | case1 cs =>
    refine ⟨by simp [Piece.text], fun hmem => ?_, fun c hc => ?_⟩
    · simpa using List.mem_takeWhile_imp hmem
    · have hstop := List.head?_dropWhile_not (· != '\n') cs
      rw [Option.mem_def.mp hc] at hstop
      simpa using hstop
  | case2 cs rest hrest =>
    by_cases hclosed : ['*', '/'] <:+: cs
    · obtain ⟨body, more, rfl, hbody⟩ := exists_first_closing hclosed
      rw [afterFirst?_closing hbody] at hrest
      obtain rfl := Option.some.inj hrest
      rw [beforeText_closing hbody]
      exact ⟨by simp [Piece.text], hbody⟩
    · rw [afterFirst?_eq_none hclosed] at hrest
      cases hrest
  | case3 cs hnone =>
    refine ⟨rfl, fun _ => ⟨by simp, ?_⟩⟩
    intro more hmore hclosed
    obtain rfl := (List.cons.inj hmore).2
    obtain ⟨body, rest, rfl, hbody⟩ := exists_first_closing hclosed
    rw [afterFirst?_closing hbody] at hnone
    cases hnone
  | case4 c cs hline hblock =>
    refine ⟨rfl, ?_⟩
    rintro rfl
    exact ⟨head?_ne_of_forall hline rfl, fun more hmore => absurd hmore (hblock more rfl)⟩

theorem dropWhile_line {body rest : List Char} (hbody : '\n' ∉ body)
    (hrest : ∀ c ∈ rest.head?, c = '\n') : (body ++ rest).dropWhile (· != '\n') = rest := by
  have hinside : ∀ c ∈ body, (c != '\n') = true := by
    intro c hc
    rw [bne_iff_ne]
    rintro rfl
    exact hbody hc
  rw [List.dropWhile_append_of_pos hinside]
  cases rest with
  | nil => rfl
  | cons c rest => simp [hrest c rfl]

private theorem firstPiece_eq {piece : Piece} {rest cs : List Char} {c : Char}
    (h : piece.StandsBefore rest) (htext : c :: cs = piece.text ++ rest) :
    firstPiece c cs = (piece, rest) := by
  cases piece with
  | char d =>
    obtain ⟨rfl, rfl⟩ := List.cons.inj htext
    fun_cases firstPiece c cs with
    | case1 cs => exact absurd rfl (h rfl).1
    | case2 cs rest hrest =>
      rw [afterFirst?_eq_none ((h rfl).2 cs rfl)] at hrest
      cases hrest
    | case3 cs hnone => rfl
    | case4 c cs _ _ => rfl
  | line body =>
    obtain ⟨rfl, rfl⟩ := List.cons.inj htext
    have hrest := dropWhile_line h.1 h.2
    have hbody : (body ++ rest).takeWhile (· != '\n') = body := by
      have hsplit := List.takeWhile_append_dropWhile (p := (· != '\n')) (l := body ++ rest)
      rw [hrest] at hsplit
      exact List.append_cancel_right hsplit
    simp [firstPiece, hbody, hrest]
  | block body =>
    obtain ⟨rfl, rfl⟩ := List.cons.inj htext
    simp [firstPiece, afterFirst?_closing h, beforeText_closing h]

/-- The pieces of a text as one scan from the left finds them, each with what follows it. -/
def piecesOf : List Char → List (Piece × List Char)
  | [] => []
  | c :: cs => firstPiece c cs :: piecesOf (firstPiece c cs).2
termination_by cs => cs.length
decreasing_by
  have hlength := congrArg List.length (firstPiece_stands c cs).1
  have htext : 0 < (firstPiece c cs).1.text.length := by
    cases (firstPiece c cs).1 <;> simp [Piece.text]
  rw [List.length_append] at hlength
  omega

def scanned (cs : List Char) : List Char := (piecesOf cs).flatMap fun found => found.1.kept

theorem piecesOf_append {piece : Piece} {rest : List Char} (h : piece.StandsBefore rest) :
    piecesOf (piece.text ++ rest) = (piece, rest) :: piecesOf rest := by
  obtain ⟨c, cs, hcs⟩ : ∃ c cs, piece.text ++ rest = c :: cs := by
    cases piece <;> exact ⟨_, _, rfl⟩
  rw [hcs, piecesOf, firstPiece_eq h hcs.symm]

theorem scanned_append {piece : Piece} {rest : List Char} (h : piece.StandsBefore rest) :
    scanned (piece.text ++ rest) = piece.kept ++ scanned rest := by
  rw [scanned, piecesOf_append h, List.flatMap_cons, scanned]

theorem piece_induction {motive : List Char → Prop} (nil : motive [])
    (append : ∀ (piece : Piece) (rest : List Char), piece.StandsBefore rest → motive rest →
      motive (piece.text ++ rest))
    (cs : List Char) : motive cs := by
  fun_induction piecesOf cs with
  | case1 => exact nil
  | case2 c cs ih =>
    obtain ⟨htext, hstands⟩ := firstPiece_stands c cs
    rw [htext]
    exact append _ _ hstands ih

end SuiteTidy.Text

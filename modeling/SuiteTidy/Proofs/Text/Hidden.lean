import SuiteTidy.Proofs.Text.Pieces

/-!
Comments that are removed in two steps. When the line comments go first, two slashes count inside a
block comment too: they take the rest of their line away, and a closing mark with it. Main
statement: removing comments agrees with one scan, on a text and all its beginnings, exactly if no
closing mark is hidden in that way.
-/

set_option autoImplicit false
set_option relaxedAutoImplicit false

namespace SuiteTidy.Text

def SlashesOnLastLine (cs : List Char) : Prop :=
  ∃ before after, cs = before ++ '/' :: '/' :: after ∧ '\n' ∉ after

/-- The closing mark of a block comment is not hidden by two slashes in front of it on its line, and
does not make two slashes with what follows. -/
def Piece.Exposed : Piece → List Char → Prop
  | .block body, rest => ¬ SlashesOnLastLine body ∧ rest.head? ≠ some '/'
  | _, _ => True

def NothingHidden (cs : List Char) : Prop := ∀ found ∈ piecesOf cs, found.1.Exposed found.2

private theorem nothingHidden_append_iff {piece : Piece} {rest : List Char}
    (h : piece.StandsBefore rest) :
    NothingHidden (piece.text ++ rest) ↔ piece.Exposed rest ∧ NothingHidden rest := by
  rw [NothingHidden, piecesOf_append h, List.forall_mem_cons, NothingHidden]

private theorem nothingHidden_nil : NothingHidden [] := by simp [NothingHidden, piecesOf]

/-! Line comments inside block comments. -/

/-- Whether a text that starts inside or outside a line comment ends inside one, if two slashes
start a line comment wherever they stand. -/
def endsInLine : Bool → List Char → Bool
  | inside, [] => inside
  | true, c :: cs => if c = '\n' then endsInLine false cs else endsInLine true cs
  | false, '/' :: '/' :: cs => endsInLine true cs
  | false, _ :: cs => endsInLine false cs

private theorem slashesOnLastLine_cons_iff {c : Char} {cs : List Char} :
    SlashesOnLastLine (c :: cs) ↔
      (∃ after, c = '/' ∧ cs = '/' :: after ∧ '\n' ∉ after) ∨ SlashesOnLastLine cs := by
  constructor
  · rintro ⟨before, after, heq, hafter⟩
    cases before with
    | nil =>
      obtain ⟨hc, hcs⟩ := List.cons.inj heq
      exact .inl ⟨after, hc, hcs, hafter⟩
    | cons d before => exact .inr ⟨before, after, (List.cons.inj heq).2, hafter⟩
  · rintro (⟨after, rfl, rfl, hafter⟩ | ⟨before, after, rfl, hafter⟩)
    · exact ⟨[], after, rfl, hafter⟩
    · exact ⟨c :: before, after, rfl, hafter⟩

private theorem endsInLine_iff {inside : Bool} {cs : List Char} :
    endsInLine inside cs = true ↔ (inside = true ∧ '\n' ∉ cs) ∨ SlashesOnLastLine cs := by
  fun_induction endsInLine inside cs with
  | case1 inside => simp [SlashesOnLastLine]
  | case2 cs ih =>
    rw [ih, slashesOnLastLine_cons_iff]
    simp
  | case3 c cs hc ih =>
    rw [ih, slashesOnLastLine_cons_iff, ← or_assoc]
    refine or_congr_left ⟨fun h => .inl ⟨rfl, by simp [Ne.symm hc, h.2]⟩, ?_⟩
    rintro (⟨-, hcs⟩ | ⟨after, rfl, rfl, hafter⟩)
    · exact ⟨rfl, fun hmem => hcs (List.mem_cons_of_mem c hmem)⟩
    · exact ⟨rfl, by simpa using hafter⟩
  | case4 cs ih =>
    rw [ih, slashesOnLastLine_cons_iff, slashesOnLastLine_cons_iff]
    constructor
    · rintro (⟨-, hcs⟩ | hlater)
      · exact .inr (.inl ⟨cs, rfl, rfl, hcs⟩)
      · exact .inr (.inr (.inr hlater))
    · rintro (⟨hfalse, -⟩ | ⟨after, -, hcs, hafter⟩ | ⟨after, -, rfl, hafter⟩ | hlater)
      · cases hfalse
      · exact .inl ⟨rfl, (List.cons.inj hcs).2 ▸ hafter⟩
      · exact .inl ⟨rfl, by simpa using hafter⟩
      · exact .inr hlater
  | case5 c cs hother ih =>
    rw [ih, slashesOnLastLine_cons_iff]
    constructor
    · rintro (⟨hfalse, -⟩ | hlater)
      · cases hfalse
      · exact .inr (.inr hlater)
    · rintro (⟨hfalse, -⟩ | ⟨after, hc, hcs, -⟩ | hlater)
      · cases hfalse
      · exact absurd hcs (hother after hc)
      · exact .inr hlater

private theorem endsInLine_eq_false {cs : List Char} (h : ¬ SlashesOnLastLine cs) :
    endsInLine false cs = false := by
  rw [Bool.eq_false_iff, ne_eq, endsInLine_iff]
  rintro (⟨hfalse, -⟩ | hslashes)
  · cases hfalse
  · exact h hslashes

private theorem dropLineComments_append_of_open {inside : Bool} {cs more : List Char}
    (h : endsInLine inside cs = true) (hmore : '\n' ∉ more) :
    dropLineComments inside (cs ++ more) = dropLineComments inside cs := by
  fun_induction endsInLine inside cs with
  | case1 inside =>
    subst h
    have hnone : (more ++ []).dropWhile (· != '\n') = [] := dropWhile_line hmore (by simp)
    rw [List.append_nil] at hnone
    rw [List.nil_append, dropLineComments_true, hnone, dropLineComments_true]
    rfl
  | case2 cs ih => simpa [dropLineComments] using ih h
  | case3 c cs hc ih => simpa [dropLineComments, hc] using ih h
  | case4 cs ih => simpa [dropLineComments] using ih h
  | case5 c cs hother ih =>
    have hfirst : c = '/' → cs.head? ≠ some '/' := head?_ne_of_forall hother
    obtain ⟨d, cs, rfl⟩ := List.exists_cons_of_ne_nil (l := cs) (by rintro rfl; cases h)
    rw [List.cons_append, dropLineComments_cons (by simpa using hfirst), ih h,
      dropLineComments_cons hfirst]

private theorem dropLineComments_append_of_closed {inside : Bool} {cs more : List Char}
    (h : endsInLine inside cs = false) :
    dropLineComments inside (cs ++ '*' :: more) =
      dropLineComments inside cs ++ '*' :: dropLineComments false more := by
  fun_induction endsInLine inside cs with
  | case1 inside =>
    subst h
    rw [List.nil_append, dropLineComments_cons (by simp)]
    rfl
  | case2 cs ih => simpa [dropLineComments] using ih h
  | case3 c cs hc ih => simpa [dropLineComments, hc] using ih h
  | case4 cs ih => simpa [dropLineComments] using ih h
  | case5 c cs hother ih =>
    have hfirst : c = '/' → cs.head? ≠ some '/' := head?_ne_of_forall hother
    have hfirst' : c = '/' → (cs ++ '*' :: more).head? ≠ some '/' := by
      cases cs with
      | nil => simp
      | cons d cs => exact hfirst
    rw [List.cons_append, dropLineComments_cons hfirst', ih h, dropLineComments_cons hfirst,
      List.cons_append]

/-! Both ways. -/

private theorem stripComments_opening {cs : List Char}
    (h : ¬ ['*', '/'] <:+: dropLineComments false cs) :
    stripComments ('/' :: '*' :: cs) = '/' :: '*' :: stripComments cs := by
  rw [stripComments, dropLineComments_cons (by simp), dropLineComments_cons (by simp),
    dropBlockComments_unclosed h, stripComments]

private theorem stripComments_char {c : Char} {rest : List Char}
    (h : (Piece.char c).StandsBefore rest) :
    stripComments (c :: rest) = c :: stripComments rest := by
  by_cases hopen : c = '/' ∧ rest.head? = some '*'
  · obtain ⟨rfl, hhead⟩ := hopen
    obtain ⟨more, rfl⟩ := List.head?_eq_some_iff.mp hhead
    rw [stripComments_opening fun hclosed =>
      (h rfl).2 more rfl (pair_infix_of_dropLineComments (by decide) hclosed)]
    rw [stripComments, stripComments, dropLineComments_cons (by simp),
      dropBlockComments_cons (by simp)]
  · rw [stripComments, stripComments, dropLineComments_cons fun hc => (h hc).1]
    refine dropBlockComments_cons fun hc hhead => hopen ⟨hc, ?_⟩
    exact (head?_dropLineComments (by decide) hhead).2

private theorem stripComments_append {piece : Piece} {rest : List Char}
    (hstands : piece.StandsBefore rest) (hexposed : piece.Exposed rest) :
    stripComments (piece.text ++ rest) = piece.kept ++ stripComments rest := by
  cases piece with
  | char c => exact stripComments_char hstands
  | line body =>
    change stripComments ('/' :: '/' :: (body ++ rest)) = stripComments rest
    rw [stripComments, dropLineComments_slashes, dropWhile_line hstands.1 hstands.2, stripComments]
  | block body =>
    have hclosed := endsInLine_eq_false hexposed.1
    have hbody : ¬ ['*', '/'] <:+: dropLineComments false body := fun hinside =>
      hstands (pair_infix_of_dropLineComments (by decide) hinside)
    have htext : (Piece.block body).text ++ rest = '/' :: '*' :: (body ++ '*' :: '/' :: rest) := by
      simp [Piece.text]
    rw [htext, stripComments, dropLineComments_cons (by simp), dropLineComments_cons (by simp),
      dropLineComments_append_of_closed hclosed, dropLineComments_cons fun _ => hexposed.2,
      dropBlockComments_block hbody]
    rfl

private theorem stripComments_eq_scanned {cs : List Char} (h : NothingHidden cs) :
    stripComments cs = scanned cs := by
  induction cs using piece_induction with
  | nil => rw [scanned, piecesOf]; rfl
  | append piece rest hstands ih =>
    rw [nothingHidden_append_iff hstands] at h
    rw [stripComments_append hstands h.1, scanned_append hstands, ih h.2]

/-- A comment whose closing mark is hidden is left open: the text up to the mark, or up to the slash
behind it, still shows its opening mark. -/
private theorem exists_disagreement {piece : Piece} {rest : List Char}
    (hstands : piece.StandsBefore rest) (h : ¬ piece.Exposed rest) :
    ∃ part, part <+: rest ∧ stripComments (piece.text ++ part) ≠ scanned (piece.text ++ part) := by
  cases piece with
  | char c => exact absurd trivial h
  | line body => exact absurd trivial h
  | block body =>
    have hblock : ∀ part, scanned ((Piece.block body).text ++ part) = scanned part := fun part =>
      scanned_append hstands
    have hbody : ¬ ['*', '/'] <:+: dropLineComments false body := fun hinside =>
      hstands (pair_infix_of_dropLineComments (by decide) hinside)
    by_cases hslashes : SlashesOnLastLine body
    · have hcut : dropLineComments false (body ++ ['*', '/']) = dropLineComments false body :=
        dropLineComments_append_of_open (endsInLine_iff.mpr (.inr hslashes)) (by decide)
      refine ⟨[], List.nil_prefix, ?_⟩
      rw [hblock, List.append_nil, Piece.text, stripComments_opening (hcut ▸ hbody), scanned,
        piecesOf]
      simp
    · have hslash : rest.head? = some '/' := by
        by_contra hhead
        exact h ⟨hslashes, hhead⟩
      have hclosed := endsInLine_eq_false hslashes
      have hcut : dropLineComments false (body ++ ['*', '/', '/']) =
          dropLineComments false body ++ ['*'] :=
        dropLineComments_append_of_closed hclosed
      have htext : (Piece.block body).text ++ ['/'] = '/' :: '*' :: (body ++ ['*', '/', '/']) := by
        simp [Piece.text]
      have hlone : scanned ['/'] = ['/'] := by
        simp [scanned, piecesOf, firstPiece, Piece.kept]
      refine ⟨['/'], List.singleton_prefix_iff_head?_eq_some.mpr hslash, ?_⟩
      rw [hblock, htext, stripComments_opening (hcut ▸ closing_not_infix_star hbody), hlone]
      simp

private theorem Piece.StandsBefore.of_part {piece : Piece} {part rest : List Char}
    (h : piece.StandsBefore rest) (hpart : part <+: rest) : piece.StandsBefore part := by
  obtain ⟨more, rfl⟩ := hpart
  cases piece with
  | char c =>
    intro hc
    obtain ⟨hslash, hblock⟩ := h hc
    cases part with
    | nil => simp
    | cons d part =>
      refine ⟨hslash, ?_⟩
      rintro _ ⟨⟩ hclosed
      exact hblock (part ++ more) rfl (hclosed.trans (List.prefix_append part more).isInfix)
  | line body =>
    refine ⟨h.1, ?_⟩
    cases part with
    | nil => simp
    | cons d part => exact h.2
  | block body => exact h

private theorem Piece.Exposed.of_part {piece : Piece} {part rest : List Char}
    (h : piece.Exposed rest) (hpart : part <+: rest) : piece.Exposed part := by
  obtain ⟨more, rfl⟩ := hpart
  cases piece with
  | char c => trivial
  | line body => trivial
  | block body =>
    refine ⟨h.1, ?_⟩
    cases part with
    | nil => simp
    | cons d part => exact h.2

private theorem nothingHidden_of_unclosed {cs : List Char} (h : ¬ ['*', '/'] <:+: cs) :
    NothingHidden cs := by
  induction cs using piece_induction with
  | nil => exact nothingHidden_nil
  | append piece rest hstands ih =>
    rw [nothingHidden_append_iff hstands]
    refine ⟨?_, ih fun hlater => h (hlater.trans (List.suffix_append _ _).isInfix)⟩
    cases piece with
    | char c => trivial
    | line body => trivial
    | block body =>
      refine absurd (closing_infix_iff.mpr ?_) h
      exact ⟨'/' :: '*' :: body, rest, by simp [Piece.text]⟩

private theorem nothingHidden_of_cut {piece : Piece} {rest part : List Char}
    (hstands : piece.StandsBefore rest) (hpart : part <+: piece.text) (hcut : part ≠ piece.text) :
    NothingHidden part := by
  cases piece with
  | char c =>
    rcases List.prefix_cons_iff.mp hpart with rfl | ⟨more, rfl, hmore⟩
    · exact nothingHidden_nil
    · exact absurd (congrArg _ (List.prefix_nil.mp hmore)) hcut
  | line body =>
    rcases List.prefix_cons_iff.mp hpart with rfl | ⟨more, rfl, hmore⟩
    · exact nothingHidden_nil
    rcases List.prefix_cons_iff.mp hmore with rfl | ⟨front, rfl, hfront⟩
    · exact nothingHidden_of_unclosed (by decide)
    have hline : (Piece.line front).StandsBefore [] :=
      ⟨fun hmem => hstands.1 (hfront.subset hmem), by simp⟩
    have hfound := (nothingHidden_append_iff hline).mpr ⟨trivial, nothingHidden_nil⟩
    rwa [List.append_nil] at hfound
  | block body =>
    rcases List.prefix_cons_iff.mp hpart with rfl | ⟨more, rfl, hmore⟩
    · exact nothingHidden_nil
    rcases List.prefix_cons_iff.mp hmore with rfl | ⟨front, rfl, hfront⟩
    · exact nothingHidden_of_unclosed (by decide)
    have hunclosed : ¬ ['*', '/'] <:+: front := by
      intro hclosed
      have hshort : front <+: body ++ ['*'] := by
        have hends : body ++ ['*', '/'] = (body ++ ['*']) ++ ['/'] := by simp
        rw [hends, List.prefix_concat_iff] at hfront
        refine hfront.resolve_left fun heq => hcut ?_
        rw [heq, Piece.text, hends]
      exact closing_not_infix_star hstands (hclosed.trans hshort.isInfix)
    have hopen : (Piece.char '/').StandsBefore ('*' :: front) := fun _ =>
      ⟨by simp, fun more hmore => (List.cons.inj hmore).2 ▸ hunclosed⟩
    have hstar : (Piece.char '*').StandsBefore front := fun hc => absurd hc (by decide)
    have hrest : NothingHidden ('*' :: front) :=
      (nothingHidden_append_iff hstar).mpr ⟨trivial, nothingHidden_of_unclosed hunclosed⟩
    exact (nothingHidden_append_iff hopen).mpr ⟨trivial, hrest⟩

private theorem nothingHidden_of_part {cs part : List Char} (h : NothingHidden cs)
    (hpart : part <+: cs) : NothingHidden part := by
  induction cs using piece_induction generalizing part with
  | nil =>
    obtain rfl := List.prefix_nil.mp hpart
    exact h
  | append piece rest hstands ih =>
    by_cases hwhole : piece.text <+: part
    · obtain ⟨more, rfl⟩ := hwhole
      have hmore : more <+: rest := (List.prefix_append_right_inj piece.text).mp hpart
      rw [nothingHidden_append_iff hstands] at h
      rw [nothingHidden_append_iff (hstands.of_part hmore)]
      exact ⟨h.1.of_part hmore, ih h.2 hmore⟩
    · have hshort : part <+: piece.text :=
        (List.prefix_or_prefix_of_prefix hpart (List.prefix_append _ rest)).resolve_right hwhole
      refine nothingHidden_of_cut hstands hshort ?_
      rintro rfl
      exact hwhole List.prefix_rfl

private theorem nothingHidden_of_no_slashes {cs : List Char} (h : ¬ ['/', '/'] <:+: cs) :
    NothingHidden cs := by
  induction cs using piece_induction with
  | nil => exact nothingHidden_nil
  | append piece rest hstands ih =>
    rw [nothingHidden_append_iff hstands]
    refine ⟨?_, ih fun hlater => h (hlater.trans (List.suffix_append _ _).isInfix)⟩
    cases piece with
    | char c => trivial
    | line body => trivial
    | block body =>
      constructor
      · rintro ⟨before, after, rfl, -⟩
        exact h ⟨'/' :: '*' :: before, after ++ '*' :: '/' :: rest, by simp [Piece.text]⟩
      · intro hhead
        obtain ⟨more, rfl⟩ := List.head?_eq_some_iff.mp hhead
        exact h ⟨'/' :: '*' :: (body ++ ['*']), more, by simp [Piece.text]⟩

/-- Removing comments is one scan of what is left when the line comments are gone. It is one scan of
the text itself, and of all its beginnings, exactly if no closing mark is hidden. -/
theorem stripComments_eq_scanned_iff (cs : List Char) :
    stripComments cs = scanned (dropLineComments false cs) ∧
      ((∀ part, part <+: cs → stripComments part = scanned part) ↔
        NothingHidden cs) := by
  refine ⟨?_, fun hagree => ?_, fun hexposed part hpart =>
    stripComments_eq_scanned (nothingHidden_of_part hexposed hpart)⟩
  · have hfree := slashes_not_infix_dropLineComments false cs
    have hself : stripComments (dropLineComments false cs) = stripComments cs := by
      rw [stripComments, dropLineComments_eq_self hfree, stripComments]
    rw [← hself]
    exact stripComments_eq_scanned (nothingHidden_of_no_slashes hfree)
  · induction cs using piece_induction with
    | nil => exact nothingHidden_nil
    | append piece rest hstands ih =>
      have hwhole : ∀ {part}, part <+: rest →
          stripComments (piece.text ++ part) = scanned (piece.text ++ part) := fun hpart =>
        hagree _ ((List.prefix_append_right_inj piece.text).mpr hpart)
      have hexposed : piece.Exposed rest := by
        by_contra hhidden
        obtain ⟨part, hpart, hne⟩ := exists_disagreement hstands hhidden
        exact hne (hwhole hpart)
      rw [nothingHidden_append_iff hstands]
      refine ⟨hexposed, ih fun part hpart => ?_⟩
      have hboth := hwhole hpart
      rw [stripComments_append (hstands.of_part hpart) (hexposed.of_part hpart),
        scanned_append (hstands.of_part hpart)] at hboth
      exact List.append_cancel_left hboth

example : stripComments "/* // */ keep".toList = "/* ".toList ∧
    scanned "/* // */ keep".toList = " keep".toList := by
  decide +kernel

end SuiteTidy.Text

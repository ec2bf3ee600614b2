import SuiteTidy.Proofs.Suite.RoundTrip
import SuiteTidy.Proofs.Suite.Constant

/-!
Mock data that is written to a source again. What was read as the content of a mock is the whole
declaration, and what is written is a declaration around the content. Main statement: a source that
is written from the mocks of a text has mocks of the same names in the same order, and each of them
declares the old declaration, so the contents are never the same.
-/

set_option autoImplicit false
set_option relaxedAutoImplicit false

namespace SuiteTidy.Suite

open SuiteTidy.Text

/-! The names of mocks. -/

structure MockName (name : String) : Prop where
  nonempty : name.toList ≠ []
  words : ∀ c ∈ name.toList, isWord c = true
  start : ∀ c ∈ name.toList.head?, isBlank c = false
  marked : isMockName name = true

def declaring (name : String) : String := "const " ++ name ++ " = "

private theorem mockName_of_mockName? {line name : String} (h : mockName? line = some name) :
    MockName name := by
  obtain ⟨⟨before, gap, after, rest, mark, -, -, -, -, hne, hwords, -⟩, hmarks⟩ :=
    mockName?_eq_some_iff.mp h
  refine ⟨hne, hwords, fun c hc => ?_, isMockName_iff.mpr hmarks⟩
  exact isBlank_eq_false_of_isWord (hwords c (List.mem_of_mem_head? hc))

private theorem mockName?_declaring {name : String} (h : MockName name) (rest : String) :
    mockName? (declaring name ++ rest) = some name := by
  refine mockName?_eq_some_iff.mpr ⟨?_, isMockName_iff.mp h.marked⟩
  have hblank : ∀ c ∈ [' '], isBlank c = true := by
    intro c hc
    rw [List.mem_singleton.mp hc]
    decide
  refine ⟨[], [' '], [' '], ' ' :: rest.toList, '=', ?_, by simp, by simp, hblank, h.nonempty,
    h.words, hblank, .inr rfl⟩
  simp [declaring]

/-! Where declarations end. -/

def brackets : List Char := ['\x7b', '\x7d', '(', ')', '[', ']']

private theorem Balance.add_congr (b : Balance) {line other : String}
    (h : ∀ c ∈ brackets, line.toList.count c = other.toList.count c) :
    b.add line = b.add other := by
  simp only [brackets, List.forall_mem_cons] at h
  obtain ⟨h₁, h₂, h₃, h₄, h₅, h₆, -⟩ := h
  simp only [Balance.add, h₁, h₂, h₃, h₄, h₅, h₆]

def endsWithLine (b : Balance) (line : String) : Bool :=
  (b.add line).isLevel && line.toList.contains ';'

/-- The lines of one declaration: it ends with none of them but perhaps the last. -/
def OneDeclaration : Balance → List String → Prop
  | _, [] => False
  | _, [_] => True
  | b, line :: rest => endsWithLine b line = false ∧ OneDeclaration (b.add line) rest

def isFinished : Balance → List String → Bool
  | _, [] => false
  | b, [line] => endsWithLine b line
  | b, line :: rest => isFinished (b.add line) rest

private theorem declarationSpanFrom_cons (b : Balance) (line next : String) (rest : List String) :
    declarationSpanFrom b (line :: next :: rest) =
      if endsWithLine b line then 0 else declarationSpanFrom (b.add line) (next :: rest) + 1 := rfl

theorem oneDeclaration_take (b : Balance) {lines : List String} (hne : lines ≠ []) :
    OneDeclaration b (lines.take (declarationSpanFrom b lines + 1)) ∧
      (lines.drop (declarationSpanFrom b lines + 1) ≠ [] →
        isFinished b (lines.take (declarationSpanFrom b lines + 1)) = true) := by
  fun_induction declarationSpanFrom b lines with
  | case1 b => exact absurd rfl hne
  | case2 b line => simp [OneDeclaration]
  | case3 b line rest hrest after hend => exact ⟨trivial, fun _ => hend⟩
  | case4 b line rest hrest after hend ih =>
    obtain ⟨hone, hfinished⟩ := ih hrest
    obtain ⟨next, more, rfl⟩ := List.exists_cons_of_ne_nil hrest
    simp only [List.take_succ_cons, List.drop_succ_cons] at hone hfinished ⊢
    exact ⟨⟨Bool.eq_false_iff.mpr hend, hone⟩, hfinished⟩

/-- Lines behind a declaration do not change where it ends. One that is not finished goes on in
them. -/
private theorem declarationSpanFrom_append {b : Balance} {block rest : List String}
    (hone : OneDeclaration b block) (hrest : rest ≠ []) :
    declarationSpanFrom b (block ++ rest) + 1 =
      if isFinished b block then block.length
      else block.length + (declarationSpanFrom (block.foldl Balance.add b) rest + 1) := by
  induction block generalizing b with
  | nil => exact hone.elim
  | cons line block ih =>
    cases block with
    | nil =>
      obtain ⟨next, more, rfl⟩ := List.exists_cons_of_ne_nil hrest
      rw [List.singleton_append, declarationSpanFrom_cons, isFinished]
      split_ifs
      · simp
      · simp only [List.length_singleton, List.foldl_cons, List.foldl_nil]
        omega
    | cons next block =>
      obtain ⟨hopen, hone⟩ := hone
      have hlast : isFinished b (line :: next :: block) = isFinished (b.add line) (next :: block) :=
        rfl
      rw [List.cons_append, List.cons_append, declarationSpanFrom_cons, hopen,
        if_neg Bool.false_ne_true, ← List.cons_append, ih hone, hlast]
      simp only [List.length_cons, List.foldl_cons]
      split_ifs <;> omega

theorem isFinished_iff {b : Balance} {block : List String} :
    isFinished b block = true ↔
      (block.foldl Balance.add b).isLevel = true ∧ ∃ last ∈ block.getLast?, ';' ∈ last.toList := by
  fun_induction isFinished b block with
  | case1 b => simp
  | case2 b line => simp [endsWithLine]
  | case3 b line rest hrest ih =>
    obtain ⟨next, more, rfl⟩ := List.exists_cons_of_ne_nil hrest
    rw [List.getLast?_cons_cons]
    exact ih

/-! Declarations around declarations. -/

def closed : List String → List String
  | [] => []
  | [line] => [line ++ ";"]
  | line :: rest => line :: closed rest

def redeclared (name : String) (block : List String) : List String :=
  closed (block.modifyHead (declaring name ++ ·))

private theorem unlines_cons (line next : String) (rest : List String) :
    unlines (line :: next :: rest) = line ++ "\n" ++ unlines (next :: rest) := by
  rw [unlines, unlines, String.intercalate_cons_cons]

private theorem unlines_singleton (line : String) : unlines [line] = line :=
  String.intercalate_singleton

private theorem closed_eq_cons (line : String) (rest : List String) :
    ∃ first others, closed (line :: rest) = first :: others := by
  cases rest <;> simp [closed]

private theorem unlines_concat {block : List String} (hne : block ≠ []) (line : String) :
    unlines (block ++ [line]) = unlines block ++ "\n" ++ line := by
  induction block with
  | nil => exact absurd rfl hne
  | cons first rest ih =>
    cases rest with
    | nil => rw [List.singleton_append, unlines_cons, unlines_singleton, unlines_singleton]
    | cons next rest =>
      rw [List.cons_append, List.cons_append, unlines_cons, ← List.cons_append, ih (by simp),
        unlines_cons]
      simp only [String.append_assoc]

private theorem add_unlines (b : Balance) {block : List String} (hne : block ≠ []) :
    b.add (unlines block) = block.foldl Balance.add b := by
  induction block generalizing b with
  | nil => exact absurd rfl hne
  | cons line rest ih =>
    cases rest with
    | nil => rw [unlines_singleton, List.foldl_cons, List.foldl_nil]
    | cons next rest =>
      rw [List.foldl_cons, ← ih _ (by simp), unlines_cons]
      simp only [Balance.add, String.toList_append, List.count_append, Int.natCast_add,
        Balance.mk.injEq]
      have hbreak : ∀ c ∈ brackets, "\n".toList.count c = 0 := by
        intro c hc
        simp only [brackets, List.mem_cons, List.not_mem_nil, or_false] at hc
        rcases hc with rfl | rfl | rfl | rfl | rfl | rfl <;> decide
      simp only [brackets, List.forall_mem_cons] at hbreak
      omega

private theorem unlines_closed {block : List String} (hne : block ≠ []) :
    unlines (closed block) = unlines block ++ ";" := by
  fun_induction closed block with
  | case1 => exact absurd rfl hne
  | case2 line => rw [unlines_singleton, unlines_singleton]
  | case3 line rest hrest ih =>
    obtain ⟨next, more, rfl⟩ := List.exists_cons_of_ne_nil hrest
    obtain ⟨last, others, hclosed⟩ := closed_eq_cons next more
    rw [hclosed] at ih ⊢
    rw [unlines_cons, ih (by simp), unlines_cons]
    simp only [String.append_assoc]

private theorem unlines_redeclared (name : String) {block : List String} (hne : block ≠ []) :
    unlines (redeclared name block) = MockDraft.line { name, content := unlines block } := by
  obtain ⟨line, rest, rfl⟩ := List.exists_cons_of_ne_nil hne
  rw [redeclared, unlines_closed (by simp), List.modifyHead_cons]
  cases rest with
  | nil => simp [unlines_singleton, MockDraft.line, declaring]
  | cons next rest => simp [unlines_cons, MockDraft.line, declaring, String.append_assoc]

private theorem add_declaring {name : String} (h : MockName name) (b : Balance) (line : String) :
    b.add (declaring name ++ line) = b.add line := by
  refine b.add_congr fun c hc => ?_
  have hplain : isWord c = false ∧ c ∉ "const ".toList ∧ c ∉ " = ".toList := by
    simp only [brackets, List.mem_cons, List.not_mem_nil, or_false] at hc
    rcases hc with rfl | rfl | rfl | rfl | rfl | rfl <;> decide
  have hname : c ∉ name.toList := fun hmem => by simp [h.words c hmem] at hplain
  simp only [declaring, String.toList_append, List.count_append,
    List.count_eq_zero_of_not_mem hname, List.count_eq_zero_of_not_mem hplain.2.1,
    List.count_eq_zero_of_not_mem hplain.2.2, Nat.zero_add]

private theorem add_semicolon (b : Balance) (line : String) : b.add (line ++ ";") = b.add line := by
  refine b.add_congr fun c hc => ?_
  have hplain : c ∉ ";".toList := by
    simp only [brackets, List.mem_cons, List.not_mem_nil, or_false] at hc
    rcases hc with rfl | rfl | rfl | rfl | rfl | rfl <;> decide
  rw [String.toList_append, List.count_append, List.count_eq_zero_of_not_mem hplain, Nat.add_zero]

private theorem endsWithLine_declaring {name : String} (h : MockName name) (b : Balance)
    (line : String) : endsWithLine b (declaring name ++ line) = endsWithLine b line := by
  have hplain : isWord ';' = false ∧ ';' ∉ "const ".toList ∧ ';' ∉ " = ".toList := by decide
  have hname : ';' ∉ name.toList := fun hmem => by simp [h.words _ hmem] at hplain
  rw [endsWithLine, endsWithLine, add_declaring h]
  congr 1
  rw [Bool.eq_iff_iff, List.contains_iff_mem, List.contains_iff_mem]
  simp only [declaring, String.toList_append, List.mem_append, hname, hplain.2.1, hplain.2.2,
    false_or]

private theorem oneDeclaration_closed {b : Balance} {block : List String}
    (h : OneDeclaration b block) :
    OneDeclaration b (closed block) ∧ (closed block).length = block.length ∧
      (closed block).foldl Balance.add b = block.foldl Balance.add b ∧
      isFinished b (closed block) = (block.foldl Balance.add b).isLevel := by
  induction block generalizing b with
  | nil => exact h.elim
  | cons line block ih =>
    cases block with
    | nil => simp [closed, OneDeclaration, isFinished, endsWithLine, add_semicolon]
    | cons next block =>
      obtain ⟨hone, hlength, hbalance, hfinished⟩ := ih h.2
      obtain ⟨last, others, hclosed⟩ := closed_eq_cons next block
      have hstep : closed (line :: next :: block) = line :: last :: others := by
        rw [← hclosed]
        rfl
      rw [hclosed] at hone hlength hbalance hfinished
      rw [hstep]
      exact ⟨⟨h.1, hone⟩, by simp [hlength], hbalance, hfinished⟩

private theorem oneDeclaration_redeclared {name : String} (hname : MockName name)
    {block : List String} (h : OneDeclaration {} block) :
    OneDeclaration {} (redeclared name block) ∧ (redeclared name block).length = block.length ∧
      isFinished {} (redeclared name block) = (block.foldl Balance.add {}).isLevel := by
  cases block with
  | nil => exact h.elim
  | cons line rest =>
    have hone : OneDeclaration {} ((declaring name ++ line) :: rest) := by
      cases rest with
      | nil => trivial
      | cons next rest =>
        refine ⟨?_, ?_⟩
        · rw [endsWithLine_declaring hname, h.1]
        · rw [add_declaring hname]
          exact h.2
    obtain ⟨hclosed, hlength, -, hfinished⟩ := oneDeclaration_closed hone
    rw [List.foldl_cons, add_declaring hname] at hfinished
    exact ⟨hclosed, hlength, hfinished⟩

private theorem redeclared_eq_cons {name : String} (hname : MockName name) {block : List String}
    (hne : block ≠ []) :
    ∃ first rest, redeclared name block = first :: rest ∧ mockName? first = some name := by
  obtain ⟨line, rest, rfl⟩ := List.exists_cons_of_ne_nil hne
  cases rest with
  | nil =>
    refine ⟨declaring name ++ line ++ ";", [], rfl, ?_⟩
    rw [String.append_assoc]
    exact mockName?_declaring hname _
  | cons next rest => exact ⟨_, _, rfl, mockName?_declaring hname line⟩

/-! Reading mocks and what is written for them. -/

private theorem mocksFrom_cons {line name : String} (hname : mockName? line = some name) (k : Nat)
    (rest : List String) :
    mocksFrom k (line :: rest) =
      { name, content := unlines ((line :: rest).take (declarationSpan (line :: rest) + 1)),
        start := k, stop := k + declarationSpan (line :: rest) } ::
        mocksFrom (k + declarationSpan (line :: rest) + 1)
          ((line :: rest).drop (declarationSpan (line :: rest) + 1)) := by
  rw [mocksFrom, hname, List.drop_succ_cons]

private theorem mocksFrom_empty (k : Nat) : mocksFrom k [""] = [] := by
  have hname : mockName? "" = none := by decide
  rw [mocksFrom, hname, mocksFrom]

section Declared

variable {name line : String} {block : List String} (hname : mockName? line = some name)
  (hone : OneDeclaration {} (line :: block))

include hname hone

private theorem mocksFrom_finished (hfinished : isFinished {} (line :: block) = true) (k : Nat)
    {rest : List String} (hrest : rest ≠ []) :
    ∃ stop k', mocksFrom k ((line :: block) ++ rest) =
      { name, content := unlines (line :: block), start := k, stop } :: mocksFrom k' rest := by
  have hspan := declarationSpanFrom_append hone hrest
  rw [if_pos hfinished] at hspan
  rw [List.cons_append, mocksFrom_cons hname, ← List.cons_append, declarationSpan, hspan,
    List.take_left, List.drop_left]
  exact ⟨_, _, rfl⟩

private theorem mocksFrom_unfinished (hopen : isFinished {} (line :: block) = false) (k : Nat)
    (next : String) :
    ∃ stop, mocksFrom k ((line :: block) ++ [next]) =
      [{ name, content := unlines ((line :: block) ++ [next]), start := k, stop }] := by
  have hspan := declarationSpanFrom_append hone (List.cons_ne_nil next [])
  have hall : ((line :: block) ++ [next]).length = (line :: block).length + (0 + 1) := by simp
  rw [hopen, if_neg Bool.false_ne_true, declarationSpanFrom, ← hall] at hspan
  rw [List.cons_append, mocksFrom_cons hname, ← List.cons_append, declarationSpan, hspan,
    List.take_length, List.drop_length, mocksFrom]
  exact ⟨_, rfl⟩

end Declared

def Mock.entry (m : Mock) : String × String := (m.name, m.content)

/-- The entry of a mock after it was written and read again. If the brackets in its content are not
level, the end of the last line belongs to it too. -/
def Mock.rewritten (m : Mock) : String × String :=
  (m.name, MockDraft.line { name := m.name, content := m.content } ++
    if (Balance.add {} m.content).isLevel then "" else "\n")

/-- A mock that was written in front of other lines is read again, and behind it those lines. Only
the last mock can have brackets that are not level. -/
private theorem map_entry_redeclared (m : Mock) (hname : MockName m.name) {block : List String}
    (hcontent : m.content = unlines block) (hone : OneDeclaration {} block) (rest : List String)
    (hrest : rest ≠ []) (hopen : (Balance.add {} m.content).isLevel = false → rest = [""])
    (k : Nat) :
    ∃ k', (mocksFrom k (redeclared m.name block ++ rest)).map Mock.entry =
      m.rewritten :: (mocksFrom k' rest).map Mock.entry := by
  have hne : block ≠ [] := by
    rintro rfl
    exact hone
  obtain ⟨honce, -, hlevel⟩ := oneDeclaration_redeclared hname hone
  obtain ⟨first, more, hcons, hfirst⟩ := redeclared_eq_cons hname hne
  have hline : unlines (redeclared m.name block) = MockDraft.line ⟨m.name, m.content⟩ := by
    rw [unlines_redeclared m.name hne, hcontent]
  rw [hcontent, add_unlines {} hne, ← hlevel] at hopen
  rw [Mock.rewritten, hcontent, add_unlines {} hne, ← hlevel, ← hcontent, ← hline]
  rw [hcons] at honce hopen ⊢
  cases hfinished : isFinished {} (first :: more) with
  | true =>
    obtain ⟨stop, k', hread⟩ := mocksFrom_finished hfirst honce hfinished k hrest
    exact ⟨k', by rw [hread]; simp [Mock.entry]⟩
  | false =>
    obtain rfl := hopen hfinished
    obtain ⟨stop, hread⟩ := mocksFrom_unfinished hfirst honce hfinished k ""
    refine ⟨0, ?_⟩
    rw [hread, mocksFrom_empty, unlines_concat (by simp)]
    simp [Mock.entry]

def Mock.lines (m : Mock) : List String := redeclared m.name (linesOf m.content)

private theorem mocksFrom_lines (at_ k : Nat) {lines : List String}
    (h : ∀ l ∈ lines, '\n' ∉ l.toList) :
    (mocksFrom k ((mocksFrom at_ lines).flatMap Mock.lines ++ [""])).map Mock.entry =
      (mocksFrom at_ lines).map Mock.rewritten := by
  fun_induction mocksFrom at_ lines generalizing k with
  | case1 at_ =>
    simp [mocksFrom_empty]
  | case2 at_ line rest hname ih => exact ih k fun l hl => h l (List.mem_cons_of_mem _ hl)
  | case3 at_ line rest name hname length ih =>
    obtain ⟨hone, hfinished⟩ : OneDeclaration {} ((line :: rest).take (length + 1)) ∧
        (rest.drop length ≠ [] → isFinished {} ((line :: rest).take (length + 1)) = true) :=
      oneDeclaration_take {} (List.cons_ne_nil line rest)
    have hlines : linesOf (unlines ((line :: rest).take (length + 1))) =
        (line :: rest).take (length + 1) :=
      linesOf_unlines (by simp) fun l hl => h l (List.mem_of_mem_take hl)
    -- A declaration with open brackets took all the lines that were left.
    have hlast : (Balance.add {} (unlines ((line :: rest).take (length + 1)))).isLevel = false →
        rest.drop length = [] := by
      intro hopen
      rw [add_unlines {} (by simp)] at hopen
      by_contra hmore
      have hlevel := (isFinished_iff.mp (hfinished hmore)).1
      rw [hopen] at hlevel
      cases hlevel
    rw [List.flatMap_cons, List.map_cons, Mock.lines, hlines, List.append_assoc]
    obtain ⟨k', hread⟩ := map_entry_redeclared
      ⟨name, unlines ((line :: rest).take (length + 1)), at_, at_ + length⟩
      (mockName_of_mockName? hname) rfl hone
      ((mocksFrom (at_ + length + 1) (rest.drop length)).flatMap Mock.lines ++ [""]) (by simp)
      (fun hopen => by simp [hlast hopen, mocksFrom]) k
    rw [hread, ih k' fun l hl => h l (List.mem_cons_of_mem _ (List.mem_of_mem_drop hl))]

private theorem newline_not_mem_of_mem_linesOf (text : String) :
    ∀ l ∈ linesOf text, '\n' ∉ l.toList := by
  have hpieces : ∀ cs : List Char, ∀ piece ∈ cs.splitOn '\n', '\n' ∉ piece := by
    intro cs
    induction cs with
    | nil => simp
    | cons c cs ih =>
      obtain ⟨piece, pieces, hsplit⟩ := List.exists_cons_of_ne_nil (List.splitOn_ne_nil '\n' cs)
      rw [hsplit] at ih
      rw [List.splitOn_cons_eq_if_modifyHead, hsplit]
      by_cases hc : c = '\n'
      · simpa [hc] using ih
      · simpa [hc, Ne.symm hc] using ih
  intro l hl
  obtain ⟨piece, hpiece, rfl⟩ := List.mem_map.mp hl
  simpa using hpieces text.toList piece hpiece

private theorem linesOf_ne_nil (text : String) : linesOf text ≠ [] := by
  simp [linesOf, splitLines, List.splitOn_ne_nil]

private theorem unlines_linesOf (text : String) : unlines (linesOf text) = text := by
  apply String.toList_inj.mp
  simp [unlines, linesOf, splitLines, Function.comp_def, List.intercalate_splitOn]

/-! A source that is written for mocks alone. -/

def Mock.draft (m : Mock) : MockDraft := { name := m.name, content := m.content }

private theorem Mock.draft_toldBy (m : Mock) : m.draft.ToldBy m.toDatum := ⟨rfl, rfl⟩

private theorem newline_not_mem_closed {block : List String} (h : ∀ l ∈ block, '\n' ∉ l.toList) :
    ∀ l ∈ closed block, '\n' ∉ l.toList := by
  fun_induction closed block with
  | case1 => exact h
  | case2 line => simpa using h
  | case3 line rest hrest ih =>
    rw [List.forall_mem_cons] at h ⊢
    exact ⟨h.1, ih h.2⟩

private theorem Mock.linesOf_draft_line {m : Mock} (hname : MockName m.name) :
    linesOf m.draft.line = m.lines := by
  obtain ⟨line, rest, hlines⟩ := List.exists_cons_of_ne_nil (linesOf_ne_nil m.content)
  have hbreaks := newline_not_mem_of_mem_linesOf m.content
  have hword : '\n' ∉ m.name.toList := fun hmem => by
    have hblank : isWord '\n' = false := by decide
    simp [hname.words _ hmem] at hblank
  have hplain : ∀ l ∈ m.lines, '\n' ∉ l.toList := by
    rw [hlines, List.forall_mem_cons] at hbreaks
    rw [Mock.lines, redeclared, hlines, List.modifyHead_cons]
    refine newline_not_mem_closed (List.forall_mem_cons.mpr ⟨?_, hbreaks.2⟩)
    simp [declaring, hword, hbreaks.1]
  have hne : m.lines ≠ [] := by
    obtain ⟨first, others, hclosed⟩ := closed_eq_cons (declaring m.name ++ line) rest
    rw [Mock.lines, redeclared, hlines, List.modifyHead_cons, hclosed]
    exact List.cons_ne_nil first others
  rw [← linesOf_unlines hne hplain, Mock.lines,
    unlines_redeclared m.name (linesOf_ne_nil m.content), unlines_linesOf]
  rfl

private theorem mockName_of_mem_mocksFrom {at_ : Nat} {lines : List String} :
    ∀ m ∈ mocksFrom at_ lines, MockName m.name := by
  fun_induction mocksFrom at_ lines with
  | case1 => simp
  | case2 at_ line rest hname ih => exact ih
  | case3 at_ line rest name hname length ih =>
    exact List.forall_mem_cons.mpr ⟨mockName_of_mockName? hname, ih⟩

private theorem linesOf_sourceText_mocks {ms : List Mock} (hne : ms ≠ [])
    (h : ∀ m ∈ ms, MockName m.name) :
    linesOf (sourceText [] (ms.map Mock.draft) []) = ms.flatMap Mock.lines ++ [""] := by
  have hlines : linesOf (unlines ((ms.map Mock.draft).map MockDraft.line)) =
      ms.flatMap Mock.lines := by
    induction ms with
    | nil => exact absurd rfl hne
    | cons m ms ih =>
      rw [List.forall_mem_cons] at h
      cases ms with
      | nil => simp [unlines_singleton, Mock.linesOf_draft_line h.1]
      | cons next ms =>
        rw [List.map_cons, List.map_cons, List.map_cons, List.map_cons, unlines_cons,
          linesOf_append_newline, Mock.linesOf_draft_line h.1, ← List.map_cons, ← List.map_cons,
          ih (List.cons_ne_nil next ms) h.2, ← List.flatMap_cons]
  have hsections := linesOf_sections
    (List.cons_ne_nil (unlines ((ms.map Mock.draft).map MockDraft.line)) [])
  rw [List.flatMap_singleton, hlines] at hsections
  simpa [sourceText, hne] using hsections

private theorem Mock.rewritten_content_ne (m : Mock) : m.rewritten.2 ≠ m.content := by
  intro h
  have hlength := congrArg (·.toList.length) h
  simp [Mock.rewritten, MockDraft.line] at hlength
  omega

private theorem map_entry_mocks_sourceText (text : String) :
    (outline (sourceText [] ((outline text).mocks.map Mock.draft) [])).mocks.map Mock.entry =
      (outline text).mocks.map Mock.rewritten := by
  by_cases hnone : (outline text).mocks = []
  · have hlines : linesOf (sourceText [] [] []) = ["", ""] := by decide
    have hread : (outline (sourceText [] [] [])).mocks = [] := by
      simp [outline, hlines, mocks, mocksFrom, show mockName? "" = none by decide]
    rw [hnone, List.map_nil, List.map_nil, hread, List.map_nil]
  · have hnames : ∀ m ∈ (outline text).mocks, MockName m.name := mockName_of_mem_mocksFrom
    have hlines := linesOf_sourceText_mocks hnone hnames
    have hread := mocksFrom_lines 0 0 (newline_not_mem_of_mem_linesOf text)
    simp only [outline, mocks] at hlines hread ⊢
    rw [hlines, hread]

/-- The mocks of a text, written to a source of their own and read again, have the same names in the
same order, but every one of them then declares its old declaration. So no mock has its content
again. -/
theorem mocks_outline_sourceOf (text : String) :
    ∃ source, sourceOf (.list []) (.list ((outline text).mocks.map Mock.toDatum)) (.list []) =
        .ok source ∧
      (outline source).mocks.map Mock.name = (outline text).mocks.map Mock.name ∧
      (outline source).mocks.map Mock.entry = (outline text).mocks.map Mock.rewritten ∧
      ((outline source).mocks.map Mock.content = (outline text).mocks.map Mock.content ↔
        (outline text).mocks = []) := by
  have htold : List.Forall₂ MockDraft.ToldBy ((outline text).mocks.map Mock.draft)
      ((outline text).mocks.map Mock.toDatum) := by
    simp [List.forall₂_map_left_iff, List.forall₂_map_right_iff, List.forall₂_same,
      Mock.draft_toldBy]
  have hsource : sourceOf (.list []) (.list ((outline text).mocks.map Mock.toDatum)) (.list []) =
      .ok (sourceText [] ((outline text).mocks.map Mock.draft) []) := by
    have himports : linesIn (.list []) = .ok [] := linesIn_texts []
    simp only [sourceOf, himports, drafts_mocks htold, Datum.members, List.mapM_nil, bind,
      Except.bind, pure, Except.pure]
  have hentries := map_entry_mocks_sourceText text
  refine ⟨_, hsource, ?_, hentries, ?_⟩
  · have hnames := congrArg (List.map Prod.fst) hentries
    simpa [Function.comp_def, Mock.entry, Mock.rewritten] using hnames
  · have hcontents := congrArg (List.map Prod.snd) hentries
    rw [List.map_map, List.map_map] at hcontents
    change List.map Mock.content _ = _ at hcontents
    rw [hcontents]
    cases (outline text).mocks with
    | nil => simp
    | cons m ms => simp [Mock.rewritten_content_ne]

end SuiteTidy.Suite

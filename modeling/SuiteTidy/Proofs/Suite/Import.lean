import SuiteTidy.Suite.Import
import SuiteTidy.Proofs.Suite.Constant

/-!
Import statements among the lines of a text. The reader goes back over the blanks behind `import`
and over the end of the clause until a source follows. Main statement: it reads one statement for
each line that can be taken apart in this way, and takes it apart so; no such line is missed,
wherever the clause or the source themselves hold blanks, quotes or `from`.
-/

set_option autoImplicit false
set_option relaxedAutoImplicit false

namespace SuiteTidy.Suite

open SuiteTidy.Text

def IsGap (gap : List Char) : Prop := gap ≠ [] ∧ ∀ c ∈ gap, isBlank c = true

/-- A text that goes on with a source: `from` between gaps, and the source between two quotes, which
need not be the same. Anything may follow. -/
def NamesSource (cs source : List Char) : Prop :=
  ∃ (gap gap' rest : List Char) (q q' : Char),
    cs = gap ++ ("from".toList ++ (gap' ++ q :: (source ++ q' :: rest))) ∧
    IsGap gap ∧ IsGap gap' ∧ isQuote q = true ∧ source ≠ [] ∧ isQuote q' = true

/-- A line that imports what a clause says from a source: `import`, a gap, the clause and the
source. -/
def ImportsFrom (line clause source : String) : Prop :=
  ∃ gap tail : List Char,
    line.toList = "import".toList ++ (gap ++ (clause.toList ++ tail)) ∧
    IsGap gap ∧ clause.toList ≠ [] ∧ NamesSource tail source.toList

variable {cs acc found : List Char}

/-! The source. -/

theorem afterBlanks?_eq_some_iff {rest : List Char} :
    afterBlanks? cs = some rest ↔
      ∃ gap, IsGap gap ∧ cs = gap ++ rest ∧ ∀ c ∈ rest.head?, isBlank c = false := by
  constructor
  · intro h
    cases cs with
    | nil => cases h
    | cons c cs =>
      rw [afterBlanks?] at h
      split_ifs at h with hc
      obtain rfl := Option.some.inj h
      refine ⟨c :: cs.takeWhile isBlank, ⟨List.cons_ne_nil _ _, ?_⟩, ?_, ?_⟩
      · rw [List.forall_mem_cons]
        exact ⟨hc, fun x hx => List.mem_takeWhile_imp hx⟩
      · rw [List.cons_append, trimLeft, List.takeWhile_append_dropWhile]
      · intro x hx
        have hhead := List.head?_dropWhile_not isBlank cs
        rwa [show (cs.dropWhile isBlank).head? = some x from hx] at hhead
  · rintro ⟨gap, ⟨hne, hgap⟩, rfl, hrest⟩
    obtain ⟨c, gap, rfl⟩ := List.exists_cons_of_ne_nil hne
    rw [List.forall_mem_cons] at hgap
    rw [List.cons_append, afterBlanks?, if_pos hgap.1, trimLeft_append hgap.2 hrest]

private theorem quotedTail_eq (hacc : acc ≠ []) :
    quotedTail acc cs =
      if cs.any isQuote then some (acc.reverse ++ cs.takeWhile fun c => !isQuote c) else none := by
  induction cs generalizing acc with
  | nil => simp [quotedTail]
  | cons c cs ih =>
    have hstep : quotedTail acc (c :: cs) =
        if isQuote c then some acc.reverse else quotedTail (c :: acc) cs := by
      obtain ⟨a, acc, rfl⟩ := List.exists_cons_of_ne_nil hacc
      rfl
    rw [hstep, ih (List.cons_ne_nil c acc), List.any_cons]
    by_cases hc : isQuote c = true
    · simp [hc]
    · simp [hc]

private theorem exists_quote_of_quotedTail (h : quotedTail [] cs = some found) :
    ∃ q rest, cs = found ++ q :: rest ∧ found ≠ [] ∧ isQuote q = true := by
  cases cs with
  | nil => cases h
  | cons c cs =>
    rw [quotedTail, quotedTail_eq (List.cons_ne_nil c [])] at h
    split_ifs at h with hany
    obtain rfl := Option.some.inj h
    obtain ⟨x, hx, hquote⟩ := List.any_eq_true.mp hany
    cases hrest : cs.dropWhile fun c => !isQuote c with
    | nil =>
      have hnone := List.dropWhile_eq_nil_iff.mp hrest x hx
      simp [hquote] at hnone
    | cons q rest =>
      have hq := List.head?_dropWhile_not (fun c => !isQuote c) cs
      refine ⟨q, rest, ?_, List.cons_ne_nil _ _, by simpa [hrest] using hq⟩
      rw [← hrest, List.reverse_singleton, List.append_assoc, List.takeWhile_append_dropWhile]
      rfl

/-- A source that holds quotes itself still gives one to read. -/
private theorem exists_quotedTail {source rest : List Char} {q : Char} (hne : source ≠ [])
    (hq : isQuote q = true) : ∃ found, quotedTail [] (source ++ q :: rest) = some found := by
  obtain ⟨c, source, rfl⟩ := List.exists_cons_of_ne_nil hne
  rw [List.cons_append, quotedTail, quotedTail_eq (List.cons_ne_nil c []), if_pos (by simp [hq])]
  exact ⟨_, rfl⟩

private theorem namesSource_of_fromSource? (h : fromSource? cs = some found) :
    NamesSource cs found := by
  unfold fromSource? at h
  obtain ⟨tail, hgap, htail⟩ := Option.bind_eq_some_iff.mp h
  obtain ⟨behind, hfrom, hbehind⟩ := Option.bind_eq_some_iff.mp htail
  obtain ⟨quoted, hgap', hquoted⟩ := Option.bind_eq_some_iff.mp hbehind
  obtain ⟨gap, hisGap, rfl, -⟩ := afterBlanks?_eq_some_iff.mp hgap
  obtain ⟨gap', hisGap', rfl, -⟩ := afterBlanks?_eq_some_iff.mp hgap'
  rw [afterStart?_eq_some_iff] at hfrom
  cases quoted with
  | nil => cases hquoted
  | cons q body =>
    simp only at hquoted
    split_ifs at hquoted with hq
    obtain ⟨q', rest, rfl, hne, hq'⟩ := exists_quote_of_quotedTail hquoted
    exact ⟨gap, gap', rest, q, q', by rw [hfrom], hisGap, hisGap', hq, hne, hq'⟩

private theorem exists_fromSource? {source : List Char} (h : NamesSource cs source) :
    ∃ found, fromSource? cs = some found := by
  obtain ⟨gap, gap', rest, q, q', rfl, hgap, hgap', hq, hne, hq'⟩ := h
  have hfirst : afterBlanks? (gap ++ ("from".toList ++ (gap' ++ q :: (source ++ q' :: rest)))) =
      some ("from".toList ++ (gap' ++ q :: (source ++ q' :: rest))) :=
    afterBlanks?_eq_some_iff.mpr ⟨gap, hgap, rfl, by simp; decide⟩
  have hplain : isBlank q = false := by
    rcases Bool.or_eq_true_iff.mp hq with hq | hq <;> rw [beq_iff_eq.mp hq] <;> decide
  have hsecond : afterBlanks? (gap' ++ q :: (source ++ q' :: rest)) =
      some (q :: (source ++ q' :: rest)) :=
    afterBlanks?_eq_some_iff.mpr ⟨gap', hgap', rfl, by simp [hplain]⟩
  unfold fromSource?
  simp only [hfirst, Option.bind_eq_bind, Option.bind_some, afterStart?_eq_some_iff.mpr rfl,
    hsecond, if_pos hq]
  exact exists_quotedTail hne hq'

/-! The clause. -/

private theorem clauseFrom_step {c : Char} (hacc : acc ≠ []) :
    clauseFrom acc (c :: cs) =
      match fromSource? (c :: cs) with
      | some source => some (acc.reverse, source)
      | none => clauseFrom (c :: acc) cs := by
  obtain ⟨a, acc, rfl⟩ := List.exists_cons_of_ne_nil hacc
  rfl

private theorem namesSource_of_clauseFrom {parts : List Char × List Char} (hacc : acc ≠ [])
    (h : clauseFrom acc cs = some parts) :
    ∃ more tail, cs = more ++ tail ∧ parts.1 = acc.reverse ++ more ∧ NamesSource tail parts.2 := by
  induction cs generalizing acc with
  | nil =>
    obtain ⟨a, acc, rfl⟩ := List.exists_cons_of_ne_nil hacc
    cases h
  | cons c cs ih =>
    rw [clauseFrom_step hacc] at h
    cases hsource : fromSource? (c :: cs) with
    | some source =>
      rw [hsource] at h
      obtain rfl := Option.some.inj h
      exact ⟨[], c :: cs, rfl, (List.append_nil _).symm, namesSource_of_fromSource? hsource⟩
    | none =>
      rw [hsource] at h
      obtain ⟨more, tail, rfl, hclause, htail⟩ := ih (List.cons_ne_nil c acc) h
      exact ⟨c :: more, tail, rfl, by simp [hclause], htail⟩

private theorem exists_clauseFrom {tail source : List Char} (hacc : acc ≠ [])
    (h : NamesSource tail source) (more : List Char) :
    ∃ parts, clauseFrom acc (more ++ tail) = some parts := by
  induction more generalizing acc with
  | nil =>
    obtain ⟨found, hfound⟩ := exists_fromSource? h
    cases tail with
    | nil => cases hfound
    | cons c tail =>
      rw [List.nil_append, clauseFrom_step hacc, hfound]
      exact ⟨_, rfl⟩
  | cons c more ih =>
    rw [List.cons_append, clauseFrom_step hacc]
    cases fromSource? (c :: (more ++ tail)) with
    | some found => exact ⟨_, rfl⟩
    | none => exact ih (List.cons_ne_nil c acc)

/-! The blanks in front of the clause, some of which the clause may take. -/

private theorem namesSource_of_clauseAfter {passed : List Char} {parts : List Char × List Char}
    (hpassed : ∀ c ∈ passed, isBlank c = true) (h : clauseAfter passed cs = some parts) :
    ∃ gap tail, passed.reverse ++ cs = gap ++ (parts.1 ++ tail) ∧ IsGap gap ∧ parts.1 ≠ [] ∧
      NamesSource tail parts.2 := by
  induction passed generalizing cs with
  | nil => cases h
  | cons b passed ih =>
    rw [clauseAfter] at h
    cases hclause : clauseFrom [] cs with
    | none =>
      rw [hclause] at h
      obtain ⟨gap, tail, heq, hrest⟩ := ih (List.forall_mem_cons.mp hpassed).2 h
      exact ⟨gap, tail, by rw [← heq]; simp, hrest⟩
    | some found =>
      rw [hclause] at h
      obtain rfl := Option.some.inj h
      cases cs with
      | nil => cases hclause
      | cons c cs =>
        obtain ⟨more, tail, rfl, hfirst, htail⟩ :=
          namesSource_of_clauseFrom (List.cons_ne_nil c []) hclause
        refine ⟨(b :: passed).reverse, tail, by simp [hfirst], ⟨by simp, ?_⟩, by simp [hfirst],
          htail⟩
        exact fun x hx => hpassed x (List.mem_reverse.mp hx)

private theorem exists_clauseAfter {passed gap clause tail source : List Char} (hgap : gap ≠ [])
    (hfront : gap <+: passed.reverse) (hne : clause ≠ []) (htail : NamesSource tail source)
    (heq : passed.reverse ++ cs = gap ++ (clause ++ tail)) :
    ∃ parts, clauseAfter passed cs = some parts := by
  induction passed generalizing cs with
  | nil => exact absurd (List.prefix_nil.mp hfront) hgap
  | cons b passed ih =>
    rw [clauseAfter]
    cases hclause : clauseFrom [] cs with
    | some parts => exact ⟨parts, rfl⟩
    | none =>
      rw [List.reverse_cons] at hfront heq
      rcases List.prefix_concat_iff.mp hfront with hall | hshort
      · -- All blanks are passed over, and the clause starts here.
        have hcs : cs = clause ++ tail := by
          rw [hall] at heq
          exact List.append_cancel_left heq
        obtain ⟨c, clause, rfl⟩ := List.exists_cons_of_ne_nil hne
        obtain ⟨parts, hparts⟩ := exists_clauseFrom (List.cons_ne_nil c []) htail clause
        rw [hcs, List.cons_append, clauseFrom, hparts] at hclause
        cases hclause
      · exact ih hshort (by simpa using heq)

/-! Lines. -/

private theorem importsFrom_of_importParts? {line : String} {parts : List Char × List Char}
    (h : importParts? line.toList = some parts) :
    ImportsFrom line (String.ofList parts.1) (String.ofList parts.2) := by
  unfold importParts? at h
  obtain ⟨rest, hrest, hafter⟩ := Option.bind_eq_some_iff.mp h
  have hblank : ∀ c ∈ (rest.takeWhile isBlank).reverse, isBlank c = true := fun c hc =>
    List.mem_takeWhile_imp (List.mem_reverse.mp hc)
  obtain ⟨gap, tail, heq, hgap, hne, htail⟩ := namesSource_of_clauseAfter hblank hafter
  rw [List.reverse_reverse, trimLeft, List.takeWhile_append_dropWhile] at heq
  refine ⟨gap, tail, ?_, hgap, ?_, ?_⟩
  · rw [afterStart?_eq_some_iff.mp hrest, heq, String.toList_ofList (l := parts.1)]
  · rwa [String.toList_ofList]
  · rwa [String.toList_ofList]

private theorem exists_importParts? {line clause source : String}
    (h : ImportsFrom line clause source) : ∃ parts, importParts? line.toList = some parts := by
  obtain ⟨gap, tail, hline, hgap, hne, htail⟩ := h
  unfold importParts?
  rw [afterStart?_eq_some_iff.mpr hline]
  refine exists_clauseAfter hgap.1 ?_ hne htail ?_
  · rw [List.reverse_reverse, List.takeWhile_append_of_pos hgap.2]
    exact List.prefix_append _ _
  · rw [List.reverse_reverse, trimLeft, List.takeWhile_append_dropWhile]

private theorem importOn?_eq_some {number : Nat} {line : String} {i : Import}
    (h : importOn? number line = some i) :
    i.line = number ∧ i.raw = trimmed line ∧ ImportsFrom i.raw i.clause i.source := by
  obtain ⟨parts, hparts, rfl⟩ := Option.map_eq_some_iff.mp h
  refine ⟨rfl, rfl, importsFrom_of_importParts? ?_⟩
  rwa [String.toList_ofList]

private theorem exists_importOn? {line clause source : String}
    (h : ImportsFrom (trimmed line) clause source) (number : Nat) :
    ∃ i, importOn? number line = some i := by
  obtain ⟨parts, hparts⟩ := exists_importParts? h
  rw [trimmed, String.toList_ofList] at hparts
  exact ⟨_, Option.map_eq_some_iff.mpr ⟨parts, hparts, rfl⟩⟩

private theorem mem_imports_iff {content : String} {i : Import} :
    i ∈ imports content ↔
      ∃ line, (linesOf content)[i.line]? = some line ∧ importOn? i.line line = some i := by
  rw [imports, List.mem_filterMap]
  constructor
  · rintro ⟨⟨line, number⟩, hline, hread⟩
    obtain ⟨rfl, -⟩ := importOn?_eq_some hread
    exact ⟨line, List.mem_zipIdx_iff_getElem?.mp hline, hread⟩
  · rintro ⟨line, hline, hread⟩
    exact ⟨(line, i.line), List.mem_zipIdx_iff_getElem?.mpr hline, hread⟩

private theorem pairwise_line_imports (content : String) :
    ((imports content).map (·.line)).Pairwise (· < ·) := by
  have hnumbers : (linesOf content).zipIdx.Pairwise fun a b => a.2 < b.2 := by
    rw [← List.pairwise_map, List.zipIdx_map_snd]
    exact List.pairwise_lt_range'
  rw [imports, List.pairwise_map, List.pairwise_filterMap]
  refine hnumbers.imp fun {a b} hlt i hi j hj => ?_
  rw [(importOn?_eq_some hi).1, (importOn?_eq_some hj).1]
  exact hlt

/-- The imports of a text stand on increasing lines, on just those that can be taken apart, and each
has the parts of its line. -/
theorem imports_recognized (content : String) :
    ((imports content).map (·.line)).Pairwise (· < ·) ∧
      (∀ number, number ∈ (imports content).map (·.line) ↔
        ∃ line clause source, (linesOf content)[number]? = some line ∧
          ImportsFrom (trimmed line) clause source) ∧
      ∀ i ∈ imports content,
        (linesOf content)[i.line]?.map trimmed = some i.raw ∧ ImportsFrom i.raw i.clause i.source ∧
          (i.isTypeOnly = true ↔ "type".toList <:+: i.clause.toList) := by
  refine ⟨pairwise_line_imports content, fun number => ?_, fun i hi => ?_⟩
  · rw [List.mem_map]
    constructor
    · rintro ⟨i, hi, rfl⟩
      obtain ⟨line, hline, hread⟩ := mem_imports_iff.mp hi
      obtain ⟨-, hraw, hparts⟩ := importOn?_eq_some hread
      exact ⟨line, i.clause, i.source, hline, hraw ▸ hparts⟩
    · rintro ⟨line, clause, source, hline, hparts⟩
      obtain ⟨i, hread⟩ := exists_importOn? hparts number
      obtain ⟨rfl, -⟩ := importOn?_eq_some hread
      exact ⟨i, mem_imports_iff.mpr ⟨line, hline, hread⟩, rfl⟩
  · obtain ⟨line, hline, hread⟩ := mem_imports_iff.mp hi
    obtain ⟨-, hraw, hparts⟩ := importOn?_eq_some hread
    refine ⟨?_, hparts, hasText_iff⟩
    rw [hline, hraw, Option.map_some]

end SuiteTidy.Suite

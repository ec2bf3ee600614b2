import SuiteTidy.Proofs.Imports.Merged

/-!
What merged import statements bind. A text is a statement in one way at most, up to its layout, so
the names that it binds are its own. Main statement: merging keeps what is bound from a source just
where all its statements have one and the same name by itself, or where all of them have names in
braces that keep their own names, and at least two of them.
-/

set_option autoImplicit false
set_option relaxedAutoImplicit false

namespace SuiteTidy.ImportList

open SuiteTidy.Text
open SuiteTidy.Suite (IsGap)

/-- A text introduces the bindings of the statement that it is. -/
def Introduces (text : String) (b : Binding) : Prop :=
  ∃ s : ImportStatement, s.text = text ∧ b ∈ s.bindings

/-! A statement is found in its text. -/

private theorem Tight.mark {c : Char} (h : isBlank c = false) : Tight [c] :=
  .of_unblank (List.cons_ne_nil _ _) (by simpa using h)

private theorem Tight.braced (inside : List Char) : Tight ('\x7b' :: (inside ++ ['\x7d'])) :=
  (Tight.mark (by decide)).append (Tight.mark (by decide)) inside

private theorem Tight.trim_eq {cs : List Char} (h : Tight cs) : trim cs = cs := by
  have hpadded := trim_padded (List.forall_mem_nil _) h (List.forall_mem_nil _)
  rwa [List.nil_append, List.append_nil] at hpadded

private theorem ImportClause.tight_text (clause : ImportClause) : Tight clause.text := by
  cases clause with
  | single name => exact Tight.name name
  | listed first others => exact Tight.braced _
  | both name before after first others =>
    have hboth := (Tight.name name).append (Tight.braced (inside (first :: others)))
      (before ++ ',' :: after)
    rwa [List.append_assoc] at hboth
  | whole name => exact (Tight.mark (by decide)).append (Tight.name name) asWord

private theorem clause_text_eq {s : ImportStatement} {middle after rest : List Char} {q : Char}
    (hmiddle : ∀ c ∈ middle, isQuote c = false) (hafter : ∀ c ∈ after, isBlank c = true)
    (hq : isQuote q = true)
    (h : s.text.toList = "import".toList ++ (middle ++ ("from".toList ++ (after ++ q :: rest)))) :
    s.clause.text = trim middle := by
  obtain ⟨front, hfront, htext, hunquoted⟩ := s.exists_front
  have hword : ∀ word ∈ ["import".toList, "from".toList], ∀ c ∈ word, isQuote c = false := by
    have hall : (["import".toList, "from".toList].all fun word =>
        word.all fun c => !isQuote c) = true := by
      decide
    simpa using hall
  have hblanks : ∀ {blanks : List Char}, (∀ c ∈ blanks, isBlank c = true) →
      ∀ c ∈ blanks, isQuote c = false := fun hall c hc =>
    isQuote_eq_false (by decide) (by decide) (hall c hc)
  -- What stands in front of the first quote, from both sides.
  have hbefore : (front ++ "from".toList) ++ s.afterFrom.val =
      (("import".toList ++ middle) ++ "from".toList) ++ after := by
    have hleft : ∀ c ∈ (front ++ "from".toList) ++ s.afterFrom.val, isQuote c = false := by
      simp only [List.forall_mem_append]
      exact ⟨⟨hunquoted, hword _ (by simp)⟩, hblanks s.afterFrom.property.2⟩
    have hright : ∀ c ∈ (("import".toList ++ middle) ++ "from".toList) ++ after,
        isQuote c = false := by
      simp only [List.forall_mem_append]
      exact ⟨⟨⟨hword _ (by simp), hmiddle⟩, hword _ (by simp)⟩, hblanks hafter⟩
    have hsame : ((front ++ "from".toList) ++ s.afterFrom.val) ++
        s.quote.val :: (s.source.val ++ s.quote.val :: s.ending) =
        ((("import".toList ++ middle) ++ "from".toList) ++ after) ++ q :: rest := by
      rw [htext] at h
      simpa only [List.append_assoc] using h
    rw [← takeWhile_unquoted hleft s.quote.property, hsame, takeWhile_unquoted hright hq]
  have hlast : ∀ {cs : List Char}, ∀ c ∈ (cs ++ "from".toList).getLast?, isBlank c = false := by
    intro cs c hc
    rw [List.getLast?_append_of_ne_nil _ (by decide)] at hc
    obtain rfl : c = 'm' := by simpa [eq_comm] using hc
    decide
  have hclause : front = "import".toList ++ middle := by
    have htrimmed := congrArg trimRight hbefore
    rw [trimRight_append hlast s.afterFrom.property.2, trimRight_append hlast hafter] at htrimmed
    exact List.append_cancel_right htrimmed
  rw [hfront] at hclause
  rw [← List.append_cancel_left hclause, trim_padded s.gap.property.2 s.clause.tight_text
    s.beforeFrom.property.2]

/-! The bindings are found in the clause. -/

def bindingOf (source piece : List Char) : Binding :=
  let name := piece.takeWhile inName
  ⟨source, .named name, if ' ' ∈ piece then piece.drop (name.length + asWord.length) else piece⟩

def standardIn (source clause : List Char) : List Binding :=
  ([clause.takeWhile inName].filter (· ≠ [])).map fun name => ⟨source, .standard, name⟩

def namedIn (source clause : List Char) : List Binding :=
  (braced? clause).toList.flatMap fun body =>
    (body.splitOn ',').map fun piece => bindingOf source (trim piece)

def everythingIn (source clause : List Char) : List Binding :=
  if clause.head? = some '*' then [⟨source, .everything, clause.drop (1 + asWord.length)⟩] else []

private theorem takeWhile_inName (name : Name) (rest : List Char)
    (h : ∀ c ∈ rest.head?, inName c = false) : (name.val ++ rest).takeWhile inName = name := by
  rw [List.takeWhile_append_of_pos name.property.2]
  cases rest with
  | nil => simp
  | cons c rest => rw [List.takeWhile_cons_of_neg (by simp [h c rfl]), List.append_nil]

private theorem bindingOf_text (source : List Char) (x : Specifier) :
    bindingOf source x.text = x.binding source := by
  cases hrenamed : x.renamed with
  | none =>
    have hname := takeWhile_inName x.exported [] (by simp)
    rw [List.append_nil] at hname
    simp [bindingOf, Specifier.text, Specifier.binding, Specifier.localName, hrenamed, hname,
      Name.space_not_mem x.exported]
  | some name =>
    have hname := takeWhile_inName x.exported (asWord ++ name.val) (by
      intro c hc
      obtain rfl : c = ' ' := by simpa [asWord, eq_comm] using hc
      decide)
    have hspace : ' ' ∈ x.exported.val ++ (asWord ++ name.val) := by simp [asWord]
    simp only [bindingOf, Specifier.text, Specifier.binding, Specifier.localName, hrenamed, hname,
      if_pos hspace, Option.getD_some]
    rw [← List.length_append, ← List.append_assoc, List.drop_left]

private theorem namedIn_append {front : List Char} (hfront : '\x7b' ∉ front) (source : List Char)
    (first : Specifier) (others : List Specifier) :
    namedIn source (front ++ ImportClause.braces (first :: others)) =
      (first :: others).map (·.binding source) := by
  rw [namedIn, ImportClause.braces, braced?_skip hfront,
    braced?_braces (ImportClause.inside_ne_nil first others) (ImportClause.close_not_mem_inside _)]
  simp only [Option.toList_some, List.flatMap_singleton, ImportClause.splitOn_inside, List.map_map]
  apply List.map_congr_left
  intro x _
  simp only [Function.comp_apply, x.trim_padded, bindingOf_text]

private theorem namedIn_of_open {clause : List Char} (h : '\x7b' ∉ clause) (source : List Char) :
    namedIn source clause = [] := by
  rw [namedIn, braced?_eq_none h]
  rfl

private theorem standardIn_name (source : List Char) (name : Name) (rest : List Char)
    (h : ∀ c ∈ rest.head?, inName c = false) :
    standardIn source (name.val ++ rest) = [⟨source, .standard, name⟩] := by
  rw [standardIn, takeWhile_inName name rest h]
  simp [name.property.1]

private theorem standardIn_mark (source rest : List Char) {c : Char} (h : inName c = false) :
    standardIn source (c :: rest) = [] := by
  rw [standardIn, List.takeWhile_cons_of_neg (by simp [h])]
  rfl

private theorem everythingIn_name (source : List Char) (name : Name) (rest : List Char) :
    everythingIn source (name.val ++ rest) = [] := by
  apply if_neg
  rw [List.head?_append_of_ne_nil _ name.property.1]
  intro h
  exact absurd (name.property.2 _ (List.mem_of_mem_head? h)) (by decide)

private theorem bindings_eq (s : ImportStatement) :
    s.bindings = standardIn s.source s.clause.text ++ namedIn s.source s.clause.text ++
      everythingIn s.source s.clause.text := by
  cases hclause : s.clause with
  | single name =>
    have hstandard := standardIn_name s.source name [] (by simp)
    have heverything := everythingIn_name s.source name []
    rw [List.append_nil] at hstandard heverything
    simp only [ImportStatement.bindings, hclause, ImportClause.text]
    rw [hstandard, namedIn_of_open (Name.open_not_mem name), heverything]
    rfl
  | listed first others =>
    have hnamed := namedIn_append List.not_mem_nil s.source first others
    rw [List.nil_append] at hnamed
    have hstandard : standardIn s.source (ImportClause.braces (first :: others)) = [] :=
      standardIn_mark _ _ (by decide)
    simp only [ImportStatement.bindings, hclause, ImportClause.text]
    rw [hnamed, hstandard, everythingIn, if_neg (by simp [ImportClause.braces]), List.append_nil]
    rfl
  | both name before after first others =>
    have hfront : '\x7b' ∉ name.val ++ (before.val ++ ',' :: after.val) := by
      simp [Name.open_not_mem, open_not_mem_of_blank before.property,
        open_not_mem_of_blank after.property]
    have hnamed := namedIn_append hfront s.source first others
    simp only [List.append_assoc, List.cons_append] at hnamed
    have hcomma :
        ∀ rest : List Char, ∀ c ∈ (before.val ++ ',' :: rest).head?, inName c = false := by
      intro rest c hc
      cases hblanks : before.val with
      | nil =>
        obtain rfl : c = ',' := by simpa [hblanks, eq_comm] using hc
        decide
      | cons d blanks =>
        obtain rfl : c = d := by simpa [hblanks, eq_comm] using hc
        rw [inName, before.property c (by simp [hblanks])]
        rfl
    simp only [ImportStatement.bindings, hclause, ImportClause.text]
    rw [hnamed, standardIn_name s.source name _ (hcomma _), everythingIn_name, List.append_nil]
    rfl
  | whole name =>
    have has : '\x7b' ∉ asWord := by decide
    have hopen : '\x7b' ∉ '*' :: (asWord ++ name.val) := by
      simp [Name.open_not_mem name, has]
    simp only [ImportStatement.bindings, hclause, ImportClause.text]
    rw [standardIn_mark _ _ (by decide), namedIn_of_open hopen, everythingIn, List.head?_cons,
      if_pos rfl, Nat.add_comm, List.drop_succ_cons, List.drop_left]
    rfl

private theorem introduces_text_iff {s : ImportStatement} {b : Binding} :
    Introduces s.text b ↔ b ∈ s.bindings := by
  constructor
  · rintro ⟨s', htext, hb⟩
    have hsource : s'.source = s.source := by
      have hsame := congrArg source htext
      rw [s'.source_text, s.source_text, String.ofList_inj] at hsame
      exact Subtype.ext hsame
    have hclause : s'.clause.text = s.clause.text := by
      obtain ⟨front, rfl, hfront, hunquoted⟩ := s.exists_front
      rw [List.forall_mem_append] at hunquoted
      rw [← htext, List.append_assoc] at hfront
      rw [clause_text_eq hunquoted.2 s.afterFrom.property.2 s.quote.property hfront,
        trim_padded s.gap.property.2 s.clause.tight_text s.beforeFrom.property.2]
    rwa [bindings_eq, hsource, hclause, ← bindings_eq] at hb
  · exact fun hb => ⟨s, rfl, hb⟩

/-! Blanks around a text. -/

private theorem head?_dropWhile_isBlank (cs : List Char) :
    ∀ c ∈ (cs.dropWhile isBlank).head?, isBlank c = false := by
  intro c hc
  have hnot := List.head?_dropWhile_not isBlank cs
  rw [hc] at hnot
  simpa using hnot

private theorem trim_cases (cs : List Char) :
    (∀ c ∈ cs, isBlank c = true) ∨ Tight (trim cs) ∧ ∃ before after : Blanks,
      cs = before.val ++ (trim cs ++ after.val) := by
  have hleft : cs.takeWhile isBlank ++ trimLeft cs = cs := List.takeWhile_append_dropWhile
  have hright : trim cs ++ ((trimLeft cs).reverse.takeWhile isBlank).reverse = trimLeft cs := by
    rw [trim, trimRight, ← List.reverse_append, List.takeWhile_append_dropWhile,
      List.reverse_reverse]
  have hfirst := head?_dropWhile_isBlank cs
  by_cases hnil : trimLeft cs = []
  · exact .inl (List.dropWhile_eq_nil_iff.mp hnil)
  · have hne : trim cs ≠ [] := by
      intro htrim
      have hall := List.dropWhile_eq_nil_iff.mp (List.reverse_eq_nil_iff.mp htrim)
      obtain ⟨c, rest, hcons⟩ := List.exists_cons_of_ne_nil hnil
      have hplain := hfirst c (by rw [← trimLeft, hcons]; rfl)
      rw [hall c (by simp [hcons])] at hplain
      cases hplain
    have hafter : ∀ c ∈ ((trimLeft cs).reverse.takeWhile isBlank).reverse, isBlank c = true :=
      fun c hc => List.mem_takeWhile_imp (List.mem_reverse.mp hc)
    refine .inr ⟨⟨hne, ?_, ?_⟩, ⟨_, fun c => List.mem_takeWhile_imp⟩, ⟨_, hafter⟩,
      (hright ▸ hleft).symm⟩
    · rw [← List.head?_append_of_ne_nil _ hne, hright]
      exact hfirst
    · rw [trim, trimRight, List.getLast?_reverse]
      exact head?_dropWhile_isBlank _

private theorem trim_of_blank {cs : List Char} (h : ∀ c ∈ cs, isBlank c = true) : trim cs = [] := by
  rw [trim, trimLeft, List.dropWhile_eq_nil_iff.mpr h]
  rfl

private theorem trim_append {before cs after : List Char} (hbefore : ∀ c ∈ before, isBlank c = true)
    (hafter : ∀ c ∈ after, isBlank c = true) : trim (before ++ (cs ++ after)) = trim cs := by
  rcases trim_cases cs with hblank | ⟨htight, front, behind, hcs⟩
  · rw [trim_of_blank hblank, trim_of_blank]
    simp only [List.forall_mem_append]
    exact ⟨hbefore, hblank, hafter⟩
  · have hpadded := trim_padded (List.forall_mem_append.mpr ⟨hbefore, front.property⟩) htight
      (List.forall_mem_append.mpr ⟨behind.property, hafter⟩)
    rw [← hpadded]
    conv_lhs => rw [hcs]
    simp only [List.append_assoc]

private theorem trim_infix_self (cs : List Char) : trim cs <:+: cs :=
  (Suite.trim_prefix_trimLeft cs).isInfix.trans (List.dropWhile_suffix isBlank).isInfix

/-! Merged statements. -/

private theorem beforeText_prefix_self (p cs : List Char) : Suite.beforeText p cs <+: cs := by
  induction cs with
  | nil => exact List.prefix_rfl
  | cons c cs ih =>
    rw [Suite.beforeText]
    split_ifs
    · exact List.nil_prefix
    · exact List.cons_prefix_cons.mpr ⟨rfl, ih⟩

private theorem not_infix_beforeText {p : List Char} (hp : p ≠ []) (cs : List Char) :
    ¬ p <:+: Suite.beforeText p cs := by
  induction cs with
  | nil => simpa [Suite.beforeText] using hp
  | cons c cs ih =>
    rw [Suite.beforeText]
    split_ifs with hstart
    · simpa using hp
    · rw [List.infix_cons_iff, not_or]
      refine ⟨fun hfront => hstart (Suite.startsWith_iff.mpr ?_), ih⟩
      exact hfront.trans (List.cons_prefix_cons.mpr ⟨rfl, beforeText_prefix_self p cs⟩)

/-- What is read as a name holds no quote, no closing brace and no `as`. -/
structure Bare (cs : List Char) : Prop where
  unquoted : ∀ c ∈ cs, isQuote c = false
  unclosed : '\x7d' ∉ cs
  own : ¬ asWord <:+: cs

private theorem Bare.of_inName {cs : List Char} (h : ∀ c ∈ cs, inName c = true) : Bare cs where
  unquoted c hc := (inName_iff.mp (h c hc)).2.1
  unclosed hmem := absurd (h _ hmem) (by decide)
  own hinside := absurd (h ' ' (hinside.subset (by decide))) (by decide)

private theorem braced?_eq_some {cs body : List Char} (h : braced? cs = some body) :
    body ⊆ cs ∧ '\x7d' ∉ body := by
  induction cs with
  | nil => cases h
  | cons c cs ih =>
    rw [braced?] at h
    dsimp only at h
    split_ifs at h
    · obtain rfl := Option.some.inj h
      refine ⟨fun d hd => List.mem_cons_of_mem c (List.takeWhile_subset _ hd), fun hmem => ?_⟩
      simpa using List.mem_takeWhile_imp hmem
    · exact ⟨fun d hd => List.mem_cons_of_mem c ((ih h).1 hd), (ih h).2⟩

private theorem bare_of_mem_inBraces {source r : List Char} {other : List (List Char)}
    (hsource : ∀ c ∈ source, isQuote c = false) (hother : ∀ n ∈ other, Bare n)
    (hr : r ∈ ImportStatement.reads.inBraces source other) : Bare r := by
  unfold ImportStatement.reads.inBraces at hr
  split at hr
  · rename_i body hbody
    obtain ⟨hsubset, hclose⟩ := braced?_eq_some hbody
    obtain ⟨piece, hpiece, rfl⟩ := List.mem_map.mp hr
    have hpart : Suite.beforeText " as ".toList (trim piece) ⊆ body := by
      intro c hc
      apply Suite.subset_of_mem_splitOn hpiece
      apply (trim_infix_self piece).subset
      exact (beforeText_prefix_self _ _).subset hc
    exact ⟨fun c hc => hsource c (hsubset (hpart hc)), fun hc => hclose (hpart hc),
      not_infix_beforeText (by decide) _⟩
  · exact hother r hr

private theorem ImportStatement.bare_of_mem_reads {s : ImportStatement} {r : List Char}
    (hr : r ∈ s.reads) : Bare r := by
  have hname : ∀ xs : List Specifier, r ∈ xs.map (·.exported.val) → Bare r := by
    intro xs hmem
    obtain ⟨x, -, rfl⟩ := List.mem_map.mp hmem
    exact .of_inName x.exported.property.2
  rw [reads] at hr
  split at hr
  · exact hname _ hr
  · exact hname _ hr
  · rename_i name _
    refine bare_of_mem_inBraces s.source.property.2 (fun n hn => ?_) hr
    obtain rfl := List.mem_singleton.mp (List.mem_filter.mp hn).1
    exact .of_inName fun c hc => name.property.2 c (List.takeWhile_subset _ hc)
  · exact bare_of_mem_inBraces s.source.property.2 (by simp) hr

def clauseOf : List String → List Char
  | [n] => n.toList
  | ns => '\x7b' :: (' ' :: ((", ".intercalate (ordered ns)).toList ++ [' ', '\x7d']))

private theorem clauseOf_of_length_ne_one {ns : List String} (h : ns.length ≠ 1) :
    clauseOf ns = '\x7b' :: (' ' :: ((", ".intercalate (ordered ns)).toList ++ [' ', '\x7d'])) := by
  match ns with
  | [] => rfl
  | [n] => exact absurd rfl h
  | _ :: _ :: _ => rfl

private theorem toList_statement (origin : List Char) (ns : List String) :
    (statement (String.ofList origin) ns).toList =
      "import".toList ++ ((' ' :: (clauseOf ns ++ [' '])) ++ ("from".toList ++
        ([' '] ++ '\'' :: (origin ++ '\'' :: [';'])))) := by
  by_cases hone : ns.length = 1
  · obtain ⟨n, rfl⟩ := List.length_eq_one_iff.mp hone
    simp [statement, clauseOf]
  · rw [statement_of_length_ne_one hone, clauseOf_of_length_ne_one hone]
    simp

private theorem unquoted_clauseOf {ns : List String} (h : ∀ n ∈ ns, Bare n.toList) :
    ∀ c ∈ clauseOf ns, isQuote c = false := by
  by_cases hone : ns.length = 1
  · obtain ⟨n, rfl⟩ := List.length_eq_one_iff.mp hone
    exact (h n List.mem_cons_self).unquoted
  · have hnames : ∀ c ∈ (", ".intercalate (ordered ns)).toList, isQuote c = false := by
      have hcomma : ", ".toList.all (fun c => !isQuote c) = true := by decide
      rw [String.toList_intercalate]
      refine forall_mem_intercalate (by simpa using hcomma) ?_
      intro l hl
      obtain ⟨n, hn, rfl⟩ := List.mem_map.mp hl
      exact (h n ((ordered_perm ns).mem_iff.mp hn)).unquoted
    rw [clauseOf_of_length_ne_one hone]
    simp only [List.forall_mem_cons, List.forall_mem_append]
    exact ⟨by decide, by decide, hnames, by decide, by decide, List.forall_mem_nil _⟩

private theorem exists_of_introduces_statement {origin : Quotable} {ns : List String}
    (hns : ∀ n ∈ ns, Bare n.toList) {b : Binding}
    (h : Introduces (statement (String.ofList origin) ns) b) :
    ∃ s : ImportStatement,
      s.source = origin ∧ s.clause.text = trim (clauseOf ns) ∧ b ∈ s.bindings := by
  have hblank : ∀ c ∈ [' '], isBlank c = true := List.forall_mem_singleton.mpr (by decide)
  have hclause : ∀ c ∈ ' ' :: (clauseOf ns ++ [' ']), isQuote c = false := by
    have hspace : isQuote ' ' = false := by decide
    simpa [or_imp, forall_and, hspace] using unquoted_clauseOf hns
  have hstatement := toList_statement origin ns
  obtain ⟨s, htext, hb⟩ := h
  rw [← htext] at hstatement
  refine ⟨s, ?_, ?_, hb⟩
  · have hsource := s.source_text
    rw [ImportList.source, hstatement, ← List.append_assoc, sourceIn?_from ?_ ⟨by decide, hblank⟩
      (by decide) origin.property.1 origin.property.2 (by decide)] at hsource
    · exact Subtype.ext (String.ofList_inj.mp hsource).symm
    · have himport : "import".toList.all (fun c => !isQuote c) = true := by decide
      exact List.forall_mem_append.mpr ⟨by simpa using himport, hclause⟩
  · rw [clause_text_eq hclause hblank (by decide) hstatement]
    exact trim_append hblank hblank

private theorem ImportStatement.source_of_mem_bindings {s : ImportStatement} {b : Binding}
    (h : b ∈ s.bindings) : b.source = s.source := by
  have hnamed : ∀ {xs : List Specifier}, b ∈ xs.map (·.binding s.source) → b.source = s.source := by
    intro xs hmem
    obtain ⟨x, -, rfl⟩ := List.mem_map.mp hmem
    rfl
  rw [bindings] at h
  split at h
  · obtain rfl := List.mem_singleton.mp h
    rfl
  · exact hnamed h
  · rcases List.mem_cons.mp h with rfl | hlater
    · rfl
    · exact hnamed hlater
  · obtain rfl := List.mem_singleton.mp h
    rfl

private theorem eq_of_introduces_one {origin : Quotable} {n : String} (hn : Bare n.toList)
    {b : Binding} (h : Introduces (statement (String.ofList origin) [n]) b) :
    b = ⟨origin, .standard, trim n.toList⟩ := by
  obtain ⟨s, rfl, htext, hb⟩ := exists_of_introduces_statement (by simpa using hn) h
  have hclose : '\x7d' ∉ s.clause.text := by
    rw [htext]
    exact fun hmem => hn.unclosed ((trim_infix_self _).subset hmem)
  cases hclause : s.clause with
  | single name =>
    rw [ImportStatement.bindings, hclause] at hb
    rw [hclause] at htext
    obtain rfl := List.mem_singleton.mp hb
    exact congrArg _ htext
  | listed first others => simp [hclause, ImportClause.text, ImportClause.braces] at hclose
  | both name before after first others =>
    simp [hclause, ImportClause.text, ImportClause.braces] at hclose
  | whole name =>
    rw [hclause] at htext
    refine absurd (List.IsInfix.trans ?_ (trim_infix_self _)) hn.own
    exact htext ▸ ⟨['*'], name.val, rfl⟩

private theorem introduces_one (origin : Quotable) {n : String} {name : Name}
    (h : trim n.toList = name) :
    Introduces (statement (String.ofList origin) [n]) ⟨origin, .standard, name⟩ := by
  rcases trim_cases n.toList with hblank | ⟨-, before, after, hn⟩
  · rw [trim_of_blank hblank] at h
    exact absurd h.symm name.property.1
  · have hfront : IsGap (' ' :: before.val) :=
      ⟨List.cons_ne_nil _ _, List.forall_mem_cons.mpr ⟨by decide, before.property⟩⟩
    have hbehind : IsGap (after.val ++ [' ']) :=
      ⟨by simp, List.forall_mem_append.mpr ⟨after.property, space.property.2⟩⟩
    refine ⟨⟨.single name, origin, ⟨_, hfront⟩, ⟨_, hbehind⟩, space, ⟨'\'', by decide⟩, true⟩, ?_,
      List.mem_singleton.mpr rfl⟩
    rw [← String.toList_inj, toList_statement, clauseOf, hn, h]
    refine (ImportStatement.toList_text _).trans ?_
    simp [ImportStatement.tail, ImportStatement.ending, ImportClause.text, space]

private theorem named_of_introduces_many {origin : Quotable} {ns : List String}
    (hns : ∀ n ∈ ns, Bare n.toList) (hmany : ns.length ≠ 1) {b : Binding}
    (h : Introduces (statement (String.ofList origin) ns) b) :
    ∃ name, b.imported = .named name := by
  obtain ⟨s, rfl, htext, hb⟩ := exists_of_introduces_statement hns h
  have hopen : s.clause.text.head? = some '\x7b' := by
    have htight := Tight.braced (' ' :: ((", ".intercalate (ordered ns)).toList ++ [' ']))
    rw [List.cons_append, List.append_assoc] at htight
    rw [htext, clauseOf_of_length_ne_one hmany]
    exact (congrArg List.head? htight.trim_eq).trans rfl
  have hname : ∀ (name : Name) (rest : List Char), (name.val ++ rest).head? ≠ some '\x7b' := by
    intro name rest hhead
    rw [List.head?_append_of_ne_nil _ name.property.1] at hhead
    exact Name.open_not_mem name (List.mem_of_mem_head? hhead)
  cases hclause : s.clause with
  | single name =>
    rw [hclause] at hopen
    exact absurd hopen (by simpa [ImportClause.text] using hname name [])
  | listed first others =>
    rw [ImportStatement.bindings, hclause] at hb
    obtain ⟨x, -, rfl⟩ := List.mem_map.mp hb
    exact ⟨x.exported, rfl⟩
  | both name before after first others =>
    rw [hclause] at hopen
    exact absurd hopen (hname name _)
  | whole name =>
    rw [hclause] at hopen
    exact absurd hopen (by simp [ImportClause.text])

private theorem map_binding_spaced (source : List Char) (ns : List Name) :
    (spaced ns).map (·.binding source) = ns.map fun n => ⟨source, .named n, n⟩ := by
  have hpairs := congrArg (List.map fun x : Name × Option Name =>
    (⟨source, .named x.1, x.2.getD x.1⟩ : Binding)) (map_spaced ns)
  rw [List.map_map, List.map_map] at hpairs
  exact hpairs

private theorem introduces_many_iff {origin : Quotable} {ns : List String} (hmany : 1 < ns.length)
    (hns : ∀ n ∈ ns, n.toList ≠ [] ∧ ∀ c ∈ n.toList, inName c = true) {b : Binding} :
    Introduces (statement (String.ofList origin) ns) b ↔
      ∃ n ∈ ns, b = ⟨origin, .named n.toList, n.toList⟩ := by
  have hordered : ∀ cs ∈ (ordered ns).map String.toList, cs ≠ [] ∧ ∀ c ∈ cs, inName c = true := by
    intro cs hcs
    obtain ⟨n, hn, rfl⟩ := List.mem_map.mp hcs
    exact hns n ((ordered_perm ns).mem_iff.mp hn)
  let names : List Name := ((ordered ns).map String.toList).attachWith _ hordered
  have hnames : names.map Subtype.val = (ordered ns).map String.toList :=
    List.attachWith_map_subtype_val hordered
  obtain ⟨first, rest, hcons⟩ : ∃ first rest, names = first :: rest := by
    apply List.exists_cons_of_ne_nil
    intro hnil
    have hlength := congrArg List.length hnames
    rw [hnil, List.length_map, List.length_map, (ordered_perm ns).length_eq,
      List.length_nil] at hlength
    omega
  obtain ⟨x, xs, hspaced⟩ := List.exists_cons_of_ne_nil (spaced_ne_nil first rest)
  have htext :
      statement (String.ofList origin) ns = (spacedStatement (.listed x xs) origin).text := by
    rw [← String.toList_inj, toList_text_spacedStatement, ImportClause.text, ImportClause.braces,
      ← hspaced, inside_spaced, ← hcons, hnames, statement_of_length_ne_one (by omega)]
    simp
  have hbindings : (spacedStatement (.listed x xs) origin).bindings =
      names.map fun n => ⟨origin, .named n, n⟩ := by
    rw [hcons, ← map_binding_spaced, hspaced]
    rfl
  have hmem : ∀ n, n ∈ ns ↔ n.toList ∈ names.map Subtype.val := by
    intro n
    rw [hnames, List.mem_map_of_injective fun _ _ => String.toList_inj.mp,
      (ordered_perm ns).mem_iff]
  rw [htext, introduces_text_iff, hbindings, List.mem_map]
  constructor
  · rintro ⟨n, hn, rfl⟩
    refine ⟨String.ofList n.val, (hmem _).mpr ?_, by rw [String.toList_ofList]⟩
    rw [String.toList_ofList]
    exact List.mem_map_of_mem hn
  · rintro ⟨n, hn, rfl⟩
    obtain ⟨name, hname, hsame⟩ := List.mem_map.mp ((hmem n).mp hn)
    exact ⟨name, hname, by rw [hsame]⟩

/-! Sources. -/

section Sources

variable (statements : List ImportStatement) (origin : Quotable)

def ReadFrom (r : List Char) : Prop := ∃ s ∈ statements, s.source = origin ∧ r ∈ s.reads

def BoundFrom (b : Binding) : Prop := ∃ s ∈ statements, s.source = origin ∧ b ∈ s.bindings

/-- All statements with a source have one and the same name by itself, and just that name is read
from them. -/
def OneName : Prop :=
  ∃ (name : Name) (r : List Char), (∀ s ∈ statements, s.source = origin → s.clause = .single name) ∧
    (∀ r', ReadFrom statements origin r' ↔ r' = r) ∧ trim r = name

/-- All statements with a source have names in braces that keep their own names, and there are two
different ones. -/
def OwnNames : Prop :=
  (∀ s ∈ statements, s.source = origin → ∃ first others, s.clause = .listed first others ∧
    ∀ x ∈ first :: others, x.localName = x.exported) ∧
    ∃ r r', ReadFrom statements origin r ∧ ReadFrom statements origin r' ∧ r ≠ r'

end Sources

section Source

variable {statements : List ImportStatement} {origin : Quotable} {ns : List String}

private theorem ReadFrom.bare {r : List Char} (h : ReadFrom statements origin r) : Bare r := by
  obtain ⟨s, -, -, hr⟩ := h
  exact s.bare_of_mem_reads hr

private theorem bare_of_readFrom
    (hreads : ∀ r, String.ofList r ∈ ns ↔ ReadFrom statements origin r) :
    ∀ n ∈ ns, Bare n.toList := by
  intro n hn
  rw [← String.ofList_toList (s := n), hreads] at hn
  exact hn.bare

private theorem ImportStatement.eq_single_of_bindings {s : ImportStatement} {name : List Char}
    (h : ∀ b ∈ s.bindings, b = ⟨s.source, .standard, name⟩) :
    ∃ own : Name, own.val = name ∧ s.clause = .single own := by
  rw [bindings] at h
  cases hclause : s.clause with
  | single own =>
    simp only [hclause, List.forall_mem_singleton, Binding.mk.injEq] at h
    exact ⟨own, h.2.2, rfl⟩
  | listed first others => simp [hclause, Specifier.binding] at h
  | both own before after first others => simp [hclause, Specifier.binding] at h
  | whole own => simp [hclause] at h

private theorem ImportStatement.eq_listed_of_bindings {s : ImportStatement}
    (h : ∀ b ∈ s.bindings, ∃ name, b.imported = .named name) :
    ∃ first others, s.clause = .listed first others := by
  rw [bindings] at h
  cases hclause : s.clause with
  | single own => simp [hclause] at h
  | listed first others => exact ⟨first, others, rfl⟩
  | both own before after first others => simp [hclause] at h
  | whole own => simp [hclause] at h

private theorem kept_one_iff {n : String} (hsome : ∃ s ∈ statements, s.source = origin)
    (hn : Bare n.toList) :
    (∀ b, Introduces (statement (String.ofList origin) [n]) b ↔ BoundFrom statements origin b) ↔
      ∃ name : Name, trim n.toList = name ∧
        ∀ s ∈ statements, s.source = origin → s.clause = .single name := by
  constructor
  · intro hkept
    have hsingle : ∀ s ∈ statements, s.source = origin →
        ∃ own : Name, own.val = trim n.toList ∧ s.clause = .single own := by
      rintro s hs rfl
      apply s.eq_single_of_bindings
      intro b hb
      exact eq_of_introduces_one hn ((hkept b).mpr ⟨s, hs, rfl, hb⟩)
    obtain ⟨s, hs, hsource⟩ := hsome
    obtain ⟨name, hname, -⟩ := hsingle s hs hsource
    refine ⟨name, hname.symm, fun s' hs' hsource' => ?_⟩
    obtain ⟨own, hown, hclause⟩ := hsingle s' hs' hsource'
    rw [hclause, Subtype.ext (hown.trans hname.symm)]
  · rintro ⟨name, hname, hsingle⟩ b
    constructor
    · intro hb
      obtain rfl := eq_of_introduces_one hn hb
      obtain ⟨s, hs, hsource⟩ := hsome
      refine ⟨s, hs, hsource, ?_⟩
      rw [ImportStatement.bindings, hsingle s hs hsource, hsource, hname]
      exact List.mem_singleton.mpr rfl
    · rintro ⟨s, hs, hsource, hb⟩
      rw [ImportStatement.bindings, hsingle s hs hsource, hsource] at hb
      obtain rfl := List.mem_singleton.mp hb
      exact introduces_one origin hname

section Listed

variable {s : ImportStatement} {first : Specifier} {others : List Specifier}

private theorem mem_reads_of_listed (h : s.clause = .listed first others) {r : List Char} :
    r ∈ s.reads ↔ ∃ x ∈ first :: others, x.exported.val = r := by
  rw [ImportStatement.reads, h]
  exact List.mem_map

private theorem mem_bindings_of_listed (h : s.clause = .listed first others) {b : Binding} :
    b ∈ s.bindings ↔ ∃ x ∈ first :: others, x.binding s.source = b := by
  rw [ImportStatement.bindings, h]
  exact List.mem_map

end Listed

private theorem listed_of_own (hown : ∀ s ∈ statements, s.source = origin →
      ∃ first others, s.clause = .listed first others ∧
        ∀ x ∈ first :: others, x.localName = x.exported) :
    ∀ s ∈ statements, s.source = origin → ∃ first others, s.clause = .listed first others := by
  intro s hs hsource
  obtain ⟨first, others, hclause, -⟩ := hown s hs hsource
  exact ⟨first, others, hclause⟩

private theorem one_lt_length_of_listed (hsome : ∃ s ∈ statements, s.source = origin)
    (hmany : ns.length ≠ 1) (hreads : ∀ r, String.ofList r ∈ ns ↔ ReadFrom statements origin r)
    (hlisted : ∀ s ∈ statements, s.source = origin →
      ∃ first others, s.clause = .listed first others) :
    1 < ns.length := by
  obtain ⟨s, hs, hsource⟩ := hsome
  obtain ⟨first, others, hclause⟩ := hlisted s hs hsource
  have hr := (mem_reads_of_listed hclause).mpr ⟨first, List.mem_cons_self, rfl⟩
  have hpos := List.length_pos_of_mem ((hreads _).mpr ⟨s, hs, hsource, hr⟩)
  omega

private theorem introduces_listed_iff (hsome : ∃ s ∈ statements, s.source = origin)
    (hmany : ns.length ≠ 1) (hreads : ∀ r, String.ofList r ∈ ns ↔ ReadFrom statements origin r)
    (hlisted : ∀ s ∈ statements, s.source = origin →
      ∃ first others, s.clause = .listed first others)
    {b : Binding} :
    Introduces (statement (String.ofList origin) ns) b ↔
      ∃ r, ReadFrom statements origin r ∧ b = ⟨origin, .named r, r⟩ := by
  have hnames : ∀ n ∈ ns, n.toList ≠ [] ∧ ∀ c ∈ n.toList, inName c = true := by
    intro n hn
    rw [← String.ofList_toList (s := n), hreads] at hn
    obtain ⟨s, hs, hsource, hr⟩ := hn
    obtain ⟨first, others, hclause⟩ := hlisted s hs hsource
    obtain ⟨x, -, hx⟩ := (mem_reads_of_listed hclause).mp hr
    exact hx ▸ x.exported.property
  rw [introduces_many_iff (one_lt_length_of_listed hsome hmany hreads hlisted) hnames]
  constructor
  · rintro ⟨n, hn, rfl⟩
    refine ⟨n.toList, ?_, rfl⟩
    rwa [← hreads, String.ofList_toList]
  · rintro ⟨r, hr, rfl⟩
    exact ⟨String.ofList r, (hreads r).mpr hr, by rw [String.toList_ofList]⟩

private theorem kept_many_iff (hsome : ∃ s ∈ statements, s.source = origin) (hmany : ns.length ≠ 1)
    (hreads : ∀ r, String.ofList r ∈ ns ↔ ReadFrom statements origin r) :
    (∀ b, Introduces (statement (String.ofList origin) ns) b ↔ BoundFrom statements origin b) ↔
      ∀ s ∈ statements, s.source = origin → ∃ first others, s.clause = .listed first others ∧
        ∀ x ∈ first :: others, x.localName = x.exported := by
  constructor
  · intro hkept
    have hlisted : ∀ s ∈ statements, s.source = origin →
        ∃ first others, s.clause = .listed first others := by
      intro s hs hsource
      apply s.eq_listed_of_bindings
      intro b hb
      exact named_of_introduces_many (bare_of_readFrom hreads) hmany
        ((hkept b).mpr ⟨s, hs, hsource, hb⟩)
    intro s hs hsource
    obtain ⟨first, others, hclause⟩ := hlisted s hs hsource
    refine ⟨first, others, hclause, fun x hx => ?_⟩
    have hbound : BoundFrom statements origin (x.binding s.source) :=
      ⟨s, hs, hsource, (mem_bindings_of_listed hclause).mpr ⟨x, hx, rfl⟩⟩
    obtain ⟨r, -, hb⟩ :=
      (introduces_listed_iff hsome hmany hreads hlisted).mp ((hkept _).mpr hbound)
    rw [Specifier.binding, Binding.mk.injEq, Imported.named.injEq] at hb
    exact Subtype.ext (hb.2.2.trans hb.2.1.symm)
  · intro hown b
    rw [introduces_listed_iff hsome hmany hreads (listed_of_own hown)]
    constructor
    · rintro ⟨r, ⟨s, hs, rfl, hr⟩, rfl⟩
      obtain ⟨first, others, hclause, hsame⟩ := hown s hs rfl
      obtain ⟨x, hx, rfl⟩ := (mem_reads_of_listed hclause).mp hr
      refine ⟨s, hs, rfl, (mem_bindings_of_listed hclause).mpr ⟨x, hx, ?_⟩⟩
      rw [Specifier.binding, hsame x hx]
    · rintro ⟨s, hs, rfl, hb⟩
      obtain ⟨first, others, hclause, hsame⟩ := hown s hs rfl
      obtain ⟨x, hx, rfl⟩ := (mem_bindings_of_listed hclause).mp hb
      refine ⟨x.exported, ⟨s, hs, rfl, (mem_reads_of_listed hclause).mpr ⟨x, hx, rfl⟩⟩, ?_⟩
      rw [Specifier.binding, hsame x hx]

private theorem kept_iff (hsome : ∃ s ∈ statements, s.source = origin) (hnodup : ns.Nodup)
    (hreads : ∀ r, String.ofList r ∈ ns ↔ ReadFrom statements origin r) :
    (∀ b, Introduces (statement (String.ofList origin) ns) b ↔ BoundFrom statements origin b) ↔
      OneName statements origin ∨ OwnNames statements origin := by
  by_cases hone : ns.length = 1
  · obtain ⟨n, rfl⟩ := List.length_eq_one_iff.mp hone
    have honly : ∀ r, ReadFrom statements origin r ↔ r = n.toList := by
      intro r
      rw [← hreads, List.mem_singleton, ← String.toList_inj, String.toList_ofList]
    rw [kept_one_iff hsome ((honly _).mpr rfl).bare]
    constructor
    · rintro ⟨name, hname, hsingle⟩
      exact .inl ⟨name, n.toList, hsingle, honly, hname⟩
    · rintro (⟨name, r, hsingle, hr, hname⟩ | ⟨-, r, r', hr, hr', hne⟩)
      · refine ⟨name, ?_, hsingle⟩
        rw [← hname, (honly r).mp ((hr r).mpr rfl)]
      · exact absurd (((honly r).mp hr).trans ((honly r').mp hr').symm) hne
  · rw [kept_many_iff hsome hone hreads]
    constructor
    · intro hown
      have hlength := one_lt_length_of_listed hsome hone hreads (listed_of_own hown)
      have hread : ∀ n ∈ ns, ReadFrom statements origin n.toList := by
        intro n hn
        rwa [← hreads, String.ofList_toList]
      refine .inr ⟨hown, _, _, hread _ (List.getElem_mem (Nat.zero_lt_of_lt hlength)),
        hread _ (List.getElem_mem hlength), ?_⟩
      rw [ne_eq, String.toList_inj, hnodup.getElem_inj_iff]
      exact Nat.zero_ne_one
    · rintro (⟨name, r, -, hr, -⟩ | ⟨hown, -⟩)
      · -- Names that are different and all the same are one name.
        have hperm : ns.Perm [String.ofList r] := by
          rw [List.perm_ext_iff_of_nodup hnodup (List.nodup_singleton _)]
          intro n
          rw [List.mem_singleton, ← String.ofList_toList (s := n), hreads, hr, String.ofList_inj]
        exact absurd hperm.length_eq hone
      · exact hown

end Source

private theorem mem_bySource_text {statements : List ImportStatement} {entry : String × List String}
    (h : entry ∈ bySource (statements.map ImportStatement.text)) :
    ∃ origin : Quotable, entry.1 = String.ofList origin ∧ (∃ s ∈ statements, s.source = origin) ∧
      entry.2.Nodup ∧ ∀ r, String.ofList r ∈ entry.2 ↔ ReadFrom statements origin r := by
  have hcollects := collects_bySource (statements.map ImportStatement.text)
  have hkey := List.mem_map_of_mem (f := Prod.fst) h
  rw [hcollects.sources, List.mem_eraseDups, List.map_map, List.mem_map] at hkey
  obtain ⟨s, hs, hsource⟩ := hkey
  rw [Function.comp_apply, s.source_text] at hsource
  refine ⟨s.source, hsource.symm, ⟨s, hs, rfl⟩, hcollects.once entry h, fun r => ?_⟩
  rw [hcollects.united entry h, ← hsource]
  simp only [List.mem_map, exists_exists_and_eq_and, ImportStatement.source_text,
    ImportStatement.names_text, String.ofList_inj, Subtype.val_inj, exists_eq_right, ReadFrom]

private theorem exists_entry {statements : List ImportStatement} {s : ImportStatement}
    (h : s ∈ statements) :
    ∃ entry ∈ bySource (statements.map ImportStatement.text), entry.1 = String.ofList s.source := by
  have hcollects := collects_bySource (statements.map ImportStatement.text)
  have hkey : String.ofList s.source ∈
      (bySource (statements.map ImportStatement.text)).map Prod.fst := by
    rw [hcollects.sources, List.mem_eraseDups, ← s.source_text]
    exact List.mem_map_of_mem (List.mem_map_of_mem h)
  exact List.mem_map.mp hkey

private theorem source_of_introduces {statements : List ImportStatement} {origin : Quotable}
    {ns : List String} (hreads : ∀ r, String.ofList r ∈ ns ↔ ReadFrom statements origin r)
    {b : Binding} (h : Introduces (statement (String.ofList origin) ns) b) : b.source = origin := by
  obtain ⟨s, rfl, -, hb⟩ := exists_of_introduces_statement (bare_of_readFrom hreads) h
  exact s.source_of_mem_bindings hb

/-- Merging keeps all that is bound if it does so source by source. -/
private theorem introduced_merged_iff_forall (statements : List ImportStatement) :
    (∀ b, (∃ text ∈ merged (statements.map ImportStatement.text), Introduces text b) ↔
        ∃ text ∈ statements.map ImportStatement.text, Introduces text b) ↔
      ∀ s ∈ statements, OneName statements s.source ∨ OwnNames statements s.source := by
  have hkeys := (collects_bySource (statements.map ImportStatement.text)).nodup
  simp only [merged_eq_map, List.mem_map, exists_exists_and_eq_and, introduces_text_iff]
  constructor
  · intro hkept s hs
    obtain ⟨entry, hentry, hkey⟩ := exists_entry hs
    obtain ⟨origin, horigin, hsome, hnodup, hreads⟩ := mem_bySource_text hentry
    obtain rfl : s.source = origin := Subtype.ext (String.ofList_inj.mp (hkey.symm.trans horigin))
    rw [← kept_iff hsome hnodup hreads]
    intro b
    constructor
    · intro hb
      obtain ⟨s', hs', hb'⟩ := (hkept b).mp ⟨entry, hentry, horigin ▸ hb⟩
      have hsource := (s'.source_of_mem_bindings hb').symm.trans (source_of_introduces hreads hb)
      exact ⟨s', hs', Subtype.ext hsource, hb'⟩
    · rintro ⟨s', hs', hsource, hb⟩
      obtain ⟨other, hother, hb'⟩ := (hkept b).mpr ⟨s', hs', hb⟩
      obtain ⟨origin', horigin', -, -, hreads'⟩ := mem_bySource_text hother
      rw [horigin'] at hb'
      have hsame : origin' = s.source := by
        apply Subtype.ext
        rw [← source_of_introduces hreads' hb', s'.source_of_mem_bindings hb, hsource]
      obtain rfl : other = entry := List.inj_on_of_nodup_map hkeys hother hentry
        (by rw [horigin', horigin, hsame])
      rwa [hsame] at hb'
  · intro hall b
    constructor
    · rintro ⟨entry, hentry, hb⟩
      obtain ⟨origin, horigin, ⟨s, hs, rfl⟩, hnodup, hreads⟩ := mem_bySource_text hentry
      rw [horigin] at hb
      obtain ⟨s', hs', -, hb'⟩ := ((kept_iff ⟨s, hs, rfl⟩ hnodup hreads).mpr (hall s hs) b).mp hb
      exact ⟨s', hs', hb'⟩
    · rintro ⟨s, hs, hb⟩
      obtain ⟨entry, hentry, hkey⟩ := exists_entry hs
      obtain ⟨origin, horigin, hsome, hnodup, hreads⟩ := mem_bySource_text hentry
      obtain rfl : s.source = origin := Subtype.ext (String.ofList_inj.mp (hkey.symm.trans horigin))
      refine ⟨entry, hentry, ?_⟩
      rw [horigin]
      exact ((kept_iff hsome hnodup hreads).mpr (hall s hs) b).mpr ⟨s, hs, rfl, hb⟩

private theorem oneName_iff {statements : List ImportStatement} {origin : Quotable}
    (hopen : '\x7b' ∉ origin.val) (hsome : ∃ s ∈ statements, s.source = origin) :
    OneName statements origin ↔ ∃ name : Name, (∀ c ∈ name.val, isWord c = true) ∧
      ∀ s ∈ statements, s.source = origin → s.clause = .single name := by
  have hreads : ∀ {name : Name}, (∀ s ∈ statements, s.source = origin → s.clause = .single name) →
      ∀ r, ReadFrom statements origin r ↔ r = name.val.takeWhile isWord ∧ r ≠ [] := by
    intro name hsingle r
    have hmem : ∀ s ∈ statements, s.source = origin →
        (r ∈ s.reads ↔ r = name.val.takeWhile isWord ∧ r ≠ []) := by
      rintro s hs rfl
      rw [ImportStatement.reads, hsingle s hs rfl]
      simp only [ImportStatement.reads.inBraces, braced?_eq_none hopen, List.mem_filter,
        List.mem_singleton, decide_eq_true_eq]
    constructor
    · rintro ⟨s, hs, hsource, hr⟩
      exact (hmem s hs hsource).mp hr
    · intro hr
      obtain ⟨s, hs, hsource⟩ := hsome
      exact ⟨s, hs, hsource, (hmem s hs hsource).mpr hr⟩
  constructor
  · rintro ⟨name, r, hsingle, hr, hname⟩
    obtain ⟨htake, hne⟩ := (hreads hsingle r).mp ((hr r).mpr rfl)
    have hword : ∀ c ∈ r, isWord c = true := fun c hc => List.mem_takeWhile_imp (htake ▸ hc)
    have htight : Tight r := .of_unblank hne fun c hc => isBlank_eq_false_of_isWord (hword c hc)
    rw [htight.trim_eq] at hname
    exact ⟨name, hname ▸ hword, hsingle⟩
  · rintro ⟨name, hword, hsingle⟩
    have htake : name.val.takeWhile isWord = name := List.takeWhile_eq_self_iff.mpr hword
    refine ⟨name, name, hsingle, fun r => ?_, (Tight.name name).trim_eq⟩
    rw [hreads hsingle, htake]
    exact and_iff_left_of_imp fun hr => hr ▸ name.property.1

/-- Merging keeps what statements bind just where each source has one name by itself or names in
braces that keep their own names. With a source that holds no brace, the name by itself is one
word. -/
theorem introduced_merged_iff (statements : List ImportStatement) :
    ((∀ b, (∃ text ∈ merged (statements.map ImportStatement.text), Introduces text b) ↔
        ∃ text ∈ statements.map ImportStatement.text, Introduces text b) ↔
      ∀ s ∈ statements, OneName statements s.source ∨ OwnNames statements s.source) ∧
    ∀ s ∈ statements, '\x7b' ∉ s.source.val →
      (OneName statements s.source ↔ ∃ name : Name, (∀ c ∈ name.val, isWord c = true) ∧
        ∀ s' ∈ statements, s'.source = s.source → s'.clause = .single name) :=
  ⟨introduced_merged_iff_forall statements, fun s hs hopen => oneName_iff hopen ⟨s, hs, rfl⟩⟩

end SuiteTidy.ImportList

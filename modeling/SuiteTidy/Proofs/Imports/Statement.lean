import SuiteTidy.Imports.Organized
import SuiteTidy.Proofs.Suite.Import

/-!
Import statements as they are written: a clause and a source in quotes. A clause has a name by
itself, names in braces, both, or a name for all that is exported, and a name in braces may be given
another one behind `as`. Blanks may stand wherever parts are kept apart. Main statements: which
source and which names are read from such a statement.
-/

set_option autoImplicit false
set_option relaxedAutoImplicit false

namespace SuiteTidy.ImportList

open SuiteTidy.Text
open SuiteTidy.Suite (IsGap afterBlanks?_eq_some_iff afterStart?_eq_some_iff beforeText)

/-- Whether a character can stand in a name: no blank, no quote and no mark of a clause. -/
def inName (c : Char) : Bool :=
  !(isBlank c || isQuote c || c == ',' || c == '\x7b' || c == '\x7d' || c == '*')

abbrev Name := { cs : List Char // cs ≠ [] ∧ ∀ c ∈ cs, inName c = true }

abbrev Blanks := { cs : List Char // ∀ c ∈ cs, isBlank c = true }

abbrev Gap := { cs : List Char // IsGap cs }

abbrev Quote := { c : Char // isQuote c = true }

abbrev Quotable := { cs : List Char // cs ≠ [] ∧ ∀ c ∈ cs, isQuote c = false }

/-- What is imported from a source: what it exports by default, what it exports under a name, or all
that it exports. -/
inductive Imported where
  | standard
  | named (name : List Char)
  | everything

structure Binding where
  source : List Char
  imported : Imported
  localName : List Char

structure Specifier where
  before : Blanks
  exported : Name
  renamed : Option Name
  after : Blanks

def asWord : List Char := " as ".toList

namespace Specifier

def localName (x : Specifier) : Name := x.renamed.getD x.exported

def text (x : Specifier) : List Char :=
  match x.renamed with
  | none => x.exported
  | some name => x.exported ++ (asWord ++ name)

def padded (x : Specifier) : List Char := x.before ++ (x.text ++ x.after)

def binding (source : List Char) (x : Specifier) : Binding :=
  ⟨source, .named x.exported, x.localName⟩

end Specifier

inductive ImportClause where
  | single (name : Name)
  | listed (first : Specifier) (others : List Specifier)
  | both (name : Name) (before after : Blanks) (first : Specifier) (others : List Specifier)
  | whole (name : Name)

namespace ImportClause

def inside (xs : List Specifier) : List Char := [','].intercalate (xs.map Specifier.padded)

def braces (xs : List Specifier) : List Char := '\x7b' :: (inside xs ++ ['\x7d'])

def text : ImportClause → List Char
  | single name => name
  | listed first others => braces (first :: others)
  | both name before after first others =>
      name ++ (before ++ ',' :: (after ++ braces (first :: others)))
  | whole name => '*' :: (asWord ++ name)

end ImportClause

structure ImportStatement where
  clause : ImportClause
  source : Quotable
  gap : Gap
  beforeFrom : Gap
  afterFrom : Gap
  quote : Quote
  closed : Bool

namespace ImportStatement

def ending (s : ImportStatement) : List Char := if s.closed then [';'] else []

def tail (s : ImportStatement) : List Char :=
  s.beforeFrom ++ ("from".toList ++
    (s.afterFrom ++ s.quote.val :: (s.source ++ s.quote.val :: s.ending)))

def text (s : ImportStatement) : String :=
  String.ofList ("import".toList ++ (s.gap ++ (s.clause.text ++ s.tail)))

def bindings (s : ImportStatement) : List Binding :=
  match s.clause with
  | .single name => [⟨s.source, .standard, name⟩]
  | .listed first others => (first :: others).map (·.binding s.source)
  | .both name _ _ first others =>
      ⟨s.source, .standard, name⟩ :: (first :: others).map (·.binding s.source)
  | .whole name => [⟨s.source, .everything, name⟩]

/-- The texts that are read as names: what is exported of names in braces, else the word that a
single name starts with. Braces in the source are taken for those of a clause that has none. -/
def reads (s : ImportStatement) : List (List Char) :=
  match s.clause with
  | .listed first others => (first :: others).map (·.exported)
  | .both _ _ _ first others => (first :: others).map (·.exported)
  | .single name => inBraces s.source ([name.val.takeWhile isWord].filter (· ≠ []))
  | .whole _ => inBraces s.source []
where
  inBraces (source : List Char) (other : List (List Char)) : List (List Char) :=
    match braced? source with
    | some body => (body.splitOn ',').map fun piece => beforeText " as ".toList (trim piece)
    | none => other

end ImportStatement

/-! Characters of the parts. -/

theorem inName_iff {c : Char} :
    inName c = true ↔ isBlank c = false ∧ isQuote c = false ∧ c ≠ ',' ∧ c ≠ '\x7b' ∧ c ≠ '\x7d' ∧
      c ≠ '*' := by
  simp [inName, and_assoc]

theorem isQuote_eq_false {p : Char → Bool} (hdouble : p '"' = false) (hsingle : p '\'' = false)
    {c : Char} (h : p c = true) : isQuote c = false := by
  rw [Bool.eq_false_iff]
  intro hquote
  rcases Bool.or_eq_true_iff.mp hquote with hc | hc
  · rw [beq_iff_eq.mp hc, hdouble] at h
    cases h
  · rw [beq_iff_eq.mp hc, hsingle] at h
    cases h

def inPadded (c : Char) : Bool := inName c || isBlank c

private theorem Specifier.inPadded_text (x : Specifier) : ∀ c ∈ x.text, inPadded c = true := by
  have hname : ∀ (name : Name), ∀ c ∈ name.val, inPadded c = true := by
    intro name c hc
    rw [inPadded, name.property.2 c hc, Bool.true_or]
  have has : asWord.all inPadded = true := by decide
  rw [Specifier.text]
  split
  · exact hname x.exported
  · rename_i name _
    rw [List.forall_mem_append, List.forall_mem_append]
    exact ⟨hname x.exported, List.all_eq_true.mp has, hname name⟩

private theorem Specifier.inPadded_padded (x : Specifier) : ∀ c ∈ x.padded, inPadded c = true := by
  have hblanks : ∀ (blanks : Blanks), ∀ c ∈ blanks.val, inPadded c = true := by
    intro blanks c hc
    rw [inPadded, blanks.property c hc, Bool.or_true]
  rw [Specifier.padded, List.forall_mem_append, List.forall_mem_append]
  exact ⟨hblanks x.before, x.inPadded_text, hblanks x.after⟩

theorem forall_mem_intercalate {P : Char → Prop} {sep : List Char} (hsep : ∀ c ∈ sep, P c)
    {ls : List (List Char)} (h : ∀ l ∈ ls, ∀ c ∈ l, P c) : ∀ c ∈ sep.intercalate ls, P c := by
  induction ls with
  | nil => simp
  | cons l ls ih =>
    rw [List.forall_mem_cons] at h
    cases ls with
    | nil => simpa using h.1
    | cons next ls =>
      rw [List.intercalate_cons_cons, List.forall_mem_append, List.forall_mem_append]
      exact ⟨⟨h.1, hsep⟩, ih h.2⟩

namespace ImportClause

private theorem forall_mem_inside {P : Char → Prop} (hcomma : P ',')
    (h : ∀ c, inPadded c = true → P c) (xs : List Specifier) : ∀ c ∈ inside xs, P c := by
  refine forall_mem_intercalate (List.forall_mem_singleton.mpr hcomma) ?_
  intro l hl c hc
  obtain ⟨x, -, rfl⟩ := List.mem_map.mp hl
  exact h c (x.inPadded_padded c hc)

private theorem unquoted_text (clause : ImportClause) : ∀ c ∈ clause.text, isQuote c = false := by
  have hname : ∀ (name : Name), ∀ c ∈ name.val, isQuote c = false := fun name c hc =>
    (inName_iff.mp (name.property.2 c hc)).2.1
  have hblanks : ∀ (blanks : Blanks), ∀ c ∈ blanks.val, isQuote c = false := fun blanks c hc =>
    isQuote_eq_false (by decide) (by decide) (blanks.property c hc)
  have hbraces : ∀ xs, ∀ c ∈ braces xs, isQuote c = false := by
    intro xs
    rw [braces, List.forall_mem_cons, List.forall_mem_append, List.forall_mem_singleton]
    exact ⟨by decide, forall_mem_inside (by decide)
      (fun c => isQuote_eq_false (by decide) (by decide)) xs, by decide⟩
  cases clause with
  | single name => exact hname name
  | listed first others => exact hbraces _
  | both name before after first others =>
    simp only [text, List.forall_mem_append, List.forall_mem_cons]
    exact ⟨hname name, hblanks before, by decide, hblanks after, hbraces _⟩
  | whole name =>
    have has : asWord.all (fun c => !isQuote c) = true := by decide
    simp only [text, List.forall_mem_append, List.forall_mem_cons]
    exact ⟨by decide, by simpa using has, hname name⟩

end ImportClause

namespace ImportStatement

theorem toList_text (s : ImportStatement) :
    s.text.toList = "import".toList ++ (s.gap ++ (s.clause.text ++ s.tail)) :=
  String.toList_ofList

theorem exists_front (s : ImportStatement) : ∃ front : List Char,
    front = "import".toList ++ (s.gap ++ (s.clause.text ++ s.beforeFrom)) ∧
    s.text.toList = front ++ ("from".toList ++
      (s.afterFrom ++ s.quote.val :: (s.source ++ s.quote.val :: s.ending))) ∧
    ∀ c ∈ front, isQuote c = false := by
  have hgap : ∀ (gap : Gap), ∀ c ∈ gap.val, isQuote c = false := fun gap c hc =>
    isQuote_eq_false (by decide) (by decide) (gap.property.2 c hc)
  have himport : "import".toList.all (fun c => !isQuote c) = true := by decide
  refine ⟨_, rfl, ?_, ?_⟩
  · refine s.toList_text.trans ?_
    simp only [tail, List.append_assoc]
  · simp only [List.forall_mem_append]
    exact ⟨by simpa using himport, hgap s.gap, s.clause.unquoted_text, hgap s.beforeFrom⟩

end ImportStatement

/-! The source. -/

theorem takeWhile_unquoted {front : List Char} (hfront : ∀ c ∈ front, isQuote c = false) {q : Char}
    (hq : isQuote q = true) (rest : List Char) :
    (front ++ q :: rest).takeWhile (fun c => !isQuote c) = front := by
  rw [List.takeWhile_append_of_pos (by simpa using hfront),
    List.takeWhile_cons_of_neg (by simpa using hq), List.append_nil]

private theorem exists_quote_of_sourceAfter? {cs found : List Char}
    (h : sourceAfter? cs = some found) :
    ∃ gap q rest, cs = gap ++ q :: rest ∧ (∀ c ∈ gap, isBlank c = true) ∧ isQuote q = true := by
  unfold sourceAfter? at h
  obtain ⟨tail, htail, hquoted⟩ := Option.bind_eq_some_iff.mp h
  obtain ⟨gap, hgap, rfl, -⟩ := afterBlanks?_eq_some_iff.mp htail
  cases tail with
  | nil => cases hquoted
  | cons q rest =>
    simp only at hquoted
    split_ifs at hquoted with hquote
    simp only [Bool.and_eq_true] at hquote
    exact ⟨gap, q, rest, rfl, hgap.2, hquote.1.1⟩

private theorem sourceAfter?_gap {gap found : List Char} (hgap : IsGap gap) {q q' : Char}
    (hq : isQuote q = true) (hne : found ≠ []) (hfound : ∀ c ∈ found, isQuote c = false)
    (hq' : isQuote q' = true) (rest : List Char) :
    sourceAfter? (gap ++ q :: (found ++ q' :: rest)) = some found := by
  have hplain : isBlank q = false := by
    rcases Bool.or_eq_true_iff.mp hq with hq | hq <;> rw [beq_iff_eq.mp hq] <;> decide
  have hblanks : Suite.afterBlanks? (gap ++ q :: (found ++ q' :: rest)) =
      some (q :: (found ++ q' :: rest)) :=
    afterBlanks?_eq_some_iff.mpr ⟨gap, hgap, rfl, by simp [hplain]⟩
  unfold sourceAfter?
  rw [hblanks]
  simp only [Option.bind_eq_bind, Option.bind_some, takeWhile_unquoted hfound hq']
  apply if_pos
  simp [hq, hne]

/-- A `from` in front of the last one is followed by more than blanks before the first quote. -/
private theorem no_source_before {front gap : List Char} {q : Char} (hne : front ≠ [])
    (hfront : ∀ c ∈ front, isQuote c = false) (hgap : ∀ c ∈ gap, isBlank c = true)
    (hq : isQuote q = true) (rest : List Char) :
    (afterStart? (front ++ ("from".toList ++ (gap ++ q :: rest))) "from".toList).bind sourceAfter? =
      none := by
  rw [Option.eq_none_iff_forall_ne_some]
  intro found hfound
  obtain ⟨tail, htail, hsource⟩ := Option.bind_eq_some_iff.mp hfound
  rw [afterStart?_eq_some_iff] at htail
  obtain ⟨gap', q', rest', rfl, hgap', hq'⟩ := exists_quote_of_sourceAfter? hsource
  have hfrom : "from".toList.all (fun c => !isQuote c) = true := by decide
  have hunquoted : ∀ {as bs : List Char}, (∀ c ∈ as, isQuote c = false) →
      (∀ c ∈ bs, isBlank c = true) → ∀ c ∈ as ++ ("from".toList ++ bs), isQuote c = false := by
    intro as bs has hbs
    rw [List.forall_mem_append, List.forall_mem_append]
    exact ⟨has, by simpa using hfrom,
      fun c hc => isQuote_eq_false (by decide) (by decide) (hbs c hc)⟩
  -- What stands before the first quote, seen from both sides.
  have hbefore : front ++ ("from".toList ++ gap) = [] ++ ("from".toList ++ gap') := by
    have hsame : (front ++ ("from".toList ++ gap)) ++ q :: rest =
        ([] ++ ("from".toList ++ gap')) ++ q' :: rest' := by
      simpa using htail
    rw [← takeWhile_unquoted (hunquoted hfront hgap) hq rest, hsame,
      takeWhile_unquoted (hunquoted (List.forall_mem_nil _) hgap') hq' rest']
  have hletter : (front ++ ("from".toList ++ gap))[front.length + 3]? = some 'm' := by
    rw [List.getElem?_append_right (Nat.le_add_right _ _), Nat.add_sub_cancel_left]
    rfl
  have hmem : 'm' ∈ gap' := by
    have hlength : 0 < front.length := List.length_pos_iff.mpr hne
    rw [hbefore, List.nil_append, List.getElem?_append_right (by simp; omega)] at hletter
    exact List.mem_of_getElem? hletter
  exact absurd (hgap' _ hmem) (by decide)

theorem sourceIn?_from {front gap found : List Char} (hfront : ∀ c ∈ front, isQuote c = false)
    (hgap : IsGap gap) {q q' : Char} (hq : isQuote q = true) (hne : found ≠ [])
    (hfound : ∀ c ∈ found, isQuote c = false) (hq' : isQuote q' = true) (rest : List Char) :
    sourceIn? (front ++ ("from".toList ++ (gap ++ q :: (found ++ q' :: rest)))) = some found := by
  induction front with
  | nil =>
    have hstart : afterStart? ("from".toList ++ (gap ++ q :: (found ++ q' :: rest))) "from".toList =
        some (gap ++ q :: (found ++ q' :: rest)) :=
      afterStart?_eq_some_iff.mpr rfl
    change sourceIn? ('f' :: ("rom".toList ++ (gap ++ q :: (found ++ q' :: rest)))) = some found
    rw [sourceIn?]
    change (match (afterStart? ("from".toList ++ (gap ++ q :: (found ++ q' :: rest)))
      "from".toList).bind sourceAfter? with | some source => _ | none => _) = _
    rw [hstart, Option.bind_some, sourceAfter?_gap hgap hq hne hfound hq']
  | cons c front ih =>
    have hnone := no_source_before (List.cons_ne_nil c front) hfront hgap.2 hq
      (found ++ q' :: rest)
    rw [List.cons_append] at hnone ⊢
    rw [sourceIn?, hnone]
    exact ih (List.forall_mem_cons.mp hfront).2

theorem ImportStatement.source_text (s : ImportStatement) :
    ImportList.source s.text = String.ofList s.source := by
  obtain ⟨front, -, htext, hfront⟩ := s.exists_front
  rw [ImportList.source, htext, sourceIn?_from hfront s.afterFrom.property s.quote.property
    s.source.property.1 s.source.property.2 s.quote.property]
  rfl

/-! Braces. -/

theorem braced?_skip {front : List Char} (h : '\x7b' ∉ front) (rest : List Char) :
    braced? (front ++ rest) = braced? rest := by
  induction front with
  | nil => rfl
  | cons c front ih =>
    simp only [List.mem_cons, not_or] at h
    rw [List.cons_append, braced?, if_neg (by simp [Ne.symm h.1]), ih h.2]

theorem braced?_eq_none {cs : List Char} (h : '\x7b' ∉ cs) : braced? cs = none := by
  have hskip := braced?_skip h []
  rwa [List.append_nil] at hskip

private theorem takeWhile_open {body : List Char} (hbody : '\x7d' ∉ body) (rest : List Char) :
    (body ++ rest).takeWhile (· ≠ '\x7d') = body ++ rest.takeWhile (· ≠ '\x7d') := by
  apply List.takeWhile_append_of_pos
  intro c hc
  rw [decide_eq_true_eq]
  rintro rfl
  exact hbody hc

theorem braced?_braces {body : List Char} (hne : body ≠ []) (hbody : '\x7d' ∉ body)
    (rest : List Char) : braced? ('\x7b' :: (body ++ '\x7d' :: rest)) = some body := by
  have hhead : (body ++ '\x7d' :: rest).head? ≠ some '\x7d' := by
    rw [List.head?_append_of_ne_nil _ hne]
    intro hhead
    exact hbody (List.mem_of_mem_head? hhead)
  rw [braced?, if_pos (by rw [bne_iff_ne.mpr hhead]; rfl), takeWhile_open hbody,
    List.takeWhile_cons_of_neg (by simp), List.append_nil]
  exact if_pos (by simp)

private theorem braced?_append {cs rest : List Char} (hopen : '\x7b' ∉ rest)
    (hclose : '\x7d' ∉ rest) : braced? (cs ++ rest) = braced? cs := by
  induction cs with
  | nil => exact braced?_eq_none hopen
  | cons c cs ih =>
    have hhead : ((cs ++ rest).head? != some '\x7d') = (cs.head? != some '\x7d') := by
      cases cs with
      | nil =>
        have hfirst : rest.head? ≠ some '\x7d' := fun h => hclose (List.mem_of_mem_head? h)
        rw [List.nil_append, bne_iff_ne.mpr hfirst]
        rfl
      | cons d cs => rfl
    rw [List.cons_append, braced?, braced?, hhead, ih]
    apply if_congr Iff.rfl _ rfl
    by_cases hmem : '\x7d' ∈ cs
    · obtain ⟨body, after, rfl, hbody⟩ := List.eq_append_cons_of_mem hmem
      rw [List.append_assoc, List.cons_append, takeWhile_open hbody, takeWhile_open hbody,
        List.takeWhile_cons_of_neg (by simp), List.takeWhile_cons_of_neg (by simp)]
      simp
    · have hwhole : ∀ {ds : List Char}, '\x7d' ∉ ds → ds.takeWhile (· ≠ '\x7d') = ds := by
        intro ds hds
        simpa using takeWhile_open hds []
      rw [hwhole hmem, hwhole (by simp [hmem, hclose])]
      simp

/-! Names. -/

/-- A text that neither starts nor ends with a blank. -/
structure Tight (cs : List Char) : Prop where
  nonempty : cs ≠ []
  first : ∀ c ∈ cs.head?, isBlank c = false
  last : ∀ c ∈ cs.getLast?, isBlank c = false

theorem Tight.of_unblank {cs : List Char} (hne : cs ≠ []) (h : ∀ c ∈ cs, isBlank c = false) :
    Tight cs :=
  ⟨hne, fun c hc => h c (List.mem_of_mem_head? hc), fun c hc => h c (List.mem_of_getLast? hc)⟩

theorem Tight.name (name : Name) : Tight name.val :=
  .of_unblank name.property.1 fun c hc => (inName_iff.mp (name.property.2 c hc)).1

theorem Tight.append {front ending : List Char} (hfront : Tight front) (hending : Tight ending)
    (middle : List Char) : Tight (front ++ (middle ++ ending)) where
  nonempty := List.append_ne_nil_of_left_ne_nil hfront.nonempty _
  first := by
    rw [List.head?_append_of_ne_nil _ hfront.nonempty]
    exact hfront.first
  last := by
    rw [← List.append_assoc, List.getLast?_append_of_ne_nil _ hending.nonempty]
    exact hending.last

theorem trimRight_append {cs after : List Char} (hcs : ∀ c ∈ cs.getLast?, isBlank c = false)
    (hafter : ∀ c ∈ after, isBlank c = true) : trimRight (cs ++ after) = cs := by
  have hright : trimLeft (after.reverse ++ cs.reverse) = cs.reverse := by
    apply Suite.trimLeft_append (by simpa using hafter)
    rwa [List.head?_reverse]
  rw [trimRight, List.reverse_append]
  exact (congrArg List.reverse hright).trans (List.reverse_reverse cs)

theorem trim_padded {before cs after : List Char} (hbefore : ∀ c ∈ before, isBlank c = true)
    (h : Tight cs) (hafter : ∀ c ∈ after, isBlank c = true) :
    trim (before ++ (cs ++ after)) = cs := by
  have hleft : trimLeft (before ++ (cs ++ after)) = cs ++ after := by
    apply Suite.trimLeft_append hbefore
    rw [List.head?_append_of_ne_nil _ h.nonempty]
    exact h.first
  rw [trim, hleft, trimRight_append h.last hafter]

private theorem beforeText_append {p : Char} {name : List Char} (h : p ∉ name)
    (ps rest : List Char) : beforeText (p :: ps) (name ++ (p :: ps ++ rest)) = name := by
  induction name with
  | nil =>
    have hstart : startsWith (p :: ps ++ rest) (p :: ps) = true :=
      Suite.startsWith_iff.mpr (List.prefix_append _ _)
    rw [List.nil_append, List.cons_append, beforeText, ← List.cons_append, if_pos hstart]
  | cons c name ih =>
    simp only [List.mem_cons, not_or] at h
    have hstart : startsWith (c :: (name ++ (p :: ps ++ rest))) (p :: ps) = false := by
      simp [startsWith, Ne.symm h.1]
    rw [List.cons_append, beforeText, hstart, ih h.2]
    rfl

private theorem beforeText_eq_self {p : Char} {ps name : List Char} (h : p ∉ name) :
    beforeText (p :: ps) name = name := by
  induction name with
  | nil => rfl
  | cons c name ih =>
    simp only [List.mem_cons, not_or] at h
    have hstart : startsWith (c :: name) (p :: ps) = false := by
      simp [startsWith, Ne.symm h.1]
    rw [beforeText, hstart, ih h.2]
    rfl

theorem Name.space_not_mem (name : Name) : ' ' ∉ name.val := fun h =>
  absurd (name.property.2 ' ' h) (by decide)

namespace Specifier

private theorem tight_text (x : Specifier) : Tight x.text := by
  rw [text]
  split
  · exact Tight.name x.exported
  · exact (Tight.name x.exported).append (Tight.name _) _

theorem trim_padded (x : Specifier) : trim x.padded = x.text :=
  ImportList.trim_padded x.before.property x.tight_text x.after.property

private theorem beforeText_text (x : Specifier) : beforeText " as ".toList x.text = x.exported := by
  rw [text]
  split
  · exact beforeText_eq_self (Name.space_not_mem x.exported)
  · exact beforeText_append (Name.space_not_mem x.exported) "as ".toList _

end Specifier

theorem ImportClause.splitOn_inside (first : Specifier) (others : List Specifier) :
    (inside (first :: others)).splitOn ',' = (first :: others).map Specifier.padded := by
  apply List.splitOn_intercalate
  · intro l hl
    obtain ⟨x, -, rfl⟩ := List.mem_map.mp hl
    intro hcomma
    exact absurd (x.inPadded_padded ',' hcomma) (by decide)
  · simp

private theorem defaultName?_gap {gap name rest : List Char} (hgap : IsGap gap)
    (hname : ∀ c ∈ name.head?, isBlank c = false) (hne : name ≠ [])
    (hrest : ∀ c ∈ rest.head?, isWord c = false) :
    defaultName? ("import".toList ++ (gap ++ (name ++ rest))) =
      if name.takeWhile isWord = [] then none else some (name.takeWhile isWord) := by
  have hafter : afterStart? ("import".toList ++ (gap ++ (name ++ rest))) "import".toList =
      some (gap ++ (name ++ rest)) :=
    afterStart?_eq_some_iff.mpr rfl
  have hblanks : Suite.afterBlanks? (gap ++ (name ++ rest)) = some (name ++ rest) := by
    refine afterBlanks?_eq_some_iff.mpr ⟨gap, hgap, rfl, ?_⟩
    rwa [List.head?_append_of_ne_nil _ hne]
  have hword : (name ++ rest).takeWhile isWord = name.takeWhile isWord := by
    rw [List.takeWhile_append]
    split_ifs with hall
    · have hstop : rest.takeWhile isWord = [] := by
        cases rest with
        | nil => rfl
        | cons c rest => rw [List.takeWhile_cons_of_neg (by simp [hrest c rfl])]
      rw [hstop, List.append_nil]
      exact ((List.takeWhile_prefix isWord).eq_of_length hall).symm
    · rfl
  unfold defaultName?
  rw [hafter]
  simp only [Option.bind_eq_bind, Option.bind_some, hblanks, hword, List.isEmpty_iff]

theorem ImportClause.inside_ne_nil (first : Specifier) (others : List Specifier) :
    inside (first :: others) ≠ [] := by
  intro hnil
  have hsplit := splitOn_inside first others
  rw [hnil, List.splitOn_nil, List.map_cons, List.cons.injEq] at hsplit
  have hempty : first.text = [] := by
    rw [← first.trim_padded, ← hsplit.1]
    rfl
  exact first.tight_text.nonempty hempty

theorem ImportClause.close_not_mem_inside (xs : List Specifier) : '\x7d' ∉ inside xs := by
  have hall := forall_mem_inside (P := (· ≠ '\x7d')) (by decide) (fun c hc => ?_) xs
  · exact fun hmem => hall _ hmem rfl
  · rintro rfl
    exact absurd hc (by decide)

private theorem names_of_braces (front rest : List Char) {cs : List Char} {first : Specifier}
    {others : List Specifier}
    (hcs : cs = front ++ '\x7b' :: (ImportClause.inside (first :: others) ++ '\x7d' :: rest))
    (hfront : '\x7b' ∉ front) :
    names (String.ofList cs) = ((first :: others).map (·.exported.val)).map String.ofList := by
  have hbraces : braced? cs = some (ImportClause.inside (first :: others)) := by
    rw [hcs, braced?_skip hfront, braced?_braces (ImportClause.inside_ne_nil first others)
      (ImportClause.close_not_mem_inside _)]
  simp only [names, String.toList_ofList, hbraces, ImportClause.splitOn_inside, List.map_map]
  apply List.map_congr_left
  intro x _
  simp only [Function.comp_apply, x.trim_padded, x.beforeText_text]

theorem Name.open_not_mem (name : Name) : '\x7b' ∉ name.val := fun h =>
  absurd (name.property.2 '\x7b' h) (by decide)

theorem open_not_mem_of_blank {blanks : List Char} (h : ∀ c ∈ blanks, isBlank c = true) :
    '\x7b' ∉ blanks := fun hmem => absurd (h '\x7b' hmem) (by decide)

namespace ImportStatement

variable (s : ImportStatement)

private theorem braced?_text_of_open (hopen : '\x7b' ∉ s.clause.text) :
    braced? s.text.toList = braced? s.source := by
  have hquote : s.quote.val ≠ '\x7b' ∧ s.quote.val ≠ '\x7d' := by
    refine ⟨fun h => ?_, fun h => ?_⟩
    · exact absurd (h ▸ s.quote.property) (by decide)
    · exact absurd (h ▸ s.quote.property) (by decide)
  have hending : '\x7b' ∉ s.ending ∧ '\x7d' ∉ s.ending := by
    rw [ending]
    split <;> decide
  obtain ⟨front, hfront, htext, -⟩ := s.exists_front
  have hbefore : '\x7b' ∉ front ++ ("from".toList ++ (s.afterFrom ++ [s.quote.val])) := by
    have hgap := fun gap : Gap => open_not_mem_of_blank gap.property.2
    simp [hfront, hgap, hopen, hquote.1.symm]
  have htext' : s.text.toList = (front ++ ("from".toList ++ (s.afterFrom ++ [s.quote.val]))) ++
      (s.source ++ s.quote.val :: s.ending) := by
    simp [htext]
  rw [htext', braced?_skip hbefore, braced?_append]
  · simp [hquote.1.symm, hending.1]
  · simp [hquote.2.symm, hending.2]

private theorem names_text_of_open (hopen : '\x7b' ∉ s.clause.text) :
    names s.text =
      (reads.inBraces s.source (defaultName? s.text.toList).toList).map String.ofList := by
  simp only [names, s.braced?_text_of_open hopen, reads.inBraces]
  cases braced? s.source.val with
  | none => rfl
  | some body => simp only [List.map_map, Function.comp_def]

theorem names_text : names s.text = s.reads.map String.ofList := by
  have hgap := open_not_mem_of_blank s.gap.property.2
  have hstop : ∀ c ∈ s.tail.head?, isWord c = false := by
    intro c hc
    rw [tail, List.head?_append_of_ne_nil _ s.beforeFrom.property.1] at hc
    exact isWord_eq_false_of_isBlank (s.beforeFrom.property.2 c (List.mem_of_mem_head? hc))
  cases hclause : s.clause with
  | single name =>
    have hname := Tight.name name
    have hopen : '\x7b' ∉ s.clause.text := by
      rw [hclause]
      exact Name.open_not_mem name
    have hdefault : (defaultName? s.text.toList).toList =
        [name.val.takeWhile isWord].filter (· ≠ []) := by
      rw [s.toList_text, hclause, ImportClause.text,
        defaultName?_gap s.gap.property hname.first hname.nonempty hstop]
      split_ifs with hnone <;> simp [hnone]
    rw [s.names_text_of_open hopen, hdefault]
    simp only [reads, hclause]
  | listed first others =>
    simp only [reads, hclause]
    apply names_of_braces ("import".toList ++ s.gap.val) s.tail
    · simp [hclause, ImportClause.text, ImportClause.braces]
    · simp [hgap]
  | both name before after first others =>
    simp only [reads, hclause]
    apply names_of_braces
      ("import".toList ++ (s.gap.val ++ (name.val ++ (before.val ++ ',' :: after.val)))) s.tail
    · simp [hclause, ImportClause.text, ImportClause.braces]
    · simp [hgap, Name.open_not_mem, open_not_mem_of_blank before.property,
        open_not_mem_of_blank after.property]
  | whole name =>
    have hopen : '\x7b' ∉ s.clause.text := by
      rw [hclause]
      have has : '\x7b' ∉ asWord := by decide
      simp [ImportClause.text, Name.open_not_mem name, has]
    have hstar : isBlank '*' = false ∧ isWord '*' = false := by decide
    have hdefault : (defaultName? s.text.toList).toList = [] := by
      rw [s.toList_text, hclause, defaultName?_gap s.gap.property ?_ ?_ hstop]
      · simp [ImportClause.text, hstar.2]
      · simp [ImportClause.text, hstar.1]
      · simp [ImportClause.text]
    rw [s.names_text_of_open hopen, hdefault]
    simp only [reads, hclause]

end ImportStatement

/-! Statements with single spaces. -/

def space : Gap := ⟨[' '], List.cons_ne_nil _ _, List.forall_mem_singleton.mpr (by decide)⟩

def spaced : List Name → List Specifier
  | [] => []
  | [n] => [⟨⟨[' '], space.property.2⟩, n, none, ⟨[' '], space.property.2⟩⟩]
  | n :: next :: rest =>
      ⟨⟨[' '], space.property.2⟩, n, none, ⟨[], by simp⟩⟩ :: spaced (next :: rest)

theorem spaced_ne_nil (n : Name) (ns : List Name) : spaced (n :: ns) ≠ [] := by
  cases ns <;> exact List.cons_ne_nil _ _

theorem inside_spaced (n : Name) (ns : List Name) :
    ImportClause.inside (spaced (n :: ns)) =
      ' ' :: ([',', ' '].intercalate ((n :: ns).map (·.val)) ++ [' ']) := by
  induction ns generalizing n with
  | nil => simp [spaced, ImportClause.inside, Specifier.padded, Specifier.text]
  | cons next rest ih =>
    have hnext := ih next
    rw [ImportClause.inside] at hnext
    have hsome : (spaced (next :: rest)).map Specifier.padded ≠ [] := by
      simpa using spaced_ne_nil next rest
    rw [spaced, ImportClause.inside, List.map_cons, List.intercalate_cons_of_ne_nil hsome, hnext]
    simp [Specifier.padded, Specifier.text]

theorem map_spaced (ns : List Name) :
    (spaced ns).map (fun x => (x.exported, x.renamed)) = ns.map fun n => (n, none) := by
  induction ns with
  | nil => rfl
  | cons n ns ih =>
    cases ns with
    | nil => rfl
    | cons next rest =>
      rw [spaced, List.map_cons, ih]
      rfl

def spacedStatement (clause : ImportClause) (source : Quotable) : ImportStatement :=
  ⟨clause, source, space, space, space, ⟨'\'', by decide⟩, true⟩

theorem toList_text_spacedStatement (clause : ImportClause) (source : Quotable) :
    (spacedStatement clause source).text.toList =
      "import ".toList ++ (clause.text ++ (" from '".toList ++ (source ++ "';".toList))) := by
  refine (spacedStatement clause source).toList_text.trans ?_
  simp [spacedStatement, ImportStatement.tail, ImportStatement.ending, space]

end SuiteTidy.ImportList

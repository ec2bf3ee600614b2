import SuiteTidy.Proofs.Imports.Statement

/-!
Import statements of two plain forms, with one name by itself or with names in braces. Main
statements: the names and the source that are read from such a statement are those it was written
with, also where `from` is among the names.
-/

set_option autoImplicit false
set_option relaxedAutoImplicit false

namespace SuiteTidy.ImportList

open SuiteTidy.Text

abbrev ImportName := { s : String // s ≠ "" ∧ ∀ c ∈ s.toList, isWord c = true }

/-- A source that can stand in quotes: some characters, but no quotes and no braces. -/
abbrev ImportSource :=
  { s : String // s ≠ "" ∧ ∀ c ∈ s.toList, isQuote c = false ∧ c ≠ '\x7b' ∧ c ≠ '\x7d' }

inductive ImportForm where
  | bare (name : ImportName) (source : ImportSource)
  | braced (first : ImportName) (others : List ImportName) (source : ImportSource)

namespace ImportForm

def names : ImportForm → List String
  | bare name _ => [name]
  | braced first others _ => (first :: others).map (·.val)

def source : ImportForm → String
  | bare _ source => source
  | braced _ _ source => source

def clause : ImportForm → String
  | bare name _ => "import " ++ name
  | braced first others source =>
      "import \x7b " ++ ", ".intercalate (braced first others source).names ++ " \x7d"

def text (form : ImportForm) : String := form.clause ++ " from '" ++ form.source ++ "';"

variable (form : ImportForm)

theorem names_ne_nil : form.names ≠ [] := by
  cases form <;> simp [names]

theorem isWord_of_mem_names {form : ImportForm} {name : String} (h : name ∈ form.names) :
    name ≠ "" ∧ ∀ c ∈ name.toList, isWord c = true := by
  cases form with
  | bare own source =>
    obtain rfl := List.mem_singleton.mp h
    exact own.property
  | braced first others source =>
    obtain ⟨own, -, rfl⟩ := List.mem_map.mp h
    exact own.property

theorem source_spec :
    form.source ≠ "" ∧ ∀ c ∈ form.source.toList, isQuote c = false ∧ c ≠ '\x7b' ∧ c ≠ '\x7d' := by
  cases form with
  | bare name source => exact source.property
  | braced first others source => exact source.property

end ImportForm

/-! The plain forms among all statements. -/

private theorem inName_of_isWord {c : Char} (h : isWord c = true) : inName c = true := by
  have hother : ∀ {d : Char}, isWord d = false → c ≠ d := by
    rintro d hd rfl
    rw [hd] at h
    cases h
  rw [inName_iff]
  exact ⟨isBlank_eq_false_of_isWord h, isQuote_eq_false (by decide) (by decide) h,
    hother (by decide), hother (by decide), hother (by decide), hother (by decide)⟩

def ImportName.name (n : ImportName) : Name :=
  ⟨n.val.toList, by simpa using n.property.1, fun c hc => inName_of_isWord (n.property.2 c hc)⟩

def ImportSource.quotable (source : ImportSource) : Quotable :=
  ⟨source.val.toList, by simpa using source.property.1, fun c hc => (source.property.2 c hc).1⟩

private theorem ImportForm.exists_statement (form : ImportForm) : ∃ s : ImportStatement,
    s.text = form.text ∧ s.source.val = form.source.toList ∧
      s.reads = form.names.map String.toList := by
  cases form with
  | bare name source =>
    refine ⟨spacedStatement (.single name.name) source.quotable, ?_, rfl, ?_⟩
    · rw [← String.toList_inj, toList_text_spacedStatement]
      simp [ImportClause.text, text, clause, ImportForm.source, ImportName.name,
        ImportSource.quotable]
    · have hnone : braced? source.val.toList = none :=
        braced?_eq_none fun hmem => (source.property.2 _ hmem).2.1 rfl
      have hword : name.val.toList.takeWhile isWord = name.val.toList :=
        List.takeWhile_eq_self_iff.mpr name.property.2
      simp [spacedStatement, ImportStatement.reads, ImportStatement.reads.inBraces,
        ImportSource.quotable, hnone, ImportName.name, hword, name.property.1, names]
  | braced first others source =>
    obtain ⟨x, xs, hspaced⟩ := List.exists_cons_of_ne_nil
      (spaced_ne_nil first.name (others.map ImportName.name))
    refine ⟨spacedStatement (.listed x xs) source.quotable, ?_, rfl, ?_⟩
    · have hinside := inside_spaced first.name (others.map ImportName.name)
      rw [hspaced] at hinside
      rw [← String.toList_inj, toList_text_spacedStatement]
      simp [ImportClause.text, ImportClause.braces, hinside, text, clause, names, ImportForm.source,
        ImportSource.quotable, ImportName.name, Function.comp_def]
    · have hexported := congrArg (List.map fun pair => pair.1.val)
        (map_spaced (first.name :: others.map ImportName.name))
      rw [hspaced] at hexported
      simpa [spacedStatement, ImportStatement.reads, names, ImportName.name, Function.comp_def]
        using hexported

theorem source_text (form : ImportForm) : source form.text = form.source := by
  obtain ⟨s, htext, hsource, -⟩ := form.exists_statement
  rw [← htext, s.source_text, hsource, String.ofList_toList]

theorem names_text (form : ImportForm) : names form.text = form.names := by
  obtain ⟨s, htext, -, hreads⟩ := form.exists_statement
  rw [← htext, s.names_text, hreads]
  simp

end SuiteTidy.ImportList

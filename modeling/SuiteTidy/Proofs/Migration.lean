import SuiteTidy.Migration
import SuiteTidy.Proofs.Files.Shape
import SuiteTidy.Proofs.Json.Document
import SuiteTidy.Proofs.Text.Occurrence
import SuiteTidy.Proofs.Workspace

/-!
Changing the imports of a source tree. The old beginnings of import lines all start with a letter
that they have nowhere else, so that no two of them overlap, and no change makes or breaks an
occurrence for another. Main statement: the changes can be made in any order, none of the old
beginnings is left in a text, and changing the imports of a tree once more ends in the same way and
writes nothing.
-/

set_option autoImplicit false
set_option relaxedAutoImplicit false

namespace SuiteTidy

/-! Texts of files. -/

namespace FileTree

variable {t : FileTree} {p : Path} {s : String}

def textOf (c : Content) : Except FileFault String :=
  (decode c).map fun s => String.ofList (Text.normalNewlines s.toList)

private theorem readText_eq_bind (t : FileTree) (p : Path) :
    t.readText p = (t.readContent p).bind textOf := by
  simp only [readText, readExact, bind, Except.bind]
  cases t.readContent p with
  | error e => rfl
  | ok c => cases h : decode c <;> simp [textOf, h, Except.map, pure, Except.pure]

private theorem return_not_mem_normalNewlines (cs : List Char) : '\r' ∉ Text.normalNewlines cs := by
  -- A line end of two characters is taken at once, so that the induction is on the length.
  induction hlength : cs.length using Nat.strong_induction_on generalizing cs with
  | h n ih =>
    subst hlength
    cases cs with
    | nil => simp [Text.normalNewlines]
    | cons c cs =>
      have hrest := ih _ (Nat.lt_succ_self _) cs rfl
      by_cases hc : c = '\r'
      · subst hc
        cases cs with
        | nil => simp [Text.normalNewlines]
        | cons d ds =>
          by_cases hd : d = '\n'
          · subst hd
            simpa [Text.normalNewlines] using ih _ (by simp) ds rfl
          · simpa [Text.normalNewlines, hd] using hrest
      · simpa [Text.normalNewlines, hc, eq_comm] using hrest

private theorem readText_eq_ok_iff :
    t.readText p = .ok s ↔ ∃ c, t.readContent p = .ok c ∧ textOf c = .ok s := by
  rw [readText_eq_bind]
  cases t.readContent p <;> simp [Except.bind]

private theorem return_not_mem_of_readText (h : t.readText p = .ok s) : '\r' ∉ s.toList := by
  obtain ⟨c, -, htext⟩ := readText_eq_ok_iff.mp h
  rw [textOf] at htext
  cases hdecode : decode c with
  | error e =>
    rw [hdecode] at htext
    cases htext
  | ok exact =>
    rw [hdecode] at htext
    rw [← Except.ok.inj htext, String.toList_ofList]
    exact return_not_mem_normalNewlines exact.toList

end FileTree

namespace Migration

open Text

variable {content : String}

/-! The changes. -/

private theorem marked_importChanges {x : String × String} (hx : x ∈ importChanges) :
    Marked 'f' x.1.toList x.2.toList := by
  have hall : ∀ x ∈ importChanges, x.1.toList.head? = some 'f' ∧ 'f' ∉ x.1.toList.tail ∧
      x.2.toList.head? = some 'f' := by decide
  obtain ⟨hhead, honce, hnew⟩ := hall x hx
  exact ⟨hhead, honce, hnew⟩

private theorem staysClear_new : ∀ x ∈ importChanges, ∀ y ∈ importChanges,
    StaysClear x.1.toList y.2.toList := by
  decide

private theorem staysClear_old : ∀ x ∈ importChanges, ∀ y ∈ importChanges, x ≠ y →
    StaysClear x.1.toList y.1.toList := by
  decide

def changeEach (order : List (String × String)) (content : String) : String :=
  order.foldl (fun s change => replaced s change.1 change.2) content

private theorem changeImports_eq (content : String) :
    changeImports content = changeEach importChanges content := rfl

private theorem replaced_comm {x y : String × String} (hx : x ∈ importChanges)
    (hy : y ∈ importChanges) (s : String) :
    replaced (replaced s x.1 x.2) y.1 y.2 = replaced (replaced s y.1 y.2) x.1 x.2 := by
  by_cases hne : x = y
  · rw [hne]
  · simp only [replaced, String.toList_ofList]
    rw [replaceAll_comm (marked_importChanges hx) (marked_importChanges hy)
      ⟨staysClear_old x hx y hy hne, staysClear_new x hx y hy⟩
      ⟨staysClear_old y hy x hx (Ne.symm hne), staysClear_new y hy x hx⟩]

private theorem changeEach_of_perm {order : List (String × String)} (h : order.Perm importChanges)
    (content : String) : changeEach order content = changeImports content := by
  rw [changeImports_eq, changeEach, changeEach]
  exact h.foldl_eq' (fun _ hx _ hy s => replaced_comm (h.subset hx) (h.subset hy) s) content

private theorem not_infix_changeImports {x : String × String} (hx : x ∈ importChanges)
    (content : String) : ¬x.1.toList <:+: (changeImports content).toList := by
  -- The change in question may as well be the last one.
  have hlast : (importChanges.erase x ++ [x]).Perm importChanges :=
    (List.perm_append_singleton x _).trans (List.perm_cons_erase hx).symm
  rw [← changeEach_of_perm hlast, changeEach, List.foldl_append, List.foldl_cons, List.foldl_nil,
    replaced, String.toList_ofList]
  exact not_infix_replaceAll (marked_importChanges hx) (staysClear_new x hx x hx) _

private theorem changeEach_eq_self {order : List (String × String)} (horder : order ⊆ importChanges)
    (h : ∀ x ∈ order, ¬x.1.toList <:+: content.toList) : changeEach order content = content := by
  induction order with
  | nil => rfl
  | cons x order ih =>
    rw [List.forall_mem_cons] at h
    rw [List.cons_subset] at horder
    have hsame : replaced content x.1 x.2 = content := by
      rw [replaced, replaceAll_eq_self (marked_importChanges horder.1).ne_nil _ h.1,
        String.ofList_toList]
    rw [changeEach, List.foldl_cons, hsame]
    exact ih horder.2 h.2

private theorem changeImports_changeImports (content : String) :
    changeImports (changeImports content) = changeImports content :=
  changeEach_eq_self (List.Subset.refl _) fun _ hx => not_infix_changeImports hx content

private theorem return_not_mem_changeEach {order : List (String × String)}
    (horder : order ⊆ importChanges) (h : '\r' ∉ content.toList) :
    '\r' ∉ (changeEach order content).toList := by
  have hnew : ∀ x ∈ importChanges, '\r' ∉ x.2.toList := by decide
  induction order generalizing content with
  | nil => exact h
  | cons x order ih =>
    rw [List.cons_subset] at horder
    have hfirst : '\r' ∉ (replaced content x.1 x.2).toList := by
      rw [replaced, String.toList_ofList]
      intro hmem
      rcases mem_replaceAll hmem with hold | hbrought
      · exact h hold
      · exact hnew x horder.1 hbrought
    exact ih horder.2 hfirst

private theorem return_not_mem_changeImports (h : '\r' ∉ content.toList) :
    '\r' ∉ (changeImports content).toList :=
  return_not_mem_changeEach (List.Subset.refl _) h

/-! Files with changed imports. -/

variable {t t' t'' : FileTree} {p : Path} {s : String}

/-- Trees of one shape in which every file reads as before or with its imports changed. -/
structure Rewritten (t t' : FileTree) : Prop where
  shape : t.SameShape t'
  texts : ∀ q, t'.readText q = t.readText q ∨ t'.readText q = (t.readText q).map changeImports

theorem Rewritten.refl (t : FileTree) : Rewritten t t := ⟨rfl, fun _ => .inl rfl⟩

private theorem map_map_changeImports (r : Except FileFault String) :
    (r.map changeImports).map changeImports = r.map changeImports := by
  cases r with
  | error e => rfl
  | ok s => exact congrArg Except.ok (changeImports_changeImports s)

theorem Rewritten.trans (h : Rewritten t t') (h' : Rewritten t' t'') : Rewritten t t'' := by
  refine ⟨h.shape.trans h'.shape, fun q => ?_⟩
  rcases h'.texts q with hlater | hlater
  · rw [hlater]
    exact h.texts q
  · rw [hlater]
    rcases h.texts q with hfirst | hfirst
    · exact .inr (by rw [hfirst])
    · exact .inr (by rw [hfirst, map_map_changeImports])

private theorem Rewritten.readText_eq (h : Rewritten t t')
    (hread : t.readText p = .ok (changeImports s)) : t'.readText p = .ok (changeImports s) := by
  rcases h.texts p with hsame | hchanged
  · rw [hsame, hread]
  · rw [hchanged, hread]
    exact congrArg Except.ok (changeImports_changeImports s)

private theorem Rewritten.exists_readText (h : Rewritten t t') (hread : t'.readText p = .ok s) :
    ∃ before, t.readText p = .ok before ∧ changeImports s = changeImports before := by
  rcases h.texts p with hsame | hchanged
  · exact ⟨s, hsame ▸ hread, rfl⟩
  · rw [hchanged] at hread
    cases hbefore : t.readText p with
    | error e =>
      rw [hbefore] at hread
      cases hread
    | ok before =>
      rw [hbefore] at hread
      exact ⟨before, rfl, by rw [← Except.ok.inj hread, changeImports_changeImports]⟩

private theorem rewritten_writeText (ht : t.Ordered) (hread : t.readText p = .ok s)
    (hwrite : t.writeText p (changeImports s) = .ok t') :
    Rewritten t t' ∧ t'.readText p = .ok (changeImports s) := by
  have hreturn := return_not_mem_changeImports (FileTree.return_not_mem_of_readText hread)
  have hself : t'.readText p = .ok (changeImports s) :=
    Json.readText_of_readContent hreturn (FileTree.readContent_of_writeContent hwrite)
  refine ⟨?_, hself⟩
  obtain ⟨old, hcontent, htext⟩ := FileTree.readText_eq_ok_iff.mp hread
  obtain ⟨place, hplace, hold⟩ := FileTree.readContent_eq_ok_iff.mp hcontent
  obtain ⟨written, hwritten, -, rfl⟩ := FileTree.writeContent_eq_ok hwrite
  obtain rfl : place = written := Except.ok.inj (hplace.symm.trans hwritten)
  have hshape := FileTree.sameShape_put ht hold (.bytes (changeImports s).toUTF8)
  refine ⟨hshape, fun q => ?_⟩
  by_cases hq : t.locate q = .ok place
  · -- Another path to the same file has read its text too and reads the new one now.
    right
    have hbefore : t.readText q = .ok s := FileTree.readText_eq_ok_iff.mpr
      ⟨old, FileTree.readContent_eq_ok_iff.mpr ⟨place, hq, hold⟩, htext⟩
    have hafter := FileTree.readContent_put_self hshape hq hold
    rw [Json.readText_of_readContent hreturn hafter, hbefore]
    rfl
  · left
    rw [FileTree.readText_eq_bind, FileTree.readText_eq_bind,
      FileTree.readContent_put_of_ne hshape hq]

/-! Runs over files. -/

variable {m : Migration} {w w' : Workspace} {r : Except Fault Unit}

private theorem updateFile_cases (h : m.updateFile p w = (r, w')) :
    (∃ e, w.files.readText p = .error e ∧ r = .error (.file e) ∧ w' = w) ∨
      (∃ s, w.files.readText p = .ok s ∧ changeImports s = s ∧ r = .ok () ∧ w' = w) ∨
      ∃ s, w.files.readText p = .ok s ∧ r = .ok () ∧
        w.files.writeText p (changeImports s) = .ok w'.files := by
  rw [updateFile] at h
  cases hread : w.files.readText p with
  | error e =>
    have hfault : Work.readText p w = (.error (.file e), w) := Work.ask_error hread
    rw [Work.bind_error hfault] at h
    obtain ⟨rfl, rfl⟩ := Prod.mk.inj h
    exact .inl ⟨e, rfl, rfl, rfl⟩
  | ok s =>
    have htext : Work.readText p w = (.ok s, w) := Work.ask_ok hread
    rw [Work.bind_ok htext] at h
    right
    by_cases hsame : changeImports s = s
    · rw [if_neg (by simp [hsame])] at h
      obtain ⟨rfl, rfl⟩ := Prod.mk.inj h
      exact .inl ⟨s, rfl, hsame, rfl, rfl⟩
    · rw [if_pos (by simpa using hsame)] at h
      obtain ⟨old, hcontent, -⟩ := FileTree.readText_eq_ok_iff.mp hread
      obtain ⟨t, hwrite⟩ :=
        FileTree.writeContent_isOk_of_readContent hcontent (.bytes (changeImports s).toUTF8)
      have hdone : Work.writeText p (changeImports s) w = (.ok (), { w with files := t }) :=
        Work.change_ok hwrite
      rw [Work.bind_ok hdone] at h
      obtain ⟨rfl, rfl⟩ := Prod.mk.inj h
      exact .inr ⟨s, rfl, rfl, hwrite⟩

private theorem updateFile_of_changeImports_eq (hread : w.files.readText p = .ok s)
    (hsame : changeImports s = s) : m.updateFile p w = (.ok (), w) := by
  have htext : Work.readText p w = (.ok s, w) := Work.ask_ok hread
  rw [updateFile, Work.bind_ok htext, if_neg (by simp [hsame])]
  rfl

private theorem updateFile_step (hw : w.files.Ordered) (h : m.updateFile p w = (r, w')) :
    Rewritten w.files w'.files ∧
      ((∃ e, r = .error e ∧ w' = w) ∨
        ∃ s, r = .ok () ∧ w.files.readText p = .ok s ∧
          w'.files.readText p = .ok (changeImports s)) := by
  rcases updateFile_cases h with ⟨e, hread, rfl, rfl⟩ | ⟨s, hread, hsame, rfl, rfl⟩ |
    ⟨s, hread, rfl, hwrite⟩
  · exact ⟨.refl _, .inl ⟨_, rfl, rfl⟩⟩
  · exact ⟨.refl _, .inr ⟨s, rfl, hread, by rw [hread, hsame]⟩⟩
  · obtain ⟨hrewritten, hafter⟩ := rewritten_writeText hw hread hwrite
    exact ⟨hrewritten, .inr ⟨s, rfl, hread, hafter⟩⟩

/-- What a run over files leaves behind: a second run ends in the same way and changes nothing. -/
private theorem forM_updateFile (ps : List Path) (hw : w.files.Ordered)
    (h : ps.forM m.updateFile w = (r, w')) :
    Rewritten w.files w'.files ∧ ps.forM m.updateFile w' = (r, w') ∧
      (r = .ok () → ∀ p ∈ ps, ∃ s, w.files.readText p = .ok s ∧
        w'.files.readText p = .ok (changeImports s)) := by
  induction ps generalizing w with
  | nil =>
    obtain ⟨rfl, rfl⟩ := Prod.mk.inj h
    exact ⟨.refl _, rfl, fun _ p hp => by cases hp⟩
  | cons p ps ih =>
    have hcons : (p :: ps).forM m.updateFile =
        m.updateFile p >>= fun _ => ps.forM m.updateFile := rfl
    rw [hcons] at h ⊢
    rcases hfirst : m.updateFile p w with ⟨r₁, w₁⟩
    obtain ⟨hrewritten, ⟨e, rfl, rfl⟩ | ⟨s, rfl, hread, hafter⟩⟩ := updateFile_step hw hfirst
    · rw [Work.bind_error hfirst] at h
      obtain ⟨rfl, rfl⟩ := Prod.mk.inj h
      exact ⟨.refl _, Work.bind_error hfirst _, fun hok => by cases hok⟩
    · rw [Work.bind_ok hfirst] at h
      obtain ⟨hrest, hagain, htexts⟩ := ih (hrewritten.shape.ordered hw) h
      have hkept := hrest.readText_eq hafter
      have hpass := updateFile_of_changeImports_eq (m := m) hkept (changeImports_changeImports s)
      refine ⟨hrewritten.trans hrest, (Work.bind_ok hpass _).trans hagain, fun hok q hq => ?_⟩
      rcases List.mem_cons.mp hq with rfl | hq
      · exact ⟨s, hread, hkept⟩
      · obtain ⟨later, hlater, hafter'⟩ := htexts hok q hq
        obtain ⟨first, hfirst', hsame⟩ := hrewritten.exists_readText hlater
        exact ⟨first, hfirst', by rw [hafter', hsame]⟩

/-! Runs over a tree. -/

def sources (m : Migration) (t : FileTree) : Except FileFault (List Path) :=
  (Glob.findBelow t m.target [.name "src", .anyDepth, .wildcard "*.py"]).map
    (·.filter (·.name != "__init__.py"))

private theorem updateImports_of_error {e : FileFault} (h : m.sources w.files = .error e) :
    m.updateImports w = (.error (.file e), w) := by
  rw [sources] at h
  rw [updateImports]
  cases hfound : Glob.findBelow w.files m.target [.name "src", .anyDepth, .wildcard "*.py"] with
  | error f =>
    rw [hfound] at h
    obtain rfl := Except.error.inj h
    exact Work.bind_error (Work.ask_error hfound) _
  | ok found =>
    rw [hfound] at h
    cases h

private theorem updateImports_of_ok {found : List Path} (h : m.sources w.files = .ok found) :
    m.updateImports w = found.forM m.updateFile w := by
  rw [sources] at h
  rw [updateImports]
  cases hfound : Glob.findBelow w.files m.target [.name "src", .anyDepth, .wildcard "*.py"] with
  | error f =>
    rw [hfound] at h
    cases h
  | ok all =>
    rw [hfound] at h
    obtain rfl := Except.ok.inj h
    exact Work.bind_ok (Work.ask_ok hfound) _

/-- What changing the imports comes to in a workspace: if it ends well, all sources have their
imports changed, and doing it again ends in the same way, writes nothing and prints nothing. -/
structure Rerun (m : Migration) (w : Workspace) : Prop where
  texts : (m.updateImports w).1 = .ok () → ∃ found, m.sources w.files = .ok found ∧
    ∀ p ∈ found, ∃ s, w.files.readText p = .ok s ∧
      (m.updateImports w).2.files.readText p = .ok (changeImports s)
  again : m.updateImports (m.updateImports w).2 = m.updateImports w

private theorem rerun_of_ordered (m : Migration) (hw : w.files.Ordered) : m.Rerun w := by
  cases hsources : m.sources w.files with
  | error e =>
    have hrun := updateImports_of_error hsources
    refine ⟨fun hok => ?_, by rw [hrun, hrun]⟩
    rw [hrun] at hok
    cases hok
  | ok found =>
    have hrun := updateImports_of_ok hsources
    rcases hresult : found.forM m.updateFile w with ⟨r, w'⟩
    obtain ⟨hrewritten, hagain, htexts⟩ := forM_updateFile found hw hresult
    have hsame : m.sources w'.files = .ok found := by
      rw [sources, ← hrewritten.shape.findBelow]
      exact hsources
    rw [hresult] at hrun
    refine ⟨fun hok => ⟨found, hsources, ?_⟩, ?_⟩
    · rw [hrun] at hok ⊢
      exact htexts hok
    · rw [hrun, updateImports_of_ok hsame, hagain]

/-- Changing imports leaves no old beginning in a text, comes to the same in every order, and has
nothing to do a second time, neither in a text nor in a tree. -/
theorem changeImports_repeatable (content : String) :
    (∀ x ∈ importChanges, ¬x.1.toList <:+: (changeImports content).toList) ∧
      (∀ order : List (String × String), order.Perm importChanges →
        changeEach order content = changeImports content) ∧
      changeImports (changeImports content) = changeImports content ∧
      ∀ (m : Migration) (w : Workspace), w.files.Ordered → m.Rerun w :=
  ⟨fun _ hx => not_infix_changeImports hx content, fun _ h => changeEach_of_perm h content,
    changeImports_changeImports content, fun m _ hw => rerun_of_ordered m hw⟩

/-- A tree with one source to be changed, one that only marks its directory, and one outside. -/
def moved : Workspace where
  files := { entries :=
    [(["a.py"], .file (.bytes "from core.a import b".toUTF8)), (["src"], .directory),
      (["src", "__init__.py"], .file (.bytes "from utils.a import b".toUTF8)),
      (["src", "a.py"], .file (.bytes "from core.from models.a\r\n".toUTF8))] }
  now := ⟨0, none⟩

def inPlace : Migration := { source := .ofString ".", target := .ofString "." }

theorem changeImports_repeatable_moved :
    moved.files.Ordered ∧
      (inPlace.updateImports moved).2.printed = "   Updated imports in src/a.py\n" ∧
      inPlace.Rerun moved ∧
      changeImports "from core.from models.a\n" =
        "from src.infrastructure.from src.domain.entities.a\n" ∧
      changeEach importChanges.reverse "from core.from models.a\n" =
        changeImports "from core.from models.a\n" := by
  have hordered : moved.files.Ordered := by
    rw [FileTree.Ordered]
    decide
  obtain ⟨-, horder, -, hrerun⟩ := changeImports_repeatable "from core.from models.a\n"
  exact ⟨hordered, by decide +kernel, hrerun inPlace moved hordered, by decide +kernel,
    horder _ (List.reverse_perm importChanges)⟩

end Migration
end SuiteTidy

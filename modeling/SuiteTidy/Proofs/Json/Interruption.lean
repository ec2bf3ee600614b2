import SuiteTidy.Proofs.Files.Held
import SuiteTidy.Proofs.Json.Refusal

/-!
Values that are saved to a file while they are written out. Writing stops at the first key that
cannot be one and at the first integer with too many digits, however deep in the value. The file has
been opened by then, and it keeps what was written. Main statement: a value is saved exactly if the
file can be opened and the value can be written out; otherwise the file stays as it was exactly if
it cannot be opened, or holds by chance what was written.
-/

set_option autoImplicit false
set_option relaxedAutoImplicit false

namespace SuiteTidy.FileTree

/-! Files that can be opened. -/

/-- A path leads to a file that can be written, once the directories above it have been made as far
as possible. -/
def Opens (t : FileTree) (p : Path) : Prop :=
  ∃ t', (t.ensured p.parent).writeText p "" = .ok t'

variable {t : FileTree} {p : Path}

private theorem opens_of_readContent {c : Content}
    (h : (t.ensured p.parent).readContent p = .ok c) : t.Opens p :=
  writeContent_isOk_of_readContent h _

private theorem readContent_ensured {c : Content} (h : t.readContent p = .ok c) (q : Path) :
    (t.ensured q).readContent p = .ok c := by
  have hfurnished := furnished_ensured q t
  obtain ⟨place, hplace, hfile⟩ := readContent_eq_ok_iff.mp h
  refine readContent_eq_ok_iff.mpr ⟨place, locate_eq_ok hfurnished.directories_stay hplace, ?_⟩
  rw [← fileAt_eq_some_iff, hfurnished.same_files, fileAt_eq_some_iff]
  exact hfile

theorem Opens.makeDirectoriesTo (h : t.Opens p) :
    (makeDirectoriesTo p.parent p.parent.parts.length t).1 = .ok () := by
  obtain ⟨t', hwritten⟩ := h
  obtain ⟨place, hplace, hfree, -⟩ := writeContent_eq_ok hwritten
  refine makeDirectoriesTo_isOk le_rfl ?_
  rw [List.take_length]
  exact isDir_parent (parts_ne_nil_of_locate hplace hfree) hplace

end SuiteTidy.FileTree

namespace SuiteTidy.Json

open SuiteTidy.FileTree SuiteTidy.Work

variable {t t' : FileTree} {p : Path} {d : Datum} {now : Moment}

private theorem fault_readable (d : Datum) : (render .readable d).fault = none ↔ Encodable d := by
  have hrender : render .readable d = write .readable 0 d := rfl
  rw [hrender]
  exact fault_write rfl d 0

private theorem leads_save_opened (h : t.Opens p)
    (hwritten : (t.ensured p.parent).writeText p (render .readable d).text = .ok t') :
    Leads (save d p) now t (.ok (render .readable d).fault.isNone) t' := by
  have hdirs : Leads (makeDirectories p.parent) now t (.ok ()) (t.ensured p.parent) :=
    (acts_makeDirectoriesTo p.parent _).leads (Prod.ext h.makeDirectoriesTo rfl)
  have hwrite : Leads (Work.writeText p (render .readable d).text) now (t.ensured p.parent)
      (.ok ()) t' := Leads.change hwritten
  cases hfault : (render .readable d).fault with
  | none =>
    refine Leads.orElse (r := .ok true) (hdirs.bind ?_) false
    refine hwrite.bind ?_
    rw [hfault]
    exact Leads.pure true
  | some f =>
    refine Leads.orElse (r := .error (.json f)) (hdirs.bind ?_) false
    refine hwrite.bind ?_
    rw [hfault]
    exact (Acts.throw _).leads rfl

private theorem leads_save_shut (h : ¬ t.Opens p) :
    Leads (save d p) now t (.ok false) (t.ensured p.parent) := by
  have hdirs := acts_makeDirectoriesTo p.parent p.parent.parts.length
  cases hmade : (makeDirectoriesTo p.parent p.parent.parts.length t).1 with
  | error f => exact (Leads.bind_error (hdirs.leads (Prod.ext hmade rfl))).orElse false
  | ok u =>
    cases hwritten : (t.ensured p.parent).writeText p (render .readable d).text with
    | ok t' => exact absurd (writeContent_isOk hwritten _) h
    | error e =>
      refine Leads.orElse (r := .error (.file e))
        (Leads.bind (hdirs.leads (Prod.ext hmade rfl)) ?_) false
      have hwrite : Leads (Work.writeText p (render .readable d).text) now (t.ensured p.parent)
          (.error (.file e)) (t.ensured p.parent) := Leads.change_error hwritten
      exact hwrite.bind_error

/-- A value is saved to a file exactly if the file can be opened and the value can be written out.
If it is not saved, the file keeps what it held, or stays away, exactly if it cannot be opened or
held what was written of the value. No other file changes. -/
theorem save_keeps_file_iff (d : Datum) (p : Path) (w : Workspace) :
    ∃ done w', save d p w = (.ok done, w') ∧
      (done = true ↔ w.files.Opens p ∧ Encodable d) ∧
      (w.files.Opens p →
        w'.files.readContent p = .ok (.bytes (render .readable d).text.toUTF8)) ∧
      (done = false →
        ((w'.files.readContent p).toOption = (w.files.readContent p).toOption ↔
          (w.files.Opens p →
            w.files.readContent p = .ok (.bytes (render .readable d).text.toUTF8)))) ∧
      ∀ place, w'.files.fileAt place ≠ w.files.fileAt place →
        (w.files.ensured p.parent).locate p = .ok place := by
  have hfurnished := furnished_ensured p.parent w.files
  -- Opening the file is where it is lost: after that it holds what was written, all of it or not.
  by_cases hopens : w.files.Opens p
  · have ⟨opened, hopened⟩ := hopens
    obtain ⟨t', hwritten⟩ := writeContent_isOk hopened (.bytes (render .readable d).text.toUTF8)
    obtain ⟨w', hrun, -, rfl⟩ := leads_save_opened hopens hwritten w rfl rfl
    have hread := readContent_of_writeContent hwritten
    refine ⟨_, w', hrun, ?_, fun _ => hread, fun _ => ?_, fun place hchanged => ?_⟩
    · rw [Option.isNone_iff_eq_none, fault_readable]
      exact ⟨fun h => ⟨hopens, h⟩, And.right⟩
    · rw [hread]
      cases w.files.readContent p with
      | error f => simp [Except.toOption, hopens]
      | ok c => simp [Except.toOption, hopens, eq_comm]
    · obtain ⟨found, hfound, hfree, hput⟩ := writeContent_eq_ok hwritten
      by_contra hne
      refine hchanged ?_
      have hapart : place ≠ found := fun heq => hne (heq ▸ hfound)
      rw [hput, fileAt_put_file hfree, if_neg hapart, hfurnished.same_files]
  · obtain ⟨w', hrun, -, hfiles⟩ := leads_save_shut (d := d) hopens w rfl rfl
    have hunread : ∀ c, w'.files.readContent p ≠ .ok c := by
      intro c hread
      rw [hfiles] at hread
      exact hopens (opens_of_readContent hread)
    have hmissing : ∀ c, w.files.readContent p ≠ .ok c := by
      intro c hread
      exact hopens (opens_of_readContent (readContent_ensured hread _))
    refine ⟨false, w', hrun, ?_, fun h => absurd h hopens, fun _ => ?_, fun place hchanged => ?_⟩
    · simp [hopens]
    · cases hafter : w'.files.readContent p with
      | ok c => exact absurd hafter (hunread c)
      | error f =>
        cases hbefore : w.files.readContent p with
        | ok c => exact absurd hbefore (hmissing c)
        | error f' => simp [Except.toOption, hopens]
    · rw [hfiles, hfurnished.same_files] at hchanged
      exact absurd rfl hchanged

def wrongKey : Datum := .dict [(.text "a", .int 1), (.tuple [.int 1], .int 2)]

def oneDocument : Workspace :=
  { now := { micros := 0 }
    files := { entries := [(["out.json"], .file (.bytes "keep".toUTF8))] } }

/-- The value is not saved, and what the file held is gone. -/
theorem save_keeps_file_iff_wrongKey :
    ∃ w', save wrongKey { parts := ["out.json"] } oneDocument = (.ok false, w') ∧
      oneDocument.files.readContent { parts := ["out.json"] } = .ok (.bytes "keep".toUTF8) ∧
      w'.files.readContent { parts := ["out.json"] } = .ok (.bytes "\x7b\n  \"a\": 1".toUTF8) ∧
      (w'.files.readContent { parts := ["out.json"] }).toOption ≠
        (oneDocument.files.readContent { parts := ["out.json"] }).toOption := by
  have hopens : oneDocument.files.Opens { parts := ["out.json"] } := ⟨_, rfl⟩
  have hbroken : ¬ Encodable wrongKey := by
    simp [wrongKey, Encodable, EncodableFields, EncodableKey]
  have htext : (render .readable wrongKey).text = "\x7b\n  \"a\": 1" := by decide +kernel
  have hbefore : oneDocument.files.readContent { parts := ["out.json"] } =
      .ok (.bytes "keep".toUTF8) := rfl
  obtain ⟨done, w', hrun, hdone, hwritten, hkept, -⟩ :=
    save_keeps_file_iff wrongKey { parts := ["out.json"] } oneDocument
  obtain rfl : done = false := by
    rw [← Bool.not_eq_true, hdone]
    exact fun h => hbroken h.2
  rw [htext] at hwritten hkept
  refine ⟨w', hrun, hbefore, hwritten hopens, fun hsame => ?_⟩
  have hchance := (hkept rfl).mp hsame hopens
  rw [hbefore] at hchance
  have hequal := String.toByteArray_inj.mp (Content.bytes.inj (Except.ok.inj hchance))
  exact absurd hequal (by decide)

end SuiteTidy.Json

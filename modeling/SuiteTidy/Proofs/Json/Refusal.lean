import SuiteTidy.Proofs.Json.Kept

/-!
Documents that are not stored. A value can be written out exactly if every key in it can be one and
no integer has too many digits, and no file of a name can be written where the name is too long or a
directory has it. The files are then left as they were.
-/

set_option autoImplicit false
set_option relaxedAutoImplicit false

namespace SuiteTidy.Json

/-! Values that can be written out. -/

def EncodableKey : Datum → Prop
  | .text _ | .real _ | .bool _ | .null => True
  | .int n => ShortInt n
  | _ => False

mutual
/-- A value that can be written out: no integer in it has too many digits, and every key is a text,
a number, a truth value or nothing. -/
def Encodable : Datum → Prop
  | .int n => ShortInt n
  | .list xs => EncodableAll xs
  | .tuple xs => EncodableAll xs
  | .dict fs => EncodableFields fs
  | _ => True

def EncodableAll : List Datum → Prop
  | [] => True
  | x :: xs => Encodable x ∧ EncodableAll xs

def EncodableFields : List (Datum × Datum) → Prop
  | [] => True
  | (k, v) :: rest => EncodableKey k ∧ Encodable v ∧ EncodableFields rest
end

theorem encodable_list_iff {xs : List Datum} : Encodable (.list xs) ↔ ∀ x ∈ xs, Encodable x := by
  rw [Encodable]
  induction xs with
  | nil => simp [EncodableAll]
  | cons x xs ih => rw [EncodableAll, ih, List.forall_mem_cons]

theorem encodable_record_iff {fs : List (String × Datum)} :
    Encodable (.record fs) ↔ ∀ f ∈ fs, Encodable f.2 := by
  rw [Datum.record, Encodable]
  induction fs with
  | nil => simp [EncodableFields]
  | cons f fs ih =>
    rw [List.map_cons, EncodableFields, ih, List.forall_mem_cons, EncodableKey, true_and]

private theorem Written.fault_andThen {a b : Written} :
    (a.andThen b).fault = none ↔ a.fault = none ∧ b.fault = none := by
  rw [Written.andThen]
  cases ha : a.fault <;> simp [ha]

private theorem fault_led {lead : String} {item : Datum} {w : Written} :
    (led lead item w).fault = none ↔ w.fault = none := by
  unfold led
  split
  · rfl
  · simp [Written.fault_andThen, Written.done]

private theorem fault_intWritten (n : Int) : (intWritten n).fault = none ↔ ShortInt n := by
  rw [intWritten, ShortInt]
  split_ifs with hlong
  · simpa using hlong
  · simpa [Written.done] using hlong

private theorem keyText_isOk_iff (k : Datum) : (∃ s, keyText k = .ok s) ↔ EncodableKey k := by
  cases k with
  | int n =>
    rw [EncodableKey, ← fault_intWritten, keyText, Written.toExcept]
    cases (intWritten n).fault <;> simp
  | _ => simp [keyText, EncodableKey]

mutual
/-- A value is written to its end exactly if it can be written out. -/
theorem fault_write {layout : Layout} (hlax : layout.strict = false) : ∀ (d : Datum) (level : Nat),
    (write layout level d).fault = none ↔ Encodable d
  | .int n, _ => by
    rw [write, Encodable]
    exact fault_intWritten n
  | .list [], _ => by simp [write, Encodable, EncodableAll, Written.done]
  | .list (x :: xs), level => by
    rw [write, closed, Written.fault_andThen, Encodable, fault_writeItems hlax (x :: xs)]
    · simp [Written.done]
    · simp
  | .tuple [], _ => by simp [write, Encodable, EncodableAll, Written.done]
  | .tuple (x :: xs), level => by
    rw [write, closed, Written.fault_andThen, Encodable, fault_writeItems hlax (x :: xs)]
    · simp [Written.done]
    · simp
  | .dict [], _ => by simp [write, Encodable, EncodableFields, Written.done]
  | .dict (f :: fs), level => by
    rw [write, closed, Written.fault_andThen, Written.fault_andThen, Encodable,
      fault_writeFields hlax (f :: fs)]
    · simp [Written.done]
    · simp
  | .null, _ | .bool _, _ | .real _, _ | .text _, _ => by simp [write, Encodable, Written.done]
  | .bytes _, _ | .path _, _ | .moment _, _ | .member _ _ _, _ | .kind _, _ | .failure _ _, _ => by
    simp [write, Encodable, Written.done, hlax]

private theorem fault_writeItems {layout : Layout} (hlax : layout.strict = false) :
    ∀ (xs : List Datum) (level : Nat) (lead : String),
    (writeItems layout level lead xs).fault = none ↔ EncodableAll xs
  | [], _, _ => by simp [writeItems, EncodableAll, Written.done]
  | x :: xs, level, lead => by
    rw [writeItems, Written.fault_andThen, fault_led, EncodableAll, fault_write hlax x,
      fault_writeItems hlax xs]

private theorem fault_writeFields {layout : Layout} (hlax : layout.strict = false) :
    ∀ (fs : List (Datum × Datum)) (level : Nat) (first : Bool),
    (writeFields layout level first fs).fault = none ↔ EncodableFields fs
  | [], _, _ => by simp [writeFields, EncodableFields, Written.done]
  | (k, v) :: fs, level, first => by
    rw [writeFields, EncodableFields, ← keyText_isOk_iff]
    cases hk : keyText k with
    | error f => simp
    | ok s =>
      simp only [Written.fault_andThen, fault_write hlax v, fault_writeFields hlax fs]
      simp [Written.done]
end

theorem encodable_of_text {layout : Layout} (hsort : layout.sortKeys = false)
    (hlax : layout.strict = false) {d : Datum} {s : String} (h : text layout d = .ok s) :
    Encodable d := by
  have hrender : render layout d = write layout 0 d := by rw [render, hsort]; rfl
  rw [text, hrender, Written.toExcept] at h
  cases hfault : (write layout 0 d).fault with
  | none => exact (fault_write hlax d 0).mp hfault
  | some f =>
    simp only [hfault] at h
    cases h

end SuiteTidy.Json

namespace SuiteTidy.FileTree

/-! Names that cannot be written. -/

def Room (t : FileTree) (folder : Path) (name : String) : Prop :=
  name.utf8ByteSize ≤ nameLimit ∧ t.isDir (folder.below name) ≠ .ok true

variable {t t' : FileTree} {folder : Path} {name : String}

theorem OneName.room_iff (h : OneName name) {place : Place} (hplace : t.locate folder = .ok place)
    (hdir : t.lookup place = some .directory) :
    t.Room folder name ↔
      name.utf8ByteSize ≤ nameLimit ∧ t.lookup (place ++ [name]) ≠ some .directory := by
  rw [Room, and_congr_right_iff]
  intro hshort
  have hchild := h.locate_below hplace hdir
  rw [if_neg (Nat.not_lt.mpr hshort)] at hchild
  rw [Ne, Ne, not_iff_not, isDir_eq_true_iff, hchild]
  simp

private theorem writeText_refused (hname : OneName name) (hdir : t.isDir folder = .ok true)
    (hroom : ¬t.Room folder name) (s : String) :
    ∃ e, t.writeText (folder.below name) s = .error e := by
  rw [writeText, writeContent]
  by_cases hshort : name.utf8ByteSize ≤ nameLimit
  · have htaken : t.isDir (folder.below name) = .ok true := by
      by_contra hfree
      exact hroom ⟨hshort, hfree⟩
    obtain ⟨place, hplace, hentry⟩ := isDir_eq_true_iff.mp htaken
    exact ⟨.isDirectory (folder.below name), by simp only [hplace, hentry, bind, Except.bind]⟩
  · obtain ⟨place, hplace, hentry⟩ := isDir_eq_true_iff.mp hdir
    have hlong := hname.locate_below hplace hentry
    rw [if_pos (Nat.lt_of_not_le hshort)] at hlong
    exact ⟨.nameTooLong (folder.below name), by simp only [hlong, bind, Except.bind]⟩

theorem SameDirectories.room_iff (h : SameDirectories t t') :
    t'.Room folder name ↔ t.Room folder name := by
  have hdir : t'.isDir (folder.below name) = .ok true ↔ t.isDir (folder.below name) = .ok true :=
    ⟨isDir_of_keepsDirectories h.2, isDir_of_keepsDirectories h.1⟩
  rw [Room, Room, Ne, Ne, hdir]

end SuiteTidy.FileTree

namespace SuiteTidy.Json

open SuiteTidy.FileTree SuiteTidy.Work

theorem store_error {layout : Layout} {d : Datum} {q : Path} {w w' : Workspace}
    {f : SuiteTidy.Fault} (h : store layout d q w = (.error f, w')) : w' = w := by
  rw [store] at h
  cases htext : text layout d with
  | error e =>
    rw [Work.bind_error (Work.lift_error htext w)] at h
    exact (Prod.mk.inj h).2.symm
  | ok s =>
    rw [Work.bind_ok (Work.lift_ok htext w)] at h
    cases hwritten : w.files.writeText q s with
    | error e =>
      have hwrite : Work.writeText q s w = (.error (.file e), w) := Work.change_error hwritten
      rw [hwrite] at h
      exact (Prod.mk.inj h).2.symm
    | ok t =>
      have hwrite : Work.writeText q s w = (.ok (), { w with files := t }) :=
        Work.change_ok hwritten
      rw [hwrite] at h
      cases (Prod.mk.inj h).1

private theorem leads_store_error (now : Moment) {layout : Layout} {t : FileTree} {p : Path}
    {d : Datum} (h : ∀ s, text layout d = .ok s → ∃ e, t.writeText p s = .error e) :
    ∃ f, Leads (store layout d p) now t (.error f) t := by
  cases htext : text layout d with
  | error f => exact ⟨.json f, (Leads.lift_error htext).bind_error⟩
  | ok s =>
    obtain ⟨e, hrefused⟩ := h s htext
    exact ⟨.file e, (Leads.lift htext).bind (Leads.change_error hrefused)⟩

theorem leads_store_refused (now : Moment) {layout : Layout} (hsort : layout.sortKeys = false)
    (hlax : layout.strict = false) {t : FileTree} {folder : Path} {name : String} {d : Datum}
    (hname : OneName name) (hdir : t.isDir folder = .ok true)
    (h : ¬(Encodable d ∧ t.Room folder name)) :
    ∃ f, Leads (store layout d (folder.below name)) now t (.error f) t := by
  refine leads_store_error now fun s hs => writeText_refused hname hdir (fun hroom => ?_) s
  exact h ⟨encodable_of_text hsort hlax hs, hroom⟩

theorem leads_store_closed (now : Moment) (layout : Layout) {t : FileTree} {folder : Path}
    {name : String} (d : Datum) (hname : OneName name) (hdir : t.isDir folder ≠ .ok true) :
    ∃ f, Leads (store layout d (folder.below name)) now t (.error f) t := by
  refine leads_store_error now fun s _ => ?_
  cases hwrite : t.writeText (folder.below name) s with
  | error e => exact ⟨e, rfl⟩
  | ok t' =>
    obtain ⟨place, hplace, -⟩ := writeContent_eq_ok hwrite
    rw [Path.below_eq hname.slash hname.nonempty hname.dot] at hplace
    have hparent := isDir_parent (by simp) hplace
    simp only [Path.parent, List.dropLast_concat] at hparent
    exact absurd hparent hdir

end SuiteTidy.Json

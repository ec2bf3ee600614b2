import SuiteTidy.Proofs.Files.Safe

/-!
What writing leaves alone. A tree grows at some places if files were written there and directories
made above them, and nothing else happened. Main statement: writing a text to a file makes the tree
grow at the place of the file alone, whether it works or breaks off on the way.
-/

set_option autoImplicit false
set_option relaxedAutoImplicit false

namespace SuiteTidy.FileTree

/-- A tree that came from another by writing files at some places and making directories above
them. What was there is there still, and files elsewhere hold what they held. -/
structure GrownAt (targets : Place → Prop) (t t' : FileTree) : Prop where
  file_kept : ∀ place c, t.lookup place = some (.file c) → ¬ targets place →
    t'.lookup place = some (.file c)
  file_stays : ∀ place c, t.lookup place = some (.file c) → ∃ c', t'.lookup place = some (.file c')
  directory_stays : KeepsDirectories t t'
  new_file : ∀ place c, t.lookup place = none → t'.lookup place = some (.file c) → targets place
  new_directory : ∀ place, t.lookup place = none → t'.lookup place = some .directory →
    ∃ target, targets target ∧ place <+: target ∧ place ≠ target

variable {targets : Place → Prop} {t t' t'' : FileTree}

theorem GrownAt.refl (targets : Place → Prop) (t : FileTree) : GrownAt targets t t where
  file_kept _ _ h _ := h
  file_stays _ c h := ⟨c, h⟩
  directory_stays _ h := h
  new_file _ _ hnone hfile := by simp [hnone] at hfile
  new_directory _ hnone hdir := by simp [hnone] at hdir

theorem GrownAt.trans (h : GrownAt targets t t') (h' : GrownAt targets t' t'') :
    GrownAt targets t t'' where
  file_kept place c hfile hfree := h'.file_kept place c (h.file_kept place c hfile hfree) hfree
  file_stays place c hfile := by
    obtain ⟨c', hfile'⟩ := h.file_stays place c hfile
    exact h'.file_stays place c' hfile'
  directory_stays := h.directory_stays.trans h'.directory_stays
  new_file place c hnone hfile := by
    cases hmid : t'.lookup place with
    | none => exact h'.new_file place c hmid hfile
    | some e =>
      cases e with
      | file c' => exact h.new_file place c' hnone hmid
      | directory => simp [h'.directory_stays place hmid] at hfile
  new_directory place hnone hdir := by
    cases hmid : t'.lookup place with
    | none => exact h'.new_directory place hmid hdir
    | some e =>
      cases e with
      | file c =>
        obtain ⟨c', hfile⟩ := h'.file_stays place c hmid
        simp [hfile] at hdir
      | directory => exact h.new_directory place hnone hmid

theorem GrownAt.mono {targets' : Place → Prop} (hsub : ∀ place, targets place → targets' place)
    (h : GrownAt targets t t') : GrownAt targets' t t' where
  file_kept place c hfile hfree := h.file_kept place c hfile fun htarget => hfree (hsub _ htarget)
  file_stays := h.file_stays
  directory_stays := h.directory_stays
  new_file place c hnone hfile := hsub _ (h.new_file place c hnone hfile)
  new_directory place hnone hdir := by
    obtain ⟨target, htarget, habove⟩ := h.new_directory place hnone hdir
    exact ⟨target, hsub _ htarget, habove⟩

/-! One entry more. -/

theorem grownAt_put_file {place : Place} (hfree : t.lookup place ≠ some .directory)
    (htarget : targets place) (c : Content) : GrownAt targets t (t.put place (.file c)) where
  file_kept other c' hfile hother := by
    have hne : other ≠ place := fun heq => hother (heq ▸ htarget)
    rw [lookup_put_of_ne t hne, hfile]
  file_stays other c' hfile := by
    by_cases hne : other = place
    · exact ⟨c, by rw [hne, lookup_put_self (not_surrounding hfree)]⟩
    · exact ⟨c', by rw [lookup_put_of_ne t hne, hfile]⟩
  directory_stays := keepsDirectories_put hfree c
  new_file other c' hnone hfile := by
    by_cases hne : other = place
    · exact hne ▸ htarget
    · rw [lookup_put_of_ne t hne, hnone] at hfile
      simp at hfile
  new_directory other hnone hdir := by
    have hbefore := put_keepsDirectories hfree c other hdir
    simp [hnone] at hbefore

private theorem grownAt_put_directory {place target : Place} (hnone : t.lookup place = none)
    (htarget : targets target) (habove : place <+: target) (hne : place ≠ target) :
    GrownAt targets t (t.put place .directory) := by
  have hself : (t.put place .directory).lookup place = some .directory :=
    lookup_put_self (not_surrounding (t := t) (by simp [hnone])) _
  -- What was there was elsewhere, and there the new directory changes nothing.
  have hkept : ∀ other e, t.lookup other = some e →
      (t.put place .directory).lookup other = some e := by
    intro other e hother
    have hapart : other ≠ place := by
      rintro rfl
      simp [hnone] at hother
    rw [lookup_put_of_ne t hapart, hother]
  refine ⟨fun other c hfile _ => hkept other _ hfile, fun other c hfile => ⟨c, hkept other _ hfile⟩,
    fun other hdir => hkept other _ hdir, ?_, ?_⟩
  · intro other c hbefore hfile
    by_cases heq : other = place
    · rw [heq, hself] at hfile
      simp at hfile
    · rw [lookup_put_of_ne t heq, hbefore] at hfile
      simp at hfile
  · intro other hbefore hdir
    by_cases heq : other = place
    · exact ⟨target, htarget, heq ▸ habove, heq ▸ hne⟩
    · rw [lookup_put_of_ne t heq, hbefore] at hdir
      simp at hdir

/-! Writing a file. -/

section Target

variable {p : Path} (hdots : ".." ∉ p.parts) (htarget : targets (placeOf p))

include hdots htarget

private theorem grownAt_writeContent {c : Content} (h : t.writeContent p c = .ok t') :
    GrownAt targets t t' := by
  obtain ⟨place, hplace, hfree, rfl⟩ := writeContent_eq_ok h
  obtain rfl := locate_eq_placeOf hdots hplace
  exact grownAt_put_file hfree htarget c

private theorem grownAt_attempted {n : Nat} (t : FileTree) :
    GrownAt targets t (attempted { p.parent with parts := p.parent.parts.take n } t).2 := by
  let here : Path := { p.parent with parts := p.parent.parts.take n }
  show GrownAt targets t (attempted here t).2
  have habove : here.parts <+: p.parts :=
    (List.take_prefix n _).trans (List.dropLast_prefix p.parts)
  rw [attempted]
  cases hmade : t.makeDirectory here with
  | error e => exact GrownAt.refl targets t
  | ok t' =>
    obtain ⟨place, hplace, hnone, rfl⟩ := makeDirectory_eq_ok hmade
    obtain rfl : place = placeOf here :=
      locate_eq_placeOf (fun hmem => hdots (habove.subset hmem)) hplace
    have hprefix : placeOf here <+: placeOf p := (List.prefix_append_right_inj _).mpr habove
    refine grownAt_put_directory hnone htarget hprefix fun heq => ?_
    -- A path that is its own parent has no names, and where it leads there always is something.
    have hparts : here.parts = p.parts := List.append_cancel_left heq
    have hlength := congrArg List.length hparts
    simp only [here, Path.parent, List.length_take, List.length_dropLast] at hlength
    have hnil : p.parts = [] := List.eq_nil_of_length_eq_zero (by omega)
    exact parts_ne_nil_of_locate hplace (by simp [hnone]) (hparts.trans hnil)

theorem grownAt_makeDirectoriesTo (n : Nat) (t : FileTree) :
    GrownAt targets t (makeDirectoriesTo p.parent n t).2 :=
  rel_makeDirectoriesTo (R := GrownAt targets) GrownAt.trans
    (fun _ t => grownAt_attempted hdots htarget t) n t

end Target

end SuiteTidy.FileTree

namespace SuiteTidy.SafeFile

open SuiteTidy.FileTree

/-- An attempt to write a text to a file makes the tree grow at the place of the file alone. -/
theorem grownAt_written {targets : Place → Prop} {target : Option FileRef}
    (h : ∀ p, pathOf target = .ok p → ".." ∉ p.parts ∧ targets (placeOf p)) (content : String)
    (t : FileTree) : GrownAt targets t (written target content t).2 := by
  rw [written]
  cases hpath : pathOf target with
  | error f => exact GrownAt.refl targets t
  | ok p =>
    obtain ⟨hdots, htarget⟩ := h p hpath
    have hensured : GrownAt targets t (t.ensured p.parent) :=
      grownAt_makeDirectoriesTo hdots htarget _ t
    simp only
    cases (t.ensured p.parent).exists_ p with
    | error e => exact hensured
    | ok b =>
      simp only
      cases hwritten : (t.ensured p.parent).writeText p content with
      | error e => exact hensured
      | ok t' => exact hensured.trans (grownAt_writeContent hdots htarget hwritten)

end SuiteTidy.SafeFile

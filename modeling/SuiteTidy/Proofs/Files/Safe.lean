import SuiteTidy.Files.Safe
import SuiteTidy.Proofs.Files.Tree
import SuiteTidy.Proofs.Workspace

/-!
File operations that report, as functions on the files. Each has a result whatever the files are.
-/

set_option autoImplicit false
set_option relaxedAutoImplicit false

namespace SuiteTidy.FileTree

open SuiteTidy.Work

def unlessPresent (here : Path) (e : Fault) (t : FileTree) : Except Fault Unit × FileTree :=
  match t.isDir here with
  | .ok true => (.ok (), t)
  | .ok false => (.error e, t)
  | .error e' => (.error (.file e'), t)

def attempted (here : Path) (t : FileTree) : Except Fault Unit × FileTree :=
  match t.makeDirectory here with
  | .ok t' => (.ok (), t')
  | .error e => (.error (.file e), t)

def settleAfter (here : Path) : Except Fault Unit → FileTree → Except Fault Unit × FileTree
  | .ok (), t => (.ok (), t)
  | .error (.file (.missing q)), t => (.error (.file (.missing q)), t)
  | .error e, t => unlessPresent here e t

def settle (here : Path) (t : FileTree) : Except Fault Unit × FileTree :=
  settleAfter here (attempted here t).1 (attempted here t).2

/-- What follows an attempt to make a directory, if another step makes the directories above it. -/
def deepenAfter (here : Path) (aboveIt : FileTree → Except Fault Unit × FileTree) :
    Except Fault Unit → FileTree → Except Fault Unit × FileTree
  | .ok (), t => (.ok (), t)
  | .error (.file (.missing _)), t =>
    match aboveIt t with
    | (.ok _, t') => settle here t'
    | (.error e, t') => (.error e, t')
  | .error e, t => unlessPresent here e t

def makeDirectoriesTo (p : Path) : Nat → FileTree → Except Fault Unit × FileTree
  | 0, t => settle { p with parts := [] } t
  | n + 1, t =>
    let here : Path := { p with parts := p.parts.take (n + 1) }
    deepenAfter here (makeDirectoriesTo p n) (attempted here t).1 (attempted here t).2

/-- The files after a directory and all above it have been made, as far as that is possible. -/
def ensured (p : Path) (t : FileTree) : FileTree := (makeDirectoriesTo p p.parts.length t).2

private theorem acts_unlessPresent (here : Path) (e : Fault) :
    Acts (do unless ← ask (·.isDir here) do throw e) fun _ t => unlessPresent here e t := by
  have hcheck : ∀ b : Bool, Acts (unless b do throw e) fun _ t =>
      (if b then .ok () else .error e, t) := by
    intro b
    cases b with
    | false => exact Acts.throw _
    | true => exact Acts.pure _
  refine ((Acts.ask _).bind hcheck).congr fun now t => ?_
  rw [Effect.andThen, unlessPresent]
  cases t.isDir here with
  | error e' => rfl
  | ok b => cases b <;> rfl

private theorem acts_attempted (here : Path) :
    Acts (attempt (Work.makeDirectory here)) fun _ t =>
      (.ok (attempted here t).1, (attempted here t).2) := by
  refine (Acts.attempt (Acts.change _)).congr fun now t => ?_
  cases hmake : t.makeDirectory here <;> simp [attempted, hmake]

private theorem acts_settle (here : Path) :
    Acts (Work.makeDirectoriesTo.settle here) fun _ t => settle here t := by
  refine ((acts_attempted here).bind (h := fun r _ t => settleAfter here r t) ?_).congr
    fun now t => rfl
  intro r
  split
  · exact Acts.pure _
  · exact Acts.throw _
  · rename_i e hne
    refine (acts_unlessPresent here e).congr fun now t => ?_
    simp only [settleAfter]

theorem acts_makeDirectoriesTo (p : Path) (n : Nat) :
    Acts (Work.makeDirectoriesTo p n) fun _ t => makeDirectoriesTo p n t := by
  induction n with
  | zero => exact acts_settle _
  | succ n ih =>
    let here : Path := { p with parts := p.parts.take (n + 1) }
    refine ((acts_attempted here).bind
      (h := fun r _ t => deepenAfter here (makeDirectoriesTo p n) r t) ?_).congr fun now t => rfl
    intro r
    split
    · exact Acts.pure _
    · refine (ih.bind fun _ => acts_settle here).congr fun now t => ?_
      simp only [Effect.andThen, deepenAfter]
      rcases makeDirectoriesTo p n t with ⟨r, t'⟩
      cases r <;> rfl
    · rename_i e hne
      refine (acts_unlessPresent here e).congr fun now t => ?_
      simp only [deepenAfter]

/-! Files in a directory that is there. -/

private theorem unlessPresent_snd (here : Path) (e : Fault) (t : FileTree) :
    (unlessPresent here e t).2 = t := by
  rw [unlessPresent]
  split <;> rfl

private theorem settle_snd (here : Path) (t : FileTree) :
    (settle here t).2 = (attempted here t).2 := by
  rw [settle, settleAfter.eq_def]
  split
  · rfl
  · rfl
  · exact unlessPresent_snd _ _ _

private theorem deepenAfter_snd (here : Path) (aboveIt : FileTree → Except Fault Unit × FileTree)
    (r : Except Fault Unit) (t : FileTree) :
    (deepenAfter here aboveIt r t).2 = t ∨ (deepenAfter here aboveIt r t).2 = (aboveIt t).2 ∨
      (deepenAfter here aboveIt r t).2 = (attempted here (aboveIt t).2).2 := by
  rw [deepenAfter.eq_def]
  split
  · exact .inl rfl
  · rcases aboveIt t with ⟨r', t'⟩
    cases r' with
    | ok _ => exact .inr (.inr (settle_snd here t'))
    | error _ => exact .inr (.inl rfl)
  · exact .inl (unlessPresent_snd _ _ _)

/-- What every single attempt to make a directory does to the files, making all directories of a
path does too. -/
theorem rel_makeDirectoriesTo {R : FileTree → FileTree → Prop}
    (htrans : ∀ {t t' t''}, R t t' → R t' t'' → R t t'') {p : Path}
    (hattempt : ∀ n t, R t (attempted { p with parts := p.parts.take n } t).2) (n : Nat)
    (t : FileTree) : R t (makeDirectoriesTo p n t).2 := by
  induction n generalizing t with
  | zero =>
    rw [makeDirectoriesTo, settle_snd]
    exact hattempt 0 t
  | succ n ih =>
    let here : Path := { p with parts := p.parts.take (n + 1) }
    have hfirst : R t (attempted here t).2 := hattempt (n + 1) t
    rw [makeDirectoriesTo]
    rcases deepenAfter_snd here (makeDirectoriesTo p n) (attempted here t).1
      (attempted here t).2 with hend | hend | hend
    · rw [hend]
      exact hfirst
    · rw [hend]
      exact htrans hfirst (ih _)
    · rw [hend]
      exact htrans (htrans hfirst (ih _)) (hattempt (n + 1) _)

private theorem unlessPresent_of_isDir {here : Path} {t : FileTree} (h : t.isDir here = .ok true)
    (e : Fault) : unlessPresent here e t = (.ok (), t) := by
  rw [unlessPresent, h]

-- A directory that is there is never found missing.
private theorem attempted_of_isDir {here : Path} {t : FileTree} (h : t.isDir here = .ok true) :
    attempted here t = (.error (.file (.present here)), t) := by
  obtain ⟨place, hplace, hentry⟩ := isDir_eq_true_iff.mp h
  simp [attempted, FileTree.makeDirectory, hplace, hentry, bind, Except.bind]

theorem makeDirectoriesTo_of_isDir {t : FileTree} {p : Path} (h : t.isDir p = .ok true) :
    makeDirectoriesTo p p.parts.length t = (.ok (), t) := by
  have hmake := attempted_of_isDir h
  cases hlength : p.parts.length with
  | zero =>
    have hp : { p with parts := [] } = p := by rw [← List.eq_nil_of_length_eq_zero hlength]
    rw [makeDirectoriesTo, hp, settle, hmake]
    exact unlessPresent_of_isDir h _
  | succ n =>
    have hp : { p with parts := p.parts.take (n + 1) } = p := by
      rw [← hlength, List.take_length]
    rw [makeDirectoriesTo, hp, hmake]
    exact unlessPresent_of_isDir h _

private theorem ensured_of_isDir {t : FileTree} {p : Path} (h : t.isDir p = .ok true) :
    t.ensured p = t := by
  rw [ensured, makeDirectoriesTo_of_isDir h]

private theorem isDir_of_attempted {here : Path} {t : FileTree}
    (h : (attempted here t).1 = .ok ()) : (attempted here t).2.isDir here = .ok true := by
  rw [attempted] at h ⊢
  cases hmade : t.makeDirectory here with
  | error e => simp [hmade] at h
  | ok t' =>
    obtain ⟨place, hplace, hnone, rfl⟩ := makeDirectory_eq_ok hmade
    have hfree : isSurrounding place = false := not_surrounding (t := t) (by simp [hnone])
    have hkeeps : KeepsDirectories t (t.put place .directory) := by
      intro other hother
      have hne : other ≠ place := by
        rintro rfl
        simp [hnone] at hother
      rw [lookup_put_of_ne t hne, hother]
    exact isDir_eq_true_iff.mpr ⟨place, locate_eq_ok hkeeps hplace, lookup_put_self hfree _⟩

private theorem isDir_of_unlessPresent {here : Path} {e : Fault} {t : FileTree}
    (h : (unlessPresent here e t).1 = .ok ()) :
    (unlessPresent here e t).2.isDir here = .ok true := by
  rw [unlessPresent_snd]
  rw [unlessPresent] at h
  split at h
  · assumption
  · cases h
  · cases h

private theorem isDir_of_settle {here : Path} {t : FileTree} (h : (settle here t).1 = .ok ()) :
    (settle here t).2.isDir here = .ok true := by
  rw [settle] at h ⊢
  cases hfirst : (attempted here t).1 with
  | ok u => exact isDir_of_attempted hfirst
  | error e =>
    rw [hfirst] at h
    generalize hend : settleAfter here (.error e) (attempted here t).2 = x at h ⊢
    rw [settleAfter.eq_def] at hend
    split at hend
    · cases ‹Except.error e = Except.ok ()›
    · subst hend
      cases h
    · subst hend
      exact isDir_of_unlessPresent h

theorem isDir_of_makeDirectoriesTo {p : Path} {t : FileTree}
    (h : (makeDirectoriesTo p p.parts.length t).1 = .ok ()) : (t.ensured p).isDir p = .ok true := by
  rw [ensured]
  cases hlength : p.parts.length with
  | zero =>
    have hp : { p with parts := [] } = p := by rw [← List.eq_nil_of_length_eq_zero hlength]
    rw [hlength, makeDirectoriesTo, hp] at h
    rw [makeDirectoriesTo, hp]
    exact isDir_of_settle h
  | succ n =>
    have hp : { p with parts := p.parts.take (n + 1) } = p := by
      rw [← hlength, List.take_length]
    rw [hlength, makeDirectoriesTo, hp] at h
    rw [makeDirectoriesTo, hp]
    cases hfirst : (attempted p t).1 with
    | ok u => exact isDir_of_attempted hfirst
    | error e =>
      rw [hfirst] at h
      generalize hend :
        deepenAfter p (makeDirectoriesTo p n) (.error e) (attempted p t).2 = x at h ⊢
      rw [deepenAfter.eq_def] at hend
      split at hend
      · cases ‹Except.error e = Except.ok ()›
      · rcases habove : makeDirectoriesTo p n (attempted p t).2 with ⟨r, t'⟩
        rw [habove] at hend
        subst hend
        cases r with
        | error e' => cases h
        | ok u => exact isDir_of_settle h
      · subst hend
        exact isDir_of_unlessPresent h

private theorem attempted_snd_of_error {here : Path} {t : FileTree} {e : Fault}
    (h : (attempted here t).1 = .error e) : (attempted here t).2 = t := by
  rw [attempted] at h ⊢
  cases hmade : t.makeDirectory here with
  | error f => rfl
  | ok t' => simp [hmade] at h

private theorem settle_of_isDir {here : Path} {t : FileTree}
    (h : (settle here t).2.isDir here = .ok true) : (settle here t).1 = .ok () := by
  rw [settle_snd] at h
  rw [settle]
  cases hfirst : (attempted here t).1 with
  | ok u => rfl
  | error e =>
    rw [attempted_snd_of_error hfirst] at h ⊢
    rw [attempted_of_isDir h] at hfirst
    cases hfirst
    rw [settleAfter, unlessPresent_of_isDir h]
    simp

/-- A directory that is there after an attempt to make it, with all above it, was made or there
before: the attempt has not failed. -/
theorem makeDirectoriesTo_isOk {p : Path} {n : Nat} {t : FileTree} (hn : n ≤ p.parts.length)
    (h : (makeDirectoriesTo p n t).2.isDir { p with parts := p.parts.take n } = .ok true) :
    (makeDirectoriesTo p n t).1 = .ok () := by
  induction n generalizing t with
  | zero => exact settle_of_isDir h
  | succ n ih =>
    let here : Path := { p with parts := p.parts.take (n + 1) }
    rw [makeDirectoriesTo] at h ⊢
    cases hfirst : (attempted here t).1 with
    | ok u => rfl
    | error e =>
      rw [hfirst, attempted_snd_of_error hfirst] at h
      rw [attempted_snd_of_error hfirst]
      by_cases hmissing : ∃ q, e = .file (.missing q)
      · obtain ⟨q, rfl⟩ := hmissing
        rw [deepenAfter] at h ⊢
        rcases habove : makeDirectoriesTo p n t with ⟨r, t'⟩
        rw [habove] at h
        cases r with
        | ok u => exact settle_of_isDir h
        | error e' =>
          -- What lies above a directory that is there is a directory that is there.
          have hthere : t'.isDir here = .ok true := h
          obtain ⟨place, hplace, -⟩ := isDir_eq_true_iff.mp hthere
          have hlonger : here.parts = p.parts.take n ++ [p.parts[n]] :=
            List.take_succ_eq_append_getElem hn
          have hparent : t'.isDir { p with parts := p.parts.take n } = .ok true := by
            have hnames : here.parts ≠ [] := by
              rw [hlonger]
              exact List.concat_ne_nil _ _
            have hparent := isDir_parent hnames hplace
            rwa [Path.parent, hlonger, List.dropLast_concat] at hparent
          have hok := ih (t := t) (by omega) (by rw [habove]; exact hparent)
          rw [habove] at hok
          cases hok
      · have hother : deepenAfter here (makeDirectoriesTo p n) (.error e) t =
            unlessPresent here e t := by
          rw [deepenAfter]
          exact fun q hq => hmissing ⟨q, hq⟩
        rw [hother, unlessPresent_snd] at h
        rw [hother, unlessPresent_of_isDir h]

/-- A file can be written by a path: the path leads to the place of its names, and no directory is
there. -/
def Accepts (t : FileTree) (p : Path) : Prop :=
  t.locate p = .ok p.parts ∧ t.lookup p.parts ≠ some .directory

theorem accepts_congr {t t' : FileTree} (h : SameDirectories t t') {p : Path}
    (hdir : t.isDir p.parent = .ok true) : t'.Accepts p ↔ t.Accepts p := by
  rw [Accepts, Accepts, locate_congr h.1 hdir]
  refine and_congr_right fun _ => not_congr ?_
  exact ⟨h.2 p.parts, h.1 p.parts⟩

end SuiteTidy.FileTree

namespace SuiteTidy.SafeFile

open SuiteTidy.Work

def orOther {α : Type} (other : α) : Except Fault α → α
  | .ok a => a
  | .error _ => other

theorem acts_reporting {α : Type} {x : Work α} {f : Effect α} (words : String) (other : α)
    (hx : Acts x f) :
    Acts (reporting words other x) fun now t => (.ok (orOther other (f now t).1), (f now t).2) := by
  refine (hx.attempt.bind (h := fun r _ t => (.ok (orOther other r), t)) ?_).congr fun now t => rfl
  intro r
  cases r with
  | ok a => exact Acts.pure a
  | error e => exact Acts.printLine_bind _ (Acts.pure other)

theorem acts_ensureDirectory (p : Path) :
    Acts (ensureDirectory p) fun _ t =>
      (.ok (FileTree.makeDirectoriesTo p p.parts.length t).1.isOk, t.ensured p) := by
  have hmake := (FileTree.acts_makeDirectoriesTo p p.parts.length).bind fun _ => Acts.pure true
  refine (acts_reporting _ false hmake).congr fun now t => ?_
  rw [Effect.andThen, FileTree.ensured]
  rcases FileTree.makeDirectoriesTo p p.parts.length t with ⟨r, t'⟩
  cases r <;> rfl

/-- What writing a text to a file does, without a copy of the old file: whether it worked, and the
files after it. The directories above the file are made first. -/
def written (target : Option FileRef) (content : String) (t : FileTree) : Bool × FileTree :=
  match pathOf target with
  | .error _ => (false, t)
  | .ok p =>
    let t := t.ensured p.parent
    match t.exists_ p with
    | .error _ => (false, t)
    | .ok _ =>
      match t.writeText p content with
      | .ok t' => (true, t')
      | .error _ => (false, t)

theorem acts_write (target : Option FileRef) (content : String) :
    Acts (write target content false) fun _ t =>
      (.ok (written target content t).1, (written target content t).2) := by
  unfold write written
  cases hpath : pathOf target with
  | error f =>
    exact acts_reporting _ false (Acts.throw f)
  | ok p =>
    have hdone : Acts (do
        Work.printLine ("DEBUG FileUtils: Successfully wrote " ++ toString content.length ++
          " bytes to " ++ p.text)
        return true) fun _ t => (.ok true, t) := Acts.printLine_bind _ (Acts.pure true)
    have hwrite := (Acts.change fun t => t.writeText p content).bind fun _ => hdone
    have hbody := (acts_ensureDirectory p.parent).bind fun _ =>
      (Acts.ask fun t => t.exists_ p).bind fun _ => hwrite
    simp only [Bool.and_false, Bool.false_eq_true, if_false]
    refine (acts_reporting _ false hbody).congr fun now t => ?_
    simp only [Effect.andThen]
    cases (t.ensured p.parent).exists_ p with
    | error e => rfl
    | ok b =>
      cases hwritten : (t.ensured p.parent).writeText p content <;>
        simp [hwritten, Except.mapError, orOther]

theorem readContent_written {target : Option FileRef} {p : Path} (hp : pathOf target = .ok p)
    (content : String) (t : FileTree) (c : Content) :
    (written target content t).2.readContent p = .ok c ↔
      (written target content t).1 = true ∧ c = .bytes content.toUTF8 := by
  simp only [written, hp]
  cases hexists : (t.ensured p.parent).exists_ p with
  | error f =>
    have hunread : (t.ensured p.parent).readContent p ≠ .ok c := by
      intro hread
      rw [FileTree.exists_of_readContent hread] at hexists
      simp at hexists
    simp [hunread]
  | ok b =>
    cases hwritten : (t.ensured p.parent).writeText p content with
    | ok t' =>
      have hread : t'.readContent p = .ok (.bytes content.toUTF8) :=
        FileTree.readContent_of_writeContent hwritten
      simp [hread, eq_comm]
    | error f =>
      have hunread : (t.ensured p.parent).readContent p ≠ .ok c := by
        intro hread
        obtain ⟨t', ht'⟩ := FileTree.writeContent_isOk_of_readContent hread (.bytes content.toUTF8)
        rw [FileTree.writeText, ht'] at hwritten
        simp at hwritten
      simp [hunread]

section Directory

variable {t : FileTree} {p : Path} (hrel : p.absolute = false) (hdots : ".." ∉ p.parts)
  (hdir : t.isDir p.parent = .ok true)

include hrel hdots hdir

theorem written_of_accepts (h : t.Accepts p) (content : String) :
    written (some (.path p)) content t =
      (true, t.put p.parts (.file (.bytes content.toUTF8))) := by
  have habove : t.lookup p.parts.dropLast = some .directory := by
    obtain ⟨above, habove, hentry⟩ := FileTree.isDir_eq_true_iff.mp hdir
    have hplace : above = p.parent.parts :=
      FileTree.locate_eq_parts hrel (fun hmem => hdots (List.dropLast_subset _ hmem)) habove
    rwa [hplace] at hentry
  obtain ⟨hplace, hfree⟩ := h
  have hwritten : t.writeText p content = .ok (t.put p.parts (.file (.bytes content.toUTF8))) :=
    FileTree.writeContent_of_locate hplace hfree habove _
  have hexists : ∃ b, t.exists_ p = .ok b := by
    cases hold : t.lookup p.parts with
    | none =>
      exact ⟨false, by simp [FileTree.exists_, FileTree.status, FileTree.entry, hplace, hold, bind,
        Except.bind, pure, Except.pure]⟩
    | some e =>
      exact ⟨true, by simp [FileTree.exists_, FileTree.status, FileTree.entry, hplace, hold, bind,
        Except.bind, pure, Except.pure]⟩
  obtain ⟨b, hb⟩ := hexists
  simp [written, pathOf, FileTree.ensured_of_isDir hdir, hb, hwritten]

theorem written_of_not_accepts (h : ¬ t.Accepts p) (content : String) :
    written (some (.path p)) content t = (false, t) := by
  cases hwritten : t.writeText p content with
  | error f =>
    simp only [written, pathOf, FileTree.ensured_of_isDir hdir, hwritten]
    cases t.exists_ p <;> rfl
  | ok t' =>
    obtain ⟨place, hplace, hfree, -⟩ := FileTree.writeContent_eq_ok hwritten
    obtain rfl := FileTree.locate_eq_parts hrel hdots hplace
    exact absurd ⟨hplace, hfree⟩ h

end Directory

end SuiteTidy.SafeFile

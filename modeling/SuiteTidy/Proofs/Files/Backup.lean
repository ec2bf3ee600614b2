import SuiteTidy.Proofs.Files.Frame
import SuiteTidy.Proofs.Files.Held
import SuiteTidy.Proofs.Files.Sound
import SuiteTidy.Proofs.Moment.RoundTrip

/-!
Files that are rewritten one after another, each after a copy of the old file was made. A copy
stands beside its file, under a name with the time in it, to the second. What a rewriting can lose
is what stood where the copy goes, or the old content itself if no copy can be made. Main statement:
over a whole run, no content is lost exactly if what was displaced is held at the end, and that is
so if all copies go to places of their own.
-/

set_option autoImplicit false
set_option relaxedAutoImplicit false

namespace SuiteTidy

/-! The name of a copy. -/

private theorem Moment.mem_stamp {m : Moment} {c : Char} (hc : c ∈ m.stamp.toList) :
    c.isDigit = true ∨ c = '_' := by
  simp only [stamp, two, String.toList_append, List.mem_append, or_assoc] at hc
  rcases hc with hc | hc | hc | hc | hc | hc | hc
  -- The fourth part is the line between the day and the time, the others are digits.
  case inr.inr.inr.inl => exact .inr (by simpa using hc)
  all_goals exact .inl (isDigit_of_mem_padded hc)

private theorem Path.toList_splitName (name : String) :
    (splitName name).1.toList ++ (splitName name).2.toList = name.toList := by
  rw [splitName]
  split_ifs
  · simp only [String.toList_ofList, List.take_append_drop]
  · simp

namespace SafeFile

open SuiteTidy.FileTree SuiteTidy.Work

def copyName (name : String) (now : Moment) : String :=
  (Path.splitName name).1 ++ "_" ++ now.stamp ++ (Path.splitName name).2

private theorem backupPath_eq (p : Path) (now : Moment) :
    backupPath p now = p.parent.below (copyName p.name now) := rfl

private theorem mem_copyName {name : String} {now : Moment} {c : Char}
    (hc : c ∈ (copyName name now).toList) : c ∈ name.toList ∨ c.isDigit = true ∨ c = '_' := by
  simp only [copyName, String.toList_append, List.mem_append, or_assoc] at hc
  rw [← Path.toList_splitName name, List.mem_append, or_assoc]
  rcases hc with hc | hc | hc | hc
  · exact .inl hc
  · exact .inr (.inr (.inr (by simpa using hc)))
  · exact .inr (.inr (Moment.mem_stamp hc))
  · exact .inr (.inl hc)

private theorem oneName_copyName {name : String} (hslash : '/' ∉ name.toList)
    (hnull : '\x00' ∉ name.toList) (now : Moment) : OneName (copyName name now) := by
  have hmark : '_' ∈ (copyName name now).toList := by simp [copyName]
  refine ⟨fun hc => ?_, fun hc => ?_, fun heq => ?_, fun heq => ?_, fun heq => ?_⟩
  · rcases mem_copyName hc with hc | hc | hc
    · exact hslash hc
    · exact absurd hc (by decide)
    · exact absurd hc (by decide)
  · rcases mem_copyName hc with hc | hc | hc
    · exact hnull hc
    · exact absurd hc (by decide)
    · exact absurd hc (by decide)
  all_goals
    rw [heq] at hmark
    exact absurd hmark (by decide)

/-! Where a copy goes. -/

def copySpot (place : Place) (now : Moment) : Place :=
  place.dropLast ++ [copyName (place.getLast?.getD "") now]

def unlessDirectory (t : FileTree) (place : Place) : Option Place :=
  match t.lookup place with
  | some .directory => none
  | _ => some place

/-- The place that the copy of a file gets: the one meant for it, or, if a directory is there, a
place in the directory under the name of the file. No copy is made if its name is too long or both
places are directories. -/
def copyPlace (t : FileTree) (place : Place) (now : Moment) : Option Place :=
  if nameLimit < (copyName (place.getLast?.getD "") now).utf8ByteSize then none
  else
    (unlessDirectory t (copySpot place now)).or
      (unlessDirectory t (copySpot place now ++ [place.getLast?.getD ""]))

private theorem unlessDirectory_eq_some_iff {t : FileTree} {place spot : Place} :
    unlessDirectory t place = some spot ↔ spot = place ∧ t.lookup place ≠ some .directory := by
  rw [unlessDirectory]
  split <;> simp_all [eq_comm]

private theorem lookup_copyPlace {t : FileTree} {place spot : Place} {now : Moment}
    (h : copyPlace t place now = some spot) : t.lookup spot ≠ some .directory := by
  rw [copyPlace] at h
  split_ifs at h
  rcases Option.or_eq_some_iff.mp h with h | ⟨-, h⟩
  · obtain ⟨rfl, hfree⟩ := unlessDirectory_eq_some_iff.mp h
    exact hfree
  · obtain ⟨rfl, hfree⟩ := unlessDirectory_eq_some_iff.mp h
    exact hfree

def withCopy (t : FileTree) (place : Place) (now : Moment) (old : Content) : FileTree :=
  (copyPlace t place now).elim t fun spot => t.put spot (.file old)

private theorem keepsDirectories_withCopy (t : FileTree) (place : Place) (now : Moment)
    (old : Content) : KeepsDirectories t (withCopy t place now old) := by
  rw [withCopy]
  cases hspot : copyPlace t place now with
  | none => exact fun _ h => h
  | some spot => exact keepsDirectories_put (lookup_copyPlace hspot) old

private theorem fileAt_withCopy (t : FileTree) (place : Place) (now : Moment) (old : Content)
    (other : Place) :
    (withCopy t place now old).fileAt other =
      if copyPlace t place now = some other then some old else t.fileAt other := by
  rw [withCopy]
  cases hspot : copyPlace t place now with
  | none => simp
  | some spot =>
    rw [Option.elim, fileAt_put_file (lookup_copyPlace hspot)]
    simp only [Option.some.injEq, eq_comm]

private theorem lookup_withCopy {t : FileTree} {place : Place} {old : Content}
    (hold : t.lookup place = some (.file old)) (now : Moment) :
    (withCopy t place now old).lookup place = some (.file old) := by
  rw [← fileAt_eq_some_iff, fileAt_withCopy, fileAt_eq_some_iff.mpr hold, ite_self]

def copiedTo (source target : Path) (t : FileTree) : Except Fault Unit × FileTree :=
  match t.isDir target with
  | .error e => (.error (.file e), t)
  | .ok inside =>
    match t.readContent source with
    | .error e => (.error (.file e), t)
    | .ok c =>
      match t.writeContent (if inside then target.below source.name else target) c with
      | .ok t' => (.ok (), t')
      | .error e => (.error (.file e), t)

private theorem acts_copyFile (source target : Path) :
    Acts (copyFile source target) fun _ t => copiedTo source target t := by
  have hwrite (q : Path) (c : Content) := Acts.change fun t => t.writeContent q c
  refine ((Acts.ask fun t => t.isDir target).bind fun inside =>
    (Acts.ask fun t => t.readContent source).bind fun c =>
      hwrite (if inside then target.below source.name else target) c).congr fun now t => ?_
  simp only [Effect.andThen, copiedTo]
  cases t.isDir target with
  | error e => rfl
  | ok inside =>
    simp only [Except.mapError]
    cases t.readContent source <;> rfl

private theorem copiedTo_of_locate {source target q : Path} {t : FileTree} {place : Place}
    {old : Content} {inside : Bool} (hread : t.readContent source = .ok old)
    (hinside : t.isDir target = .ok inside)
    (hq : (if inside then target.below source.name else target) = q)
    (hplace : t.locate q = .ok place) (habove : t.lookup place.dropLast = some .directory) :
    (copiedTo source target t).2 =
      (unlessDirectory t place).elim t fun spot => t.put spot (.file old) := by
  rw [copiedTo, hinside, hread]
  simp only [hq]
  cases hspot : unlessDirectory t place with
  | none =>
    have hdir : t.lookup place = some .directory := by
      by_contra hfree
      simp [unlessDirectory_eq_some_iff.mpr ⟨rfl, hfree⟩] at hspot
    simp [writeContent, hplace, hdir, bind, Except.bind]
  | some spot =>
    obtain ⟨rfl, hfree⟩ := unlessDirectory_eq_some_iff.mp hspot
    rw [writeContent_of_locate hplace hfree habove]
    rfl

private theorem copiedTo_eq {source target : Path} {t : FileTree} {place : Place} {old : Content}
    (hname : OneName source.name) (hshort : source.name.utf8ByteSize ≤ nameLimit)
    (hread : t.readContent source = .ok old) (hplace : t.locate target = .ok place)
    (habove : t.lookup place.dropLast = some .directory) :
    (copiedTo source target t).2 =
      ((unlessDirectory t place).or (unlessDirectory t (place ++ [source.name]))).elim t
        fun spot => t.put spot (.file old) := by
  have hinside := isDir_of_locate hplace
  by_cases htaken : t.lookup place = some .directory
  · have hinner := hname.locate_below hplace htaken
    rw [if_neg (Nat.not_lt.mpr hshort)] at hinner
    have hskip : unlessDirectory t place = none := by simp [unlessDirectory, htaken]
    rw [htaken] at hinside
    rw [hskip, Option.none_or]
    exact copiedTo_of_locate hread hinside (if_pos rfl) hinner (by rwa [List.dropLast_concat])
  · have hplain : (t.lookup place).any Entry.isDirectory = false := by
      cases hentry : t.lookup place with
      | none => rfl
      | some e =>
        cases e with
        | file c => rfl
        | directory => exact absurd hentry htaken
    have hspot := unlessDirectory_eq_some_iff.mpr ⟨rfl, htaken⟩
    rw [hplain] at hinside
    rw [copiedTo_of_locate hread hinside (if_neg Bool.false_ne_true) hplace habove, hspot,
      Option.some_or]

/-- What an attempt to keep a copy of a file does: whether there is a copy, and the files after
it. -/
def backedUp (p : Path) (now : Moment) (t : FileTree) : Bool × FileTree :=
  match t.exists_ p with
  | .ok true => ((copiedTo p (backupPath p now) t).1.isOk, (copiedTo p (backupPath p now) t).2)
  | _ => (false, t)

private theorem acts_backup (p : Path) :
    Acts (backup p) fun now t => (.ok (backedUp p now t).1, (backedUp p now t).2) := by
  have hcopy := Acts.now.bind fun now =>
    (acts_copyFile p (backupPath p now)).bind fun _ => Acts.pure true
  have hbody := (Acts.ask fun t => t.exists_ p).bind fun there =>
    Acts.ite there hcopy (Acts.pure false)
  refine (acts_reporting _ false hbody).congr fun now t => ?_
  simp only [Effect.andThen, backedUp]
  cases t.exists_ p with
  | error e => rfl
  | ok there =>
    cases there with
    | false => rfl
    | true =>
      simp only [Except.mapError, if_true]
      rcases copiedTo p (backupPath p now) t with ⟨r, t'⟩
      cases r <;> rfl

-- Where no file can be read there is nothing to copy.
private theorem backedUp_of_unread {p : Path} {now : Moment} {t : FileTree}
    (h : ∀ c, t.readContent p ≠ .ok c) : (backedUp p now t).2 = t := by
  rw [backedUp]
  split
  · rw [copiedTo]
    cases t.isDir (backupPath p now) with
    | error e => rfl
    | ok inside =>
      cases hread : t.readContent p with
      | error e => rfl
      | ok c => exact absurd hread (h c)
  · rfl

private theorem exists_folder {t : FileTree} {p : Path} {place : Place} {old : Content}
    (hplace : t.locate p = .ok place) (hold : t.lookup place = some (.file old)) :
    ∃ folder, p = { p.parent with parts := p.parent.parts ++ [p.name] } ∧ p.name ≠ ".." ∧
      t.locate p.parent = .ok folder ∧ t.lookup folder = some .directory ∧
      place = folder ++ [p.name] := by
  have hparts : p.parts ≠ [] := parts_ne_nil_of_locate hplace (by simp [hold])
  have hpath := Path.eq_parent_name hparts
  have hchild := hplace
  rw [hpath] at hchild
  have hdots : p.name ≠ ".." := by
    intro hname
    rw [hname] at hchild
    rw [lookup_of_locate_dots hchild] at hold
    cases hold
  obtain ⟨folder, hfolder, rfl⟩ := locate_child_eq_ok hdots hchild
  obtain ⟨found, hfound, hdir⟩ := isDir_eq_true_iff.mp (isDir_parent hparts hplace)
  obtain rfl := Except.ok.inj (hfolder.symm.trans hfound)
  exact ⟨folder, hpath, hdots, hfolder, hdir, rfl⟩

private theorem backedUp_of_locate {p : Path} (hp : p.Normal) {now : Moment} {t : FileTree}
    {place : Place} {old : Content} (hplace : t.locate p = .ok place)
    (hold : t.lookup place = some (.file old)) :
    (backedUp p now t).2 = withCopy t place now old := by
  obtain ⟨folder, hpath, hdots, hfolder, hdir, rfl⟩ := exists_folder hplace hold
  have hread := readContent_eq_ok_iff.mpr ⟨_, hplace, hold⟩
  have hmem : p.name ∈ p.parts := by
    rw [congrArg Path.parts hpath]
    simp
  -- The name of the file is known to be proper and short, for the path leads to the file.
  obtain ⟨hslash, hempty, hdot⟩ := hp p.name hmem
  have hchild := locate_child hfolder hdir hdots
  rw [← hpath, hplace] at hchild
  split_ifs at hchild with hnull hlong
  have hname : OneName p.name := ⟨hslash, hnull, hempty, hdot, hdots⟩
  have hmeant := (oneName_copyName hslash hnull now).locate_below hfolder hdir
  have hspot : copySpot (folder ++ [p.name]) now = folder ++ [copyName p.name now] := by
    simp [copySpot]
  have hlast : (folder ++ [p.name]).getLast?.getD "" = p.name := by simp
  rw [← backupPath_eq] at hmeant
  rw [backedUp, exists_of_readContent hread, withCopy, copyPlace, hspot, hlast]
  generalize copyName p.name now = copy at hmeant ⊢
  generalize backupPath p now = target at hmeant ⊢
  by_cases hover : nameLimit < copy.utf8ByteSize
  · rw [if_pos hover] at hmeant ⊢
    have hlost : t.isDir target = .error (.nameTooLong target) := by
      simp [isDir, status, entry, hmeant, bind, Except.bind]
    simp only [copiedTo, hlost, Option.elim]
  · rw [if_neg hover] at hmeant ⊢
    exact copiedTo_eq hname (Nat.not_lt.mp hlong) hread hmeant (by rwa [List.dropLast_concat])

/-! Rewriting a file. -/

/-- What writing a text to a file does, with a copy of the old file: whether it worked, and the
files after it. -/
def rewritten (p : Path) (content : String) (now : Moment) (t : FileTree) : Bool × FileTree :=
  let u := t.ensured p.parent
  match u.exists_ p with
  | .error _ => (false, u)
  | .ok _ =>
    match (backedUp p now u).2.writeText p content with
    | .ok t' => (true, t')
    | .error _ => (false, (backedUp p now u).2)

private theorem acts_rewrite (p : Path) (content : String) :
    Acts (write (some (.path p)) content true) fun now t =>
      (.ok (rewritten p content now t).1, (rewritten p content now t).2) := by
  unfold write
  have hdone : Acts (do
      Work.printLine ("DEBUG FileUtils: Successfully wrote " ++ toString content.length ++
        " bytes to " ++ p.text)
      return true) fun _ t => (.ok true, t) := Acts.printLine_bind _ (Acts.pure true)
  have hwrite := (Acts.change fun t => t.writeText p content).bind fun _ => hdone
  have hkept := (acts_backup p).bind fun _ => hwrite
  have hbody := (acts_ensureDirectory p.parent).bind fun _ =>
    (Acts.ask fun t => t.exists_ p).bind fun there => Acts.ite there hkept hwrite
  simp only [pathOf, Bool.and_true]
  refine (acts_reporting _ false hbody).congr fun now t => ?_
  simp only [Effect.andThen, rewritten]
  cases hexists : (t.ensured p.parent).exists_ p with
  | error e => rfl
  | ok there =>
    cases there with
    | false =>
      have hsame : (backedUp p now (t.ensured p.parent)).2 = t.ensured p.parent := by
        rw [backedUp, hexists]
      simp only [Except.mapError, hsame, Bool.false_eq_true, if_false]
      cases (t.ensured p.parent).writeText p content <;> rfl
    | true =>
      simp only [Except.mapError, if_true]
      cases (backedUp p now (t.ensured p.parent)).2.writeText p content <;> rfl

/-- How rewriting a file can end: with the directories above it alone, with a new file, or with a
file in place of an old one and perhaps a copy of that. -/
private theorem rewritten_cases {p : Path} (hp : p.Normal) (content : String) (now : Moment)
    (t : FileTree) :
    rewritten p content now t = (false, t.ensured p.parent) ∨
      ∃ place, (t.ensured p.parent).locate p = .ok place ∧
        ((t.ensured p.parent).lookup place = none ∧
            rewritten p content now t =
              (true, (t.ensured p.parent).put place (.file (.bytes content.toUTF8))) ∨
          ∃ old, (t.ensured p.parent).lookup place = some (.file old) ∧
            rewritten p content now t =
              (true, (withCopy (t.ensured p.parent) place now old).put place
                (.file (.bytes content.toUTF8)))) := by
  rw [rewritten]
  generalize t.ensured p.parent = u
  -- A copy is made of what can be read, so the cases are whether a file can be read.
  cases hread : u.readContent p with
  | error f =>
    have hunread : ∀ c, u.readContent p ≠ .ok c := by simp [hread]
    simp only [backedUp_of_unread hunread]
    cases u.exists_ p with
    | error e => exact .inl rfl
    | ok b =>
      cases hwritten : u.writeText p content with
      | error e => exact .inl rfl
      | ok t' =>
        obtain ⟨place, hplace, hfree, rfl⟩ := writeContent_eq_ok hwritten
        refine .inr ⟨place, hplace, .inl ⟨?_, rfl⟩⟩
        cases hentry : u.lookup place with
        | none => rfl
        | some e =>
          cases e with
          | directory => exact absurd hentry hfree
          | file c => exact absurd (readContent_eq_ok_iff.mpr ⟨place, hplace, hentry⟩) (hunread c)
  | ok old =>
    obtain ⟨place, hplace, hold⟩ := readContent_eq_ok_iff.mp hread
    refine .inr ⟨place, hplace, .inr ⟨old, hold, ?_⟩⟩
    simp only [exists_of_readContent hread, backedUp_of_locate hp hplace hold]
    have hthere := lookup_withCopy hold now
    have hway := locate_eq_ok (keepsDirectories_withCopy u place now old) hplace
    simp [FileTree.writeText, writeContent, hway, hthere, bind, Except.bind, pure, Except.pure]

/-! What is lost. -/

structure Edition where
  path : Path
  content : String
  time : Moment
  normal : path.Normal := by decide

namespace Edition

def put (e : Edition) (t : FileTree) : FileTree := (rewritten e.path e.content e.time t).2

/-- What an edition overwrites without a copy: what stands where the copy of the old file goes, or
what the file itself holds if it cannot be copied. -/
def displaced (e : Edition) (t : FileTree) : Option Content :=
  let u := t.ensured e.path.parent
  match u.locate e.path with
  | .error _ => none
  | .ok place =>
    (u.fileAt place).bind fun old => (copyPlace u place e.time).elim (some old) u.fileAt

variable {e : Edition} {t : FileTree} {c : Content}

private theorem displaced_of_file {place : Place} {old : Content}
    (hplace : (t.ensured e.path.parent).locate e.path = .ok place)
    (hold : (t.ensured e.path.parent).fileAt place = some old) :
    e.displaced t = (copyPlace (t.ensured e.path.parent) place e.time).elim (some old)
      (t.ensured e.path.parent).fileAt := by
  simp only [displaced, hplace, hold, Option.bind_some]

private theorem hasContent_of_displaced (h : e.displaced t = some c) : t.HasContent c := by
  rw [← (furnished_ensured e.path.parent t).hasContent_iff]
  cases hplace : (t.ensured e.path.parent).locate e.path with
  | error f => simp [displaced, hplace] at h
  | ok place =>
    cases hold : (t.ensured e.path.parent).fileAt place with
    | none => simp [displaced, hplace, hold] at h
    | some old =>
      rw [displaced_of_file hplace hold] at h
      cases hspot : copyPlace (t.ensured e.path.parent) place e.time with
      | none =>
        rw [hspot] at h
        exact ⟨place, hold.trans h⟩
      | some spot =>
        rw [hspot] at h
        exact ⟨spot, h⟩

/-- Nothing but what is displaced can be lost. -/
private theorem hasContent_put (h : t.HasContent c) :
    (e.put t).HasContent c ∨ e.displaced t = some c := by
  rw [← (furnished_ensured e.path.parent t).hasContent_iff] at h
  obtain ⟨found, hfound⟩ := h
  rw [put]
  rcases rewritten_cases e.normal e.content e.time t with
    hend | ⟨place, hplace, ⟨hnone, hend⟩ | ⟨old, hold, hend⟩⟩
  · rw [hend]
    exact .inl ⟨found, hfound⟩
  · rw [hend]
    refine .inl ⟨found, ?_⟩
    have hne : found ≠ place := by
      rintro rfl
      simp [fileAt, hnone] at hfound
    rw [fileAt_put_file (by simp [hnone]), if_neg hne, hfound]
  · rw [displaced_of_file hplace (fileAt_eq_some_iff.mpr hold), hend]
    generalize t.ensured e.path.parent = u at hfound hold ⊢
    have hfree : (withCopy u place e.time old).lookup place ≠ some .directory := by
      rw [lookup_withCopy hold]
      simp
    have hafter : ∀ other,
        ((withCopy u place e.time old).put place (.file (.bytes e.content.toUTF8))).fileAt other =
          if other = place then some (.bytes e.content.toUTF8)
          else if copyPlace u place e.time = some other then some old else u.fileAt other := by
      intro other
      rw [fileAt_put_file hfree, fileAt_withCopy]
    generalize copyPlace u place e.time = copy at hafter ⊢
    by_cases hlost : copy = some found
    · -- The copy of the old file goes where the content stands.
      rw [hlost]
      exact .inr hfound
    by_cases hself : found = place
    · obtain rfl : old = c := by
        rw [hself, fileAt_eq_some_iff.mpr hold] at hfound
        exact Option.some.inj hfound
      cases copy with
      | none => exact .inr rfl
      | some spot =>
        have hne : spot ≠ place := fun heq => hlost (by rw [heq, hself])
        exact .inl ⟨spot, by rw [hafter, if_neg hne, if_pos rfl]⟩
    · exact .inl ⟨found, by rw [hafter, if_neg hself, if_neg hlost, hfound]⟩

/-! Runs. -/

def putAll : List Edition → FileTree → FileTree
  | [], t => t
  | e :: es, t => putAll es (e.put t)

private theorem putAll_append (es es' : List Edition) (t : FileTree) :
    putAll (es ++ es') t = putAll es' (putAll es t) := by
  induction es generalizing t with
  | nil => rfl
  | cons e es ih => exact ih _

private theorem hasContent_putAll {es : List Edition} {t : FileTree}
    (hdisplaced : ∀ earlier e, earlier ++ [e] <+: es → e.displaced (putAll earlier t) = some c →
      (putAll es t).HasContent c) (h : t.HasContent c) : (putAll es t).HasContent c := by
  induction es generalizing t with
  | nil => exact h
  | cons e es ih =>
    rcases hasContent_put (e := e) h with hkept | hlost
    · refine ih (fun earlier e' hearlier => ?_) hkept
      exact hdisplaced (e :: earlier) e' (List.cons_prefix_cons.mpr ⟨rfl, hearlier⟩)
    · exact hdisplaced [] e (List.cons_prefix_cons.mpr ⟨rfl, List.nil_prefix⟩) hlost

/-! Copies in places of their own. -/

def spot (e : Edition) : Place := copySpot (placeOf e.path) e.time

/-- Editions whose copies are meant for places of their own: where there is nothing at first, where
no other copy goes, and where nothing is written. -/
structure Undisturbed (es : List Edition) (t : FileTree) : Prop where
  straight : ∀ e ∈ es, ".." ∉ e.path.parts
  short : ∀ e ∈ es, (copyName e.path.name e.time).utf8ByteSize ≤ nameLimit
  free : ∀ e ∈ es, t.lookup e.spot = none
  apart : es.Pairwise fun e e' => e.spot ≠ e'.spot
  clear : ∀ e ∈ es, ∀ e' ∈ es, ¬ e.spot <+: placeOf e'.path

private theorem copyPlace_eq_spot {place : Place} {old : Content} (hdots : ".." ∉ e.path.parts)
    (hshort : (copyName e.path.name e.time).utf8ByteSize ≤ nameLimit)
    (hplace : t.locate e.path = .ok place) (hold : t.lookup place = some (.file old))
    (hfree : t.lookup e.spot = none) : copyPlace t place e.time = some e.spot := by
  obtain ⟨folder, -, -, -, -, hlast⟩ := exists_folder hplace hold
  have hname : place.getLast?.getD "" = e.path.name := by
    rw [hlast, List.getLast?_concat, Option.getD_some]
  have hspot : copySpot place e.time = e.spot := by
    rw [spot, locate_eq_placeOf hdots hplace]
  rw [copyPlace, hname, if_neg (Nat.not_lt.mpr hshort), hspot,
    unlessDirectory_eq_some_iff.mpr ⟨rfl, by simp [hfree]⟩, Option.some_or]

/-- The places where files may be new or changed after the first editions of a run. -/
def Targets (es earlier : List Edition) (place : Place) : Prop :=
  (∃ e ∈ es, place = placeOf e.path) ∨ ∃ e ∈ earlier, place = e.spot

section Undisturbed

variable {es earlier : List Edition} {t' : FileTree} (h : Undisturbed es t)
  (hearlier : earlier ++ [e] <+: es) (hgrown : GrownAt (Targets es earlier) t t')

include h hearlier hgrown

private theorem Undisturbed.lookup_spot : t'.lookup e.spot = none := by
  have hmem : ∀ e' ∈ earlier ++ [e], e' ∈ es := fun e' => (hearlier.subset ·)
  have he : e ∈ es := hmem e (by simp)
  have hfree := h.free e he
  have hne : ∀ e' ∈ earlier, e.spot ≠ e'.spot := by
    have hapart := h.apart.sublist hearlier.sublist
    intro e' he'
    exact ((List.pairwise_append.mp hapart).2.2 e' he' e (by simp)).symm
  cases hentry : t'.lookup e.spot with
  | none => rfl
  | some entry =>
    cases entry with
    | file c =>
      rcases hgrown.new_file _ c hfree hentry with ⟨e', he', heq⟩ | ⟨e', he', heq⟩
      · exact absurd (heq ▸ List.prefix_rfl) (h.clear e he e' he')
      · exact absurd heq (hne e' he')
    | directory =>
      obtain ⟨target, ⟨e', he', rfl⟩ | ⟨e', he', rfl⟩, habove, hproper⟩ :=
        hgrown.new_directory _ hfree hentry
      · exact absurd habove (h.clear e he e' he')
      · -- A directory above another copy is a directory above the file of that copy.
        rcases List.prefix_concat_iff.mp habove with heq | habove
        · exact absurd heq hproper
        · exact absurd (habove.trans (List.dropLast_prefix _))
            (h.clear e he e' (hmem e' (by simp [he'])))

private theorem Undisturbed.grownAt_ensured :
    GrownAt (Targets es earlier) t (t'.ensured e.path.parent) := by
  have he : e ∈ es := hearlier.subset (by simp)
  exact hgrown.trans (grownAt_makeDirectoriesTo (h.straight e he) (.inl ⟨e, he, rfl⟩) _ t')

private theorem Undisturbed.displaced_eq_none : e.displaced t' = none := by
  have he : e ∈ es := hearlier.subset (by simp)
  have hfree := h.lookup_spot hearlier (h.grownAt_ensured hearlier hgrown)
  cases hplace : (t'.ensured e.path.parent).locate e.path with
  | error f => simp only [displaced, hplace]
  | ok place =>
    cases hold : (t'.ensured e.path.parent).fileAt place with
    | none => simp only [displaced, hplace, hold, Option.bind_none]
    | some old =>
      rw [displaced_of_file hplace hold, copyPlace_eq_spot (h.straight e he) (h.short e he) hplace
        (fileAt_eq_some_iff.mp hold) hfree, Option.elim, fileAt, hfree]

private theorem Undisturbed.grownAt_put : GrownAt (Targets es (earlier ++ [e])) t (e.put t') := by
  have he : e ∈ es := hearlier.subset (by simp)
  have hdots := h.straight e he
  have hensured := h.grownAt_ensured hearlier hgrown
  have hfree := h.lookup_spot hearlier hensured
  have hmore : GrownAt (Targets es (earlier ++ [e])) t (t'.ensured e.path.parent) :=
    hensured.mono fun place => Or.imp_right <| by
      rintro ⟨e', he', heq⟩
      exact ⟨e', by simp [he'], heq⟩
  have htarget : Targets es (earlier ++ [e]) (placeOf e.path) := .inl ⟨e, he, rfl⟩
  rw [put]
  rcases rewritten_cases e.normal e.content e.time t' with
    hend | ⟨place, hplace, ⟨hnone, hend⟩ | ⟨old, hold, hend⟩⟩
  · rw [hend]
    exact hmore
  · obtain rfl := locate_eq_placeOf hdots hplace
    rw [hend]
    exact hmore.trans (grownAt_put_file (by simp [hnone]) htarget _)
  · have hcopy := copyPlace_eq_spot hdots (h.short e he) hplace hold hfree
    have hthere := lookup_withCopy hold e.time
    obtain rfl := locate_eq_placeOf hdots hplace
    rw [hend]
    -- The directories, then the copy, then the text itself.
    refine (hmore.trans ?_).trans (grownAt_put_file (by simp [hthere]) htarget _)
    rw [withCopy, hcopy]
    exact grownAt_put_file (by simp [hfree]) (.inr ⟨e, by simp, rfl⟩) _

end Undisturbed

private theorem Undisturbed.grownAt_putAll {es earlier : List Edition} (h : Undisturbed es t)
    (hearlier : earlier <+: es) : GrownAt (Targets es earlier) t (putAll earlier t) := by
  induction earlier using List.reverseRecOn with
  | nil => exact GrownAt.refl _ t
  | append_singleton earlier e ih =>
    have hgrown := ih ((List.prefix_append _ _).trans hearlier)
    rw [putAll_append]
    exact h.grownAt_put hearlier hgrown

end Edition

open Edition

def writeEach : List Edition → Work Bool
  | [] => pure true
  | e :: es => do
    modify fun w => { w with now := e.time }
    let done ← write (some (.path e.path)) e.content true
    let others ← writeEach es
    return done && others

def allWritten : List Edition → FileTree → Bool
  | [], _ => true
  | e :: es, t => (rewritten e.path e.content e.time t).1 && allWritten es (e.put t)

private theorem writeEach_apply (es : List Edition) (w : Workspace) :
    ∃ w', writeEach es w = (.ok (allWritten es w.files), w') ∧ w'.files = putAll es w.files := by
  induction es generalizing w with
  | nil => exact ⟨w, rfl, rfl⟩
  | cons e es ih =>
    obtain ⟨words, hfirst⟩ := acts_rewrite e.path e.content { w with now := e.time }
    obtain ⟨w', hrest, hfiles⟩ := ih { w with
      now := e.time, files := e.put w.files, printed := w.printed ++ words }
    refine ⟨w', ?_, hfiles⟩
    rw [writeEach]
    change
      (write (some (.path e.path)) e.content true >>= fun done => writeEach es >>= fun others =>
        pure (done && others)) { w with now := e.time } = _
    rw [bind_ok hfirst]
    exact bind_ok hrest _

private theorem files_writeEach (es : List Edition) (w : Workspace) :
    (writeEach es w).2.files = putAll es w.files := by
  obtain ⟨w', hrun, hfiles⟩ := writeEach_apply es w
  rw [hrun, hfiles]

/-- No content of a file is lost in a run: whatever some file held at first, or after some of the
editions, some file holds at the end. -/
def Lossless (es : List Edition) (w : Workspace) : Prop :=
  ∀ earlier, earlier <+: es → ∀ c, (writeEach earlier w).2.files.HasContent c →
    (writeEach es w).2.files.HasContent c

/-- Files are rewritten one after another, each with a copy of the old file. No content is lost
exactly if all that was displaced on the way is held by some file at the end. Nothing is lost if all
copies go to places of their own. -/
theorem writeEach_lossless_iff (es : List Edition) (w : Workspace) :
    (∃ done w', writeEach es w = (.ok done, w')) ∧
      (Lossless es w ↔ ∀ earlier e, earlier ++ [e] <+: es → ∀ c,
        e.displaced (writeEach earlier w).2.files = some c →
          (writeEach es w).2.files.HasContent c) ∧
      (Undisturbed es w.files → Lossless es w) := by
  have hfiles : ∀ es, (writeEach es w).2.files = putAll es w.files := (files_writeEach · w)
  have hiff : Lossless es w ↔ ∀ earlier e, earlier ++ [e] <+: es → ∀ c,
      e.displaced (writeEach earlier w).2.files = some c →
        (writeEach es w).2.files.HasContent c := by
    constructor
    · intro h earlier e hearlier c hlost
      exact h earlier ((List.prefix_append _ _).trans hearlier) c (hasContent_of_displaced hlost)
    · -- What is held after the first editions is at risk from the later ones alone.
      rintro h earlier ⟨later, rfl⟩ c hheld
      simp only [hfiles, putAll_append] at h hheld ⊢
      refine hasContent_putAll (fun between e hbetween hlost => ?_) hheld
      refine h (earlier ++ between) e ?_ c ?_
      · rw [List.append_assoc]
        exact (List.prefix_append_right_inj _).mpr hbetween
      · rwa [putAll_append]
  obtain ⟨w', hrun, -⟩ := writeEach_apply es w
  refine ⟨⟨_, w', hrun⟩, hiff, fun h => hiff.mpr fun earlier e hearlier c hlost => ?_⟩
  have hgrown := h.grownAt_putAll ((List.prefix_append _ _).trans hearlier)
  rw [hfiles, h.displaced_eq_none hearlier hgrown] at hlost
  cases hlost

def oneNote : Workspace :=
  { now := .ofFields 2024 1 2 3 4 5 0 none
    files := { entries := [(["a.txt"], .file (.bytes "A".toUTF8))] } }

def noted (content : String) (seconds : Int) : Edition :=
  { path := { parts := ["a.txt"] }
    content := content
    time := oneNote.now.later (seconds * Moment.perSecond) }

private theorem fileAt_entries {a b place : Place} {x y c : Content}
    (h : FileTree.fileAt { entries := [(a, .file x), (b, .file y)] } place = some c) :
    c = x ∨ c = y := by
  rw [fileAt_eq_some_iff, lookup] at h
  split_ifs at h
  · cases h
  · simp only [findEntry] at h
    split_ifs at h
    · exact .inl (Entry.file.inj (Option.some.inj h)).symm
    · exact .inr (Entry.file.inj (Option.some.inj h)).symm

/-- Two editions within a second share one copy, and the first content is lost. A second apart, they
have a copy each. -/
theorem writeEach_lossless_iff_hasty :
    (writeEach [noted "B" 0, noted "C" 0] oneNote).1 = .ok true ∧
      ¬ Lossless [noted "B" 0, noted "C" 0] oneNote ∧
      Lossless [noted "B" 0, noted "C" 1] oneNote := by
  have hspots : (noted "B" 0).spot = ["a_20240102_030405.txt"] ∧
      (noted "C" 1).spot = ["a_20240102_030406.txt"] := by decide +kernel
  have hnames : ∀ e ∈ [noted "B" 0, noted "C" 1],
      (copyName e.path.name e.time).utf8ByteSize ≤ nameLimit := by decide +kernel
  have hdone : allWritten [noted "B" 0, noted "C" 0] oneNote.files = true := by decide +kernel
  refine ⟨?_, fun h => ?_, (writeEach_lossless_iff _ _).2.2 ?_⟩
  · obtain ⟨w', hrun, -⟩ := writeEach_apply [noted "B" 0, noted "C" 0] oneNote
    rw [hrun, hdone]
  · have hlast : putAll [noted "B" 0, noted "C" 0] oneNote.files =
        { entries := [(["a.txt"], .file (.bytes "C".toUTF8)),
          (["a_20240102_030405.txt"], .file (.bytes "B".toUTF8))] } := rfl
    have hlost : (noted "C" 0).displaced (putAll [noted "B" 0] oneNote.files) =
        some (.bytes "A".toUTF8) := rfl
    rw [← files_writeEach] at hlast hlost
    obtain ⟨place, hplace⟩ := (writeEach_lossless_iff _ _).2.1.mp h [noted "B" 0] (noted "C" 0)
      List.prefix_rfl _ hlost
    rw [hlast] at hplace
    rcases fileAt_entries hplace with heq | heq
    · exact absurd (String.toByteArray_inj.mp (Content.bytes.inj heq)) (by decide)
    · exact absurd (String.toByteArray_inj.mp (Content.bytes.inj heq)) (by decide)
  · obtain ⟨hfirst, hsecond⟩ := hspots
    have hplace : ∀ content seconds, placeOf (noted content seconds).path = ["a.txt"] :=
      fun _ _ => rfl
    have hdots : ∀ content seconds, ".." ∉ (noted content seconds).path.parts := by
      intro content seconds
      simp [noted]
    refine ⟨?_, hnames, ?_, ?_, ?_⟩
    · simpa using ⟨hdots "B" 0, hdots "C" 1⟩
    · simp only [List.forall_mem_cons, hfirst, hsecond]
      exact ⟨rfl, rfl, by simp⟩
    · simp [hfirst, hsecond]
    · simp only [List.forall_mem_cons, hfirst, hsecond, hplace]
      simp

end SafeFile
end SuiteTidy

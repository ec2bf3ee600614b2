import SuiteTidy.Proofs.Files.Tree
import SuiteTidy.Settings.Check

/-!
Rules for settings, one after another. Some speak of the shape of a value: without it the check
cannot go on and breaks off with a fault. The others speak of the content, and settings that break
one are refused with its words. The first rule that is not kept decides. Main statement: settings
are accepted exactly if all rules are kept; of settings that are not, the words of a rule are
reported if the first rule that is not kept is one on the content, and the report fails if it is one
on a shape.
-/

set_option autoImplicit false
set_option relaxedAutoImplicit false

namespace SuiteTidy.SettingsCheck

/-! Rules and verdicts. -/

inductive Verdict where
  | accepted
  | refused (words : String)
  | failed

def verdict : Checked Unit → Verdict
  | .ok () => .accepted
  | .error (.invalid words _) => .refused words
  | .error _ => .failed

/-- A rule on the shape of a value, or a rule on the content with the words for settings that break
it. -/
inductive Rule where
  | shape (fits : Prop)
  | content (holds : Prop) (words : String)

namespace Rule

def Kept : Rule → Prop
  | shape fits => fits
  | content holds _ => holds

def verdict : Rule → Verdict
  | shape _ => .failed
  | content _ words => .refused words

private theorem verdict_ne_accepted (r : Rule) : r.verdict ≠ .accepted := by
  cases r <;> exact Verdict.noConfusion

end Rule

/-- A verdict by rules: the first that is not kept decides. -/
inductive Judged : List Rule → Verdict → Prop
  | accepted : Judged [] .accepted
  | stopped {r : Rule} (rs : List Rule) (h : ¬ r.Kept) : Judged (r :: rs) r.verdict
  | next {r : Rule} {rs : List Rule} {v : Verdict} (hr : r.Kept) (hrs : Judged rs v) :
      Judged (r :: rs) v

def FirstUnkept (r : Rule) (rs : List Rule) : Prop :=
  ∃ before later, rs = before ++ r :: later ∧ (∀ q ∈ before, q.Kept) ∧ ¬ r.Kept

variable {rs rs' : List Rule} {v v' : Verdict}

theorem Judged.unique (h : Judged rs v) (h' : Judged rs v') : v = v' := by
  induction h with
  | accepted =>
    cases h'
    rfl
  | stopped rs hr =>
    cases h' with
    | stopped => rfl
    | next hr' => exact absurd hr' hr
  | next hr hrs ih =>
    cases h' with
    | stopped _ hr' => exact absurd hr hr'
    | next _ hrs' => exact ih hrs'

private theorem judged_append_of_kept (hkept : ∀ r ∈ rs, r.Kept) (h : Judged rs' v) :
    Judged (rs ++ rs') v := by
  induction rs with
  | nil => exact h
  | cons r rs ih =>
    rw [List.forall_mem_cons] at hkept
    exact .next hkept.1 (ih hkept.2)

private theorem judged_iff :
    Judged rs v ↔
      (v = .accepted ∧ ∀ r ∈ rs, r.Kept) ∨ ∃ r, FirstUnkept r rs ∧ v = r.verdict := by
  constructor
  · intro h
    induction h with
    | accepted => exact .inl ⟨rfl, by simp⟩
    | @stopped r rs hr => exact .inr ⟨r, ⟨[], rs, rfl, by simp, hr⟩, rfl⟩
    | next hr _ ih =>
      rcases ih with ⟨rfl, hkept⟩ | ⟨q, ⟨before, later, rfl, hbefore, hq⟩, rfl⟩
      · exact .inl ⟨rfl, List.forall_mem_cons.mpr ⟨hr, hkept⟩⟩
      · exact .inr ⟨q, ⟨_ :: before, later, rfl, List.forall_mem_cons.mpr ⟨hr, hbefore⟩, hq⟩, rfl⟩
  · rintro (⟨rfl, hkept⟩ | ⟨r, ⟨before, later, rfl, hbefore, hr⟩, rfl⟩)
    · rw [← List.append_nil rs]
      exact judged_append_of_kept hkept .accepted
    · exact judged_append_of_kept hbefore (.stopped later hr)

private theorem judged_accepted_iff : Judged rs .accepted ↔ ∀ r ∈ rs, r.Kept := by
  rw [judged_iff]
  constructor
  · rintro (⟨-, hkept⟩ | ⟨r, -, hr⟩)
    · exact hkept
    · exact absurd hr.symm r.verdict_ne_accepted
  · exact fun hkept => .inl ⟨rfl, hkept⟩

private theorem judged_refused_iff {words : String} :
    Judged rs (.refused words) ↔ ∃ holds, FirstUnkept (.content holds words) rs := by
  rw [judged_iff]
  constructor
  · rintro (⟨hv, -⟩ | ⟨r, hfirst, hr⟩)
    · cases hv
    · cases r with
      | shape fits => cases hr
      | content holds words' =>
        cases hr
        exact ⟨holds, hfirst⟩
  · rintro ⟨holds, hfirst⟩
    exact .inr ⟨_, hfirst, rfl⟩

private theorem judged_failed_iff : Judged rs .failed ↔ ∃ fits, FirstUnkept (.shape fits) rs := by
  rw [judged_iff]
  constructor
  · rintro (⟨hv, -⟩ | ⟨r, hfirst, hr⟩)
    · cases hv
    · cases r with
      | shape fits => exact ⟨fits, hfirst⟩
      | content holds words => cases hr
  · rintro ⟨fits, hfirst⟩
    exact .inr ⟨_, hfirst, rfl⟩

/-! Checks in steps. -/

section Steps

variable {α : Type} {k : α → Checked Unit} {c : Unit → Checked Unit}

/-- A fault that does not say that a rule on the content is broken. -/
def Plain : Fault → Prop
  | .invalid _ _ => False
  | _ => True

private theorem judged_step {found : Checked α} {fits : Prop} (hfits : fits ↔ ∃ a, found = .ok a)
    (hplain : ∀ f, found = .error f → Plain f)
    (hnext : ∀ a, found = .ok a → Judged rs (verdict (k a))) :
    Judged (.shape fits :: rs) (verdict (found >>= k)) := by
  cases hfound : found with
  | error f =>
    have hfailed : verdict (.error f >>= k) = .failed := by
      have hf := hplain f hfound
      cases f with
      | invalid words details => exact absurd hf id
      | _ => rfl
    rw [hfailed]
    refine .stopped (r := .shape fits) rs fun h => ?_
    obtain ⟨a, ha⟩ := hfits.mp h
    rw [hfound] at ha
    cases ha
  | ok a => exact .next (hfits.mpr ⟨a, hfound⟩) (hnext a hfound)

private theorem judged_look {found : Datum.Found α} {fits : Prop}
    (hfits : fits ↔ ∃ a, found = .ok a) (hnext : ∀ a, found = .ok a → Judged rs (verdict (k a))) :
    Judged (.shape fits :: rs) (verdict (look found >>= k)) := by
  have hlook (a : α) : look found = .ok a ↔ found = .ok a := by
    cases found <;> simp [look, Except.mapError]
  have hplain (f : Fault) (hf : look found = .error f) : Plain f := by
    cases found with
    | error e =>
      cases hf
      trivial
    | ok a => cases hf
  exact judged_step (hfits.trans (exists_congr fun a => (hlook a).symm)) hplain
    fun a ha => hnext a ((hlook a).mp ha)

private theorem judged_ensure {holds : Bool} {kept : Prop} (hkept : kept ↔ holds = true)
    (words : String) (details : List (String × Datum))
    (hnext : holds = true → Judged rs (verdict (c ()))) :
    Judged (.content kept words :: rs) (verdict (ensure holds words details >>= c)) := by
  cases holds with
  | false => exact .stopped (r := .content kept words) rs fun h => Bool.false_ne_true (hkept.mp h)
  | true => exact .next (hkept.mpr rfl) (hnext rfl)

private theorem judged_ensure_end {holds : Bool} {kept : Prop} (hkept : kept ↔ holds = true)
    (words : String) (details : List (String × Datum)) :
    Judged [.content kept words] (verdict (ensure holds words details)) := by
  cases holds with
  | false => exact .stopped (r := .content kept words) [] fun h => Bool.false_ne_true (hkept.mp h)
  | true => exact .next (hkept.mpr rfl) .accepted

private theorem judged_bind {first : Checked Unit} (hfirst : Judged rs (verdict first))
    (hnext : first = .ok () → Judged rs' (verdict (c ()))) :
    Judged (rs ++ rs') (verdict (first >>= c)) := by
  cases first with
  | ok u =>
    exact judged_append_of_kept (judged_accepted_iff.mp hfirst) (hnext rfl)
  | error f =>
    -- The first check has broken a rule, so what it says is the verdict on all rules.
    have hstays : verdict (.error f >>= c) = verdict (.error f) := rfl
    rw [hstays]
    rcases judged_iff.mp hfirst with ⟨hv, -⟩ | ⟨r, ⟨before, later, rfl, hbefore, hr⟩, hv⟩
    · cases f <;> cases hv
    · rw [hv, List.append_assoc]
      exact judged_append_of_kept hbefore (.stopped _ hr)

private theorem judged_forM {xs : List α} {f : α → Checked Unit} {rules : α → List Rule}
    (h : ∀ x ∈ xs, Judged (rules x) (verdict (f x))) :
    Judged (xs.flatMap rules) (verdict (xs.forM f)) := by
  induction xs with
  | nil => exact .accepted
  | cons x xs ih =>
    rw [List.forall_mem_cons] at h
    rw [List.flatMap_cons]
    exact judged_bind h.1 fun _ => ih h.2

end Steps

/-! The rules for settings. -/

def IsDict (d : Datum) : Prop := ∃ fields, d = .dict fields

def valueOr (d : Datum) (key : String) (other : Datum) : Datum :=
  match d with
  | .dict fields => (Datum.lookup (.text key) fields).getD other
  | _ => other

def Searchable : Datum → Prop
  | .dict _ | .list _ | .tuple _ | .text _ => True
  | _ => False

/-- A section with the fields that must be in it. The section can be anything that holds their
names. -/
def partRules (d : Datum) (part : String) (names : List String) : List Rule :=
  .content (d.holds part = .ok true) ("Missing required section: " ++ part) ::
    names.flatMap fun name =>
      [.shape (Searchable (valueOr d part .null)),
        .content ((valueOr d part .null).holds name = .ok true)
          ("Missing required field in " ++ part ++ ": " ++ name)]

def requiredRules (d : Datum) : List Rule := required.flatMap fun part => partRules d part.1 part.2

def projectRules (d : Datum) : List Rule :=
  [.shape (IsDict d),
    .content ((valueOr d "name" .null).truthy = true) "Project name cannot be empty",
    .shape (∃ s, valueOr d "version" (.text "") = .text s),
    .content (∃ s, valueOr d "version" (.text "") = .text s ∧ isVersion s = true)
      "Invalid version format (expected: X.Y.Z)"]

/-- A whole number; true and false count as one and zero. -/
def whole? : Datum → Option Int
  | .int n => some n
  | .bool b => some (if b then 1 else 0)
  | _ => none

def NamesPath (d : Datum) (p : Path) : Prop :=
  d = .path p ∨ ∃ s, d = .text s ∧ p = .ofString s

def scanningRules (t : FileTree) (d : Datum) : List Rule :=
  let root := valueOr d "root_directory" .null
  [.shape (IsDict d),
    .shape (root.truthy = true →
      ∃ p, NamesPath root p ∧ ∀ q, t.locate p ≠ .error (.nameTooLong q)),
    .content (root.truthy = true → ∃ p, NamesPath root p ∧ t.exists_ p = .ok true)
      "Root directory does not exist",
    .content (∃ n, whole? (valueOr d "max_workers" (.int 4)) = some n ∧ 1 ≤ n ∧ n ≤ 16)
      "max_workers must be between 1 and 16",
    .content (∃ x, (valueOr d "max_file_size_mb" (.int 5)).number? = some x ∧
        x.atMost (.int 0) = false)
      "max_file_size_mb must be positive"]

def Comparable (c : Datum.Comparison) (a b : Datum) : Prop := ∃ r, Datum.compared c a b = .ok r

def thresholdRules (d : Datum) : List Rule :=
  let complexity := valueOr d "complexity" (.dict [])
  let simple := valueOr complexity "simple_max" (.int 30)
  let medium := valueOr complexity "medium_max" (.int 60)
  let quality := valueOr d "quality" (.dict [])
  let excellent := valueOr quality "excellent_min" (.int 80)
  let good := valueOr quality "good_min" (.int 60)
  let fair := valueOr quality "fair_min" (.int 40)
  [.shape (IsDict d), .shape (IsDict complexity), .shape (Comparable .atLeast simple medium),
    .content (Datum.compared .atLeast simple medium = .ok false)
      "simple_max must be less than medium_max",
    .shape (IsDict quality), .shape (Comparable .less fair good),
    .shape (Datum.compared .less fair good = .ok true → Comparable .less good excellent),
    .content (Datum.compared .less fair good = .ok true ∧
        Datum.compared .less good excellent = .ok true)
      "Quality thresholds must be: fair < good < excellent"]

/-- A value has to be one of some words. If it is none of them, it must be possible to say so. -/
def wordRules (words : List String) (about : String) (d : Datum) : List Rule :=
  [.shape (isOneOf words d = true ∨ hasLongInteger d = false),
    .content (isOneOf words d = true) (about ++ ": " ++ d.plain)]

def membersOf (d : Datum) : List Datum := d.members.toOption.getD []

def outputRules (d : Datum) : List Rule :=
  let formats := valueOr d "formats" (.list [])
  .shape (IsDict d) :: .shape (formats.truthy = true → ∃ xs, formats.members = .ok xs) ::
    (membersOf formats).flatMap (wordRules outputFormats "Invalid output format")

def loggingRules (d : Datum) : List Rule :=
  .shape (IsDict d) :: wordRules logLevels "Invalid log level" (valueOr d "level" (.text "INFO"))

def rules (t : FileTree) (d : Datum) : List Rule :=
  requiredRules d ++ (projectRules (valueOr d "project" (.dict [])) ++
    (scanningRules t (valueOr d "scanning" (.dict [])) ++
      (thresholdRules (valueOr d "thresholds" (.dict [])) ++
        (outputRules (valueOr d "output" (.dict [])) ++
          loggingRules (valueOr d "logging" (.dict []))))))

/-! What the checks do. -/

private theorem fieldOr_of_isDict {d : Datum} (h : IsDict d) (key : String) (other : Datum) :
    fieldOr d key other = .ok (valueOr d key other) := by
  obtain ⟨fields, rfl⟩ := h
  rfl

private theorem judged_field {k : Datum → Checked Unit} (d : Datum) (key : String) (other : Datum)
    (hnext : IsDict d → Judged rs (verdict (k (valueOr d key other)))) :
    Judged (.shape (IsDict d) :: rs) (verdict (fieldOr d key other >>= k)) := by
  by_cases h : IsDict d
  · rw [fieldOr_of_isDict h]
    exact .next h (hnext h)
  · have hfault : verdict (fieldOr d key other >>= k) = .failed := by
      cases d with
      | dict fields => exact absurd ⟨fields, rfl⟩ h
      | _ => rfl
    rw [hfault]
    exact .stopped (r := .shape (IsDict d)) rs h

private theorem holds_isOk_iff (d : Datum) (key : String) :
    Searchable d ↔ ∃ b, d.holds key = .ok b := by
  cases d <;> simp [Searchable, Datum.holds]

private theorem judged_requiredParts (fields : List (Datum × Datum)) :
    Judged (requiredRules (.dict fields)) (verdict (requiredParts (.dict fields))) := by
  refine judged_forM fun part _ => ?_
  obtain ⟨part, names⟩ := part
  have hholds : (Datum.dict fields).holds part =
      .ok (Datum.lookup (.text part) fields).isSome := rfl
  refine judged_ensure (by rw [hholds, Except.ok.injEq]) _ _ fun hthere => ?_
  obtain ⟨inner, hinner⟩ := Option.isSome_iff_exists.mp hthere
  have hitem : (Datum.dict fields).item part = .ok inner := by
    simp only [Datum.item, hinner]
  have hvalue : valueOr (.dict fields) part .null = inner := by
    simp only [valueOr, hinner, Option.getD_some]
  rw [hitem, hvalue]
  refine judged_forM fun name _ => ?_
  refine judged_look (holds_isOk_iff inner name) fun b hb => ?_
  exact judged_ensure_end (by rw [hb, Except.ok.injEq]) _ _

private theorem judged_project (d : Datum) : Judged (projectRules d) (verdict (project d)) := by
  refine judged_field d _ _ fun hdict => ?_
  refine judged_ensure Iff.rfl _ _ fun _ => ?_
  rw [fieldOr_of_isDict hdict]
  cases valueOr d "version" (.text "") with
  | text s =>
    refine .next ⟨s, rfl⟩ (judged_ensure_end ?_ _ _)
    simp
  | _ =>
    refine .stopped (r := .shape _) _ ?_
    rintro ⟨s, hs⟩
    cases hs

private theorem pathOf_eq_ok_iff (d : Datum) (p : Path) : pathOf d = .ok p ↔ NamesPath d p := by
  cases d <;> simp [pathOf, NamesPath, eq_comm]

private theorem exists_isOk_iff (t : FileTree) (p : Path) :
    (∃ b, t.exists_ p = .ok b) ↔ ∀ q, t.locate p ≠ .error (.nameTooLong q) := by
  cases hplace : t.locate p with
  | ok place => simp [FileTree.exists_of_locate hplace]
  | error f =>
    cases f <;> simp [FileTree.exists_, FileTree.status, FileTree.entry, hplace, bind, Except.bind,
      pure, Except.pure]

private theorem exists_pathOf_eq_ok_iff (t : FileTree) (d : Datum) (b : Bool) :
    (pathOf d >>= fun p => (t.exists_ p).mapError Fault.file) = .ok b ↔
      ∃ p, NamesPath d p ∧ t.exists_ p = .ok b := by
  simp only [← pathOf_eq_ok_iff]
  cases pathOf d with
  | error f => simp [bind, Except.bind]
  | ok p => cases hb : t.exists_ p <;> simp [bind, Except.bind, Except.mapError, hb]

private theorem plain_exists_pathOf (t : FileTree) (d : Datum) {f : Fault}
    (h : (pathOf d >>= fun p => (t.exists_ p).mapError Fault.file) = .error f) : Plain f := by
  have hfile (p : Path) (hp : (t.exists_ p).mapError Fault.file = .error f) : Plain f := by
    cases hexists : t.exists_ p with
    | error e =>
      rw [hexists] at hp
      cases hp
      trivial
    | ok b =>
      rw [hexists] at hp
      cases hp
  cases d with
  | text s => exact hfile (.ofString s) h
  | path p => exact hfile p h
  | _ =>
    cases h
    trivial

private theorem judged_root (t : FileTree) (root : Datum) {rest : Unit → Checked Unit}
    (hrest : Judged rs (verdict (rest ()))) :
    Judged
      (.shape (root.truthy = true →
          ∃ p, NamesPath root p ∧ ∀ q, t.locate p ≠ .error (.nameTooLong q)) ::
        .content (root.truthy = true → ∃ p, NamesPath root p ∧ t.exists_ p = .ok true)
          "Root directory does not exist" :: rs)
      (verdict (if root.truthy = true then do
          let found ← (t.exists_ (← pathOf root)).mapError .file
          ensure found "Root directory does not exist" [("path", root)] >>= rest
        else rest ())) := by
  by_cases hroot : root.truthy = true
  · rw [if_pos hroot]
    rw [← bind_assoc]
    refine judged_step ?_ (fun f hf => ?_) fun found hfound => judged_ensure ?_ _ _ fun _ => hrest
    · simp only [hroot, true_imp_iff, exists_pathOf_eq_ok_iff, ← exists_isOk_iff]
      constructor
      · rintro ⟨p, hp, b, hb⟩
        exact ⟨b, p, hp, hb⟩
      · rintro ⟨b, p, hp, hb⟩
        exact ⟨p, hp, b, hb⟩
    · exact plain_exists_pathOf t root hf
    · rw [← exists_pathOf_eq_ok_iff, hfound]
      simp [hroot]
  · rw [if_neg hroot]
    exact .next (absurd · hroot) (.next (absurd · hroot) hrest)

private theorem judged_scanning (t : FileTree) (d : Datum) :
    Judged (scanningRules t d) (verdict (scanning t d)) := by
  refine judged_field d _ _ fun hdict => ?_
  rw [fieldOr_of_isDict hdict, fieldOr_of_isDict hdict]
  refine judged_root t _ ?_
  refine judged_ensure ?_ _ _ fun _ => judged_ensure_end ?_ _ _
  · cases valueOr d "max_workers" (.int 4) with
    | bool b => cases b <;> simp [whole?]
    | _ => simp [whole?]
  · cases (valueOr d "max_file_size_mb" (.int 5)).number? with
    | none => simp
    | some x => simp

private theorem judged_thresholds (d : Datum) :
    Judged (thresholdRules d) (verdict (thresholds d)) := by
  refine judged_field d _ _ fun hdict => ?_
  refine judged_field _ _ _ fun hcomplexity => ?_
  rw [fieldOr_of_isDict hcomplexity]
  refine judged_look Iff.rfl fun b hb => ?_
  refine judged_ensure (by rw [hb]; cases b <;> simp) _ _ fun _ => ?_
  rw [fieldOr_of_isDict hdict]
  refine judged_field _ _ _ fun hquality => ?_
  rw [fieldOr_of_isDict hquality, fieldOr_of_isDict hquality]
  refine judged_look Iff.rfl fun rising hrising => ?_
  cases rising with
  | false =>
    -- The other two are not compared.
    refine .next (fun h => ?_) ?_
    · rw [hrising] at h
      cases h
    · change Judged _ (verdict (ensure false _ _))
      exact judged_ensure_end (by simp [hrising]) _ _
  | true =>
    refine judged_look ?_ fun b hb => judged_ensure_end ?_ _ _
    · simp [hrising, Comparable]
    · rw [hb]
      simp [hrising]

private theorem judged_ensureOneOf (words : List String) (about key : String) (d : Datum) :
    Judged (wordRules words about d) (verdict (ensureOneOf words about key d)) := by
  rw [wordRules, ensureOneOf]
  cases hword : isOneOf words d with
  | true => exact .next (.inl rfl) (.next rfl .accepted)
  | false =>
    cases hlong : hasLongInteger d with
    | true =>
      have hworded : worded d = .error (.json .tooManyDigitsToWrite) := by rw [worded, if_pos hlong]
      rw [hworded]
      exact .stopped (r := .shape _) _ (by simp [Rule.Kept])
    | false =>
      have hworded : worded d = .ok d.plain := by rw [worded, hlong]; rfl
      rw [hworded]
      exact .next (.inr rfl) (judged_ensure_end (by simp) _ _)

private theorem membersOf_of_not_truthy {d : Datum} (h : d.truthy ≠ true) : membersOf d = [] := by
  cases d <;> simp_all [Datum.truthy, membersOf, Datum.members, Except.toOption]

private theorem judged_output (d : Datum) : Judged (outputRules d) (verdict (output d)) := by
  refine judged_field d _ _ fun _ => ?_
  generalize valueOr d "formats" (.list []) = formats
  by_cases hgiven : formats.truthy = true
  · rw [if_pos hgiven]
    refine judged_look ⟨fun h => h hgiven, fun h _ => h⟩ fun xs hxs => ?_
    have hmembers : membersOf formats = xs := by rw [membersOf, hxs]; rfl
    rw [hmembers]
    exact judged_forM fun x _ => judged_ensureOneOf _ _ _ x
  · rw [if_neg hgiven, membersOf_of_not_truthy hgiven]
    exact .next (absurd · hgiven) .accepted

private theorem judged_logging (d : Datum) : Judged (loggingRules d) (verdict (logging d)) :=
  judged_field d _ _ fun _ => judged_ensureOneOf _ _ _ _

private theorem judged_check (t : FileTree) (fields : List (Datum × Datum)) :
    Judged (rules t (.dict fields)) (verdict (check t (.dict fields))) := by
  refine judged_bind (judged_requiredParts fields) fun _ => ?_
  refine judged_bind (judged_project _) fun _ => ?_
  refine judged_bind (judged_scanning t _) fun _ => ?_
  refine judged_bind (judged_thresholds _) fun _ => ?_
  exact judged_bind (judged_output _) fun _ => judged_logging _

private theorem check_eq_ok_iff (t : FileTree) (d : Datum) :
    check t d = .ok () ↔ verdict (check t d) = .accepted := by
  cases check t d with
  | ok u => exact ⟨fun _ => rfl, fun _ => rfl⟩
  | error f => cases f <;> simp [verdict]

private theorem errors_eq (t : FileTree) (d : Datum) :
    (errors t d = .ok [] ↔ verdict (check t d) = .accepted) ∧
      (∀ words, errors t d = .ok [words] ↔ verdict (check t d) = .refused words) ∧
      ((∃ f, errors t d = .error f) ↔ verdict (check t d) = .failed) := by
  rw [errors]
  cases check t d with
  | ok u => simp [verdict]
  | error f => cases f <;> simp [verdict]

/-- Settings are accepted exactly if all rules are kept, and then nothing is reported. Otherwise the
first rule that is not kept decides: the words of a rule on the content are reported, and a rule on
the shape of a value makes the report itself fail. -/
theorem errors_first_unkept (t : FileTree) (fields : List (Datum × Datum)) :
    (errors t (.dict fields) = .ok [] ↔ check t (.dict fields) = .ok ()) ∧
      (check t (.dict fields) = .ok () ↔ ∀ r ∈ rules t (.dict fields), r.Kept) ∧
      (∀ words, errors t (.dict fields) = .ok [words] ↔
        ∃ holds, FirstUnkept (.content holds words) (rules t (.dict fields))) ∧
      ((∃ f, errors t (.dict fields) = .error f) ↔
        ∃ fits, FirstUnkept (.shape fits) (rules t (.dict fields))) := by
  have hjudged := judged_check t fields
  obtain ⟨hempty, hwords, hfails⟩ := errors_eq t (.dict fields)
  have hverdict (v : Verdict) :
      verdict (check t (.dict fields)) = v ↔ Judged (rules t (.dict fields)) v :=
    ⟨fun h => h ▸ hjudged, fun h => hjudged.unique h⟩
  refine ⟨hempty.trans (check_eq_ok_iff t _).symm, ?_, fun words => ?_, ?_⟩
  · rw [check_eq_ok_iff, hverdict, judged_accepted_iff]
  · rw [hwords, hverdict, judged_refused_iff]
  · rw [hfails, hverdict, judged_failed_iff]

theorem errors_first_unkept_noProject :
    errors {} (.dict []) = .ok ["Missing required section: project"] ∧
      ∃ f, errors {} (.dict [(.text "project", .null)]) = .error f := by
  obtain ⟨-, -, hreported, -⟩ := errors_first_unkept {} []
  obtain ⟨-, -, -, hfails⟩ := errors_first_unkept {} [(.text "project", .null)]
  refine ⟨(hreported _).mpr ⟨_, [], _, rfl, by simp, ?_⟩, hfails.mpr ?_⟩
  · intro h
    cases h
  · have hthere : (Datum.dict [(.text "project", .null)]).holds "project" = .ok true := rfl
    exact ⟨Searchable .null, [_], _, rfl, List.forall_mem_singleton.mpr hthere, id⟩

end SuiteTidy.SettingsCheck

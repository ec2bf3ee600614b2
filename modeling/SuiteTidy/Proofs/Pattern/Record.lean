import SuiteTidy.Pattern.Store
import SuiteTidy.Proofs.Json.Refusal
import SuiteTidy.Proofs.Moment.RoundTrip

/-!
Records of patterns. A record has no field for the examples of a pattern, only for their number, and
none for the patterns that it is related to. Read back, it gives all the rest.
-/

set_option autoImplicit false
set_option relaxedAutoImplicit false

namespace SuiteTidy

private theorem PatternKind.ofWord_word (k : PatternKind) : ofWord (.text k.word) = .ok k := by
  cases k <;> rfl

namespace Pattern

open Datum

structure Dated (p : Pattern) : Prop where
  discoveredAt : p.discoveredAt.OnCalendar
  lastSeen : p.lastSeen.OnCalendar

def onRecord (p : Pattern) : Pattern := { p with examples := [], related := [] }

private theorem momentOf_iso {m : Moment} (h : m.OnCalendar) : momentOf (.text m.iso) = .ok m := by
  rw [momentOf, Moment.read_iso h]
  rfl

private theorem frequencyOf_ofOption (f : Option Frequency) :
    frequencyOf (.ofOption (fun f => .text f.word) f) = .ok f := by
  cases f with
  | none => rfl
  | some f => cases f <;> rfl

private theorem numberOf_ofNumber (place : String) (x : Number) :
    numberOf place (.ofNumber x) = .ok x := by
  cases x <;> rfl

private theorem textsOf_nil (place : String) : (Datum.list []).textsOf place = .ok [] := rfl

theorem ofDatum_toDatum {p : Pattern} (h : p.Dated) : ofDatum p.toDatum = .ok p.onRecord := by
  have hid : p.toDatum.item "id" = .ok (.text p.id) := rfl
  have hkind : p.toDatum.item "type" = .ok (.text p.kind.word) := rfl
  have hname : p.toDatum.item "name" = .ok (.text p.name) := rfl
  have hdescription : p.toDatum.item "description" = .ok (.text p.description) := rfl
  have hdiscovered : p.toDatum.item "discovered_at" = .ok (.text p.discoveredAt.iso) := rfl
  have hseen : p.toDatum.item "last_seen" = .ok (.text p.lastSeen.iso) := rfl
  have hexamples : p.toDatum.field? "examples" = none := rfl
  have hrelated : p.toDatum.field? "related_patterns" = none := rfl
  have hoccurrences : p.toDatum.field? "occurrences" = some (.int p.occurrences) := rfl
  have hfiles : p.toDatum.field? "total_files" = some (.int p.totalFiles) := rfl
  have hfrequency : p.toDatum.field? "frequency" = some _ := rfl
  have hconfidence : p.toDatum.field? "confidence" = some (.ofNumber p.confidence) := rfl
  have hgood : p.toDatum.field? "is_good_practice" = some (.bool p.isGoodPractice) := rfl
  have hadvice : p.toDatum.field? "recommendation" = some (.ofOption .text p.recommendation) := rfl
  simp only [ofDatum, hid, hkind, hname, hdescription, hdiscovered, hseen, hexamples, hrelated,
    hoccurrences, hfiles, hfrequency, hconfidence, hgood, hadvice, bind, Except.bind,
    Option.getD_some, Option.getD_none, asText, Except.mapError, PatternKind.ofWord_word,
    frequencyOf_ofOption, numberOf_ofNumber, momentOf_iso h.discoveredAt, momentOf_iso h.lastSeen]
  cases hadvised : p.recommendation with
  | none => simp only [textsOf_nil, ofOption, truthy, onRecord, hadvised, pure, Except.pure]
  | some s => simp only [textsOf_nil, ofOption, truthy, onRecord, hadvised, pure, Except.pure]

theorem onRecord_eq_self_iff {p : Pattern} : p.onRecord = p ↔ p.examples = [] ∧ p.related = [] := by
  constructor
  · intro h
    have hexamples : p.onRecord.examples = [] := rfl
    have hrelated : p.onRecord.related = [] := rfl
    rw [h] at hexamples hrelated
    exact ⟨hexamples, hrelated⟩
  · rintro ⟨hexamples, hrelated⟩
    cases p
    cases hexamples
    cases hrelated
    rfl

theorem map_onRecord_eq_self_iff {ps : List Pattern} :
    ps.map onRecord = ps ↔ ∀ p ∈ ps, p.examples = [] ∧ p.related = [] := by
  induction ps with
  | nil => simp
  | cons p ps ih =>
    rw [List.map_cons, List.cons.injEq, onRecord_eq_self_iff, ih, List.forall_mem_cons]

/-! Records that can be written. -/

def integers (p : Pattern) : List Int :=
  [p.occurrences, p.totalFiles, p.examples.length] ++
    match p.confidence with
    | .int n => [n]
    | .real _ => []

def Writable (p : Pattern) : Prop :=
  ∀ n ∈ p.integers, (toString n.natAbs).length ≤ Json.digitLimit

instance (p : Pattern) : Decidable p.Writable := inferInstanceAs (Decidable (∀ _ ∈ _, _))

theorem writable_of_encodable {p : Pattern} (h : Json.Encodable p.toDatum) : p.Writable := by
  have hfields := Json.encodable_record_iff.mp h
  have hoccurrences := hfields ("occurrences", .int p.occurrences) (by simp)
  have hfiles := hfields ("total_files", .int p.totalFiles) (by simp)
  have hexamples := hfields ("examples_count", .int p.examples.length) (by simp [nat])
  have hconfidence := hfields ("confidence", .ofNumber p.confidence) (by simp)
  simp only [Json.Encodable] at hoccurrences hfiles hexamples
  intro n hn
  rw [integers, List.mem_append] at hn
  rcases hn with hn | hn
  · simp only [List.mem_cons, List.not_mem_nil, or_false] at hn
    rcases hn with rfl | rfl | rfl
    · exact hoccurrences
    · exact hfiles
    · exact hexamples
  · cases hnumber : p.confidence with
    | real x => simp [hnumber] at hn
    | int m =>
      obtain rfl : n = m := by simpa [hnumber] using hn
      simpa [hnumber, ofNumber, Json.Encodable, Json.ShortInt] using hconfidence

theorem Writable.plain {p : Pattern} (h : p.Writable) : Json.Plain p.toDatum := by
  have hint {n : Int} (hn : n ∈ p.integers) : Json.Plain (.int n) := by
    rw [Json.Plain]
    exact h n hn
  have hconfidence : Json.Plain (.ofNumber p.confidence) := by
    cases hnumber : p.confidence with
    | real x => exact Json.plain_real x
    | int n => exact hint (by simp [integers, hnumber])
  have hfrequency : Json.Plain (.ofOption (fun f => .text f.word) p.frequency) := by
    cases p.frequency with
    | none => simp [ofOption, Json.Plain]
    | some f => exact Json.plain_text f.word
  have hadvice : Json.Plain (.ofOption .text p.recommendation) := by
    cases p.recommendation with
    | none => simp [ofOption, Json.Plain]
    | some s => exact Json.plain_text s
  refine Json.plain_record (by simp) ?_
  simp only [List.forall_mem_cons]
  exact ⟨Json.plain_text _, Json.plain_text _, Json.plain_text _, Json.plain_text _,
    hint (by simp [integers]), hint (by simp [integers]), hfrequency, hconfidence,
    Json.plain_bool _, hadvice, hint (by simp [integers]), Json.plain_text _,
    Json.plain_text _, by simp⟩

end Pattern
end SuiteTidy

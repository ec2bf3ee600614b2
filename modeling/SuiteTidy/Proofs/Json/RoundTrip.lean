import SuiteTidy.Proofs.Json.Real

/-!
Documents that are read back as they were written. The written form of a value is read as the value
wherever it stands in a document, so the form of a list or dictionary is put together from the forms
of what it holds. This goes for every layout that keeps to the commas and colons of JSON.
-/

set_option autoImplicit false
set_option relaxedAutoImplicit false

namespace SuiteTidy.Json

/-! Values with a JSON form of their own. -/

def ShortInt (n : Int) : Prop := (toString n.natAbs).length ≤ digitLimit

instance (n : Int) : Decidable (ShortInt n) := inferInstanceAs (Decidable (_ ≤ _))

mutual
/-- A value that is nothing, true or false, a number, a text, or a list or dictionary of such
values, at any depth. No integer in it has too many digits. The keys of a dictionary are texts, and
no two are equal. -/
def Plain : Datum → Prop
  | .null => True
  | .bool _ => True
  | .int n => ShortInt n
  | .real _ => True
  | .text _ => True
  | .list xs => PlainAll xs
  | .dict fs => PlainFields fs ∧ (fs.map Prod.fst).Nodup
  | _ => False

def PlainAll : List Datum → Prop
  | [] => True
  | x :: xs => Plain x ∧ PlainAll xs

def PlainFields : List (Datum × Datum) → Prop
  | [] => True
  | (k, v) :: rest => (∃ s, k = .text s) ∧ Plain v ∧ PlainFields rest
end

theorem plain_text (s : String) : Plain (.text s) := by
  rw [Plain]
  trivial

theorem plain_bool (b : Bool) : Plain (.bool b) := by
  rw [Plain]
  trivial

theorem plain_real (x : Float) : Plain (.real x) := by
  rw [Plain]
  trivial

private theorem length_toString_le {n limit : Nat} (hpos : 0 < limit) (h : n < Nat.pow 10 limit) :
    (toString n).length ≤ limit := Nat.repr_length n limit hpos h

theorem plain_int {n : Int} (h : n.natAbs < Nat.pow 10 digitLimit) : Plain (.int n) := by
  rw [Plain]
  exact length_toString_le (by decide) h

theorem plain_list {xs : List Datum} (h : ∀ x ∈ xs, Plain x) : Plain (.list xs) := by
  rw [Plain]
  induction xs with
  | nil =>
    rw [PlainAll]
    trivial
  | cons x xs ih =>
    rw [List.forall_mem_cons] at h
    rw [PlainAll]
    exact ⟨h.1, ih h.2⟩

theorem plain_texts (ss : List String) : Plain (.texts ss) := by
  refine plain_list fun x hx => ?_
  obtain ⟨s, -, rfl⟩ := List.mem_map.mp hx
  exact plain_text s

theorem plain_record {fs : List (String × Datum)} (hkeys : (fs.map Prod.fst).Nodup)
    (h : ∀ f ∈ fs, Plain f.2) : Plain (.record fs) := by
  have hfields : PlainFields (fs.map fun f => (.text f.1, f.2)) := by
    clear hkeys
    induction fs with
    | nil =>
      rw [List.map_nil, PlainFields]
      trivial
    | cons f fs ih =>
      rw [List.forall_mem_cons] at h
      rw [List.map_cons, PlainFields]
      exact ⟨⟨f.1, rfl⟩, h.1, ih h.2⟩
  have hnodup : ((fs.map fun f => (Datum.text f.1, f.2)).map Prod.fst).Nodup := by
    have htexts := hkeys.map (f := Datum.text) fun a b hab => Datum.text.inj hab
    simpa [List.map_map, Function.comp_def] using htexts
  rw [Datum.record, Plain]
  exact ⟨hfields, hnodup⟩

/-! Gaps between the parts of a document. -/

/-- Space as it is written between the parts of a document. The reader passes over it. -/
def Gap (cs : List Char) : Prop := ∀ c ∈ cs, c = ' ' ∨ c = '\n'

private theorem Gap.isSpace_eq {gap : List Char} (hgap : Gap gap) :
    ∀ c ∈ gap, isSpace c = true := by
  intro c hc
  rcases hgap c hc with rfl | rfl <;> rfl

private theorem Gap.return_not_mem {gap : List Char} (hgap : Gap gap) : '\r' ∉ gap := by
  intro hmem
  rcases hgap _ hmem with h | h <;> exact absurd h (by decide)

private theorem skipSpace_append {gap rest : List Char} (hgap : Gap gap)
    (hrest : ∀ c ∈ rest.head?, isSpace c = false) : skipSpace (gap ++ rest) = rest := by
  rw [skipSpace, List.dropWhile_append_of_pos hgap.isSpace_eq]
  cases rest with
  | nil => rfl
  | cons c rest => simp [hrest c (by simp)]

private theorem skipSpace_cons {c : Char} (hc : isSpace c = false) (rest : List Char) :
    skipSpace (c :: rest) = c :: rest := by
  simp [skipSpace, hc]

private theorem ends_gap_append {gap rest : List Char} (hgap : Gap gap) (hrest : Ends rest) :
    Ends (gap ++ rest) := by
  cases gap with
  | nil => exact hrest
  | cons c gap =>
    intro d hd
    obtain rfl : c = d := by simpa using hd
    rcases hgap c (by simp) with rfl | rfl <;> decide

private theorem Layout.gap_lineBreak (layout : Layout) (level : Nat) :
    Gap (layout.lineBreak level).toList := by
  rw [lineBreak]
  cases layout.indent with
  | none => simp [Gap]
  | some width =>
    intro c hc
    simp only [String.toList_append, String.toList_ofList, List.mem_append,
      List.mem_replicate] at hc
    rcases hc with hc | ⟨-, hc⟩
    · exact Or.inr (by simpa using hc)
    · exact Or.inl hc

/-- A layout with the commas and colons of JSON: only a gap may stand behind a colon. -/
structure Layout.Standard (layout : Layout) : Prop where
  comma : layout.comma = ","
  colon : ∃ gap, layout.colon.toList = ':' :: gap ∧ Gap gap

theorem Layout.standard_readable : Layout.readable.Standard := ⟨rfl, [' '], rfl, by simp [Gap]⟩

theorem Layout.standard_sorted : Layout.sorted.Standard := ⟨rfl, [' '], rfl, by simp [Gap]⟩

theorem Layout.standard_compact : Layout.compact.Standard := ⟨rfl, [], rfl, by simp [Gap]⟩

theorem Layout.standard_stored : Layout.stored.Standard := ⟨rfl, [' '], rfl, by simp [Gap]⟩

theorem Layout.standard_exact : Layout.exact.Standard := ⟨rfl, [' '], rfl, by simp [Gap]⟩

@[simp] theorem Written.done_andThen_done (s t : String) :
    (Written.done s).andThen (.done t) = .done (s ++ t) := rfl

/-! Forms of values, of items and of fields. -/

/-- How a value or the contents of a list or dictionary start: not with space, not with the bracket
that would end a list, and not with a byte order mark. -/
def StartsPart (cs : List Char) : Prop :=
  ∃ c rest, cs = c :: rest ∧ isSpace c = false ∧ c ≠ ']' ∧ c ≠ '\uFEFF'

theorem StartsPart.append {cs : List Char} (h : StartsPart cs) (more : List Char) :
    StartsPart (cs ++ more) := by
  obtain ⟨c, rest, rfl, hc⟩ := h
  exact ⟨c, rest ++ more, rfl, hc⟩

private theorem StartsPart.skipSpace_eq {gap cs : List Char} (hgap : Gap gap) (h : StartsPart cs) :
    skipSpace (gap ++ cs) = cs := by
  obtain ⟨c, rest, rfl, hc, -⟩ := h
  exact skipSpace_append hgap (by simpa using hc)

/-- A text that is read as a value wherever it stands, in as many steps as the value has weight. -/
structure FormOf (d : Datum) (cs : List Char) : Prop where
  starts : StartsPart cs
  return_not_mem : '\r' ∉ cs
  weight_le : d.weight ≤ 2 * cs.length
  value_eq : ∀ fuel rest, d.weight ≤ fuel → Ends rest → value fuel (cs ++ rest) = .ok (d, rest)

structure ItemsForm (xs : List Datum) (cs : List Char) : Prop where
  starts : StartsPart cs
  return_not_mem : '\r' ∉ cs
  weight_le : Datum.weightAll xs ≤ 2 * cs.length + 2
  items_eq : ∀ fuel gap rest, Datum.weightAll xs ≤ fuel → Gap gap →
    items fuel (cs ++ (gap ++ ']' :: rest)) = .ok (xs, rest)

structure FieldsForm (fs : List (Datum × Datum)) (cs : List Char) : Prop where
  starts : ∃ rest, cs = '"' :: rest
  return_not_mem : '\r' ∉ cs
  weight_le : Datum.weightFields fs ≤ 2 * cs.length + 2
  fields_eq : ∀ fuel before gap rest, Datum.weightFields fs ≤ fuel → Gap gap →
    ((before ++ fs).map Prod.fst).Nodup → (∀ f ∈ before, ∃ s, f.1 = .text s) →
    fields fuel before (cs ++ (gap ++ '\x7d' :: rest)) = .ok (before ++ fs, rest)

/-! The forms of the smallest values. -/

private theorem formOf_leaf {d : Datum} {cs : List Char} (hstarts : StartsPart cs)
    (hreturn : '\r' ∉ cs) (hweight : d.weight = 1)
    (hvalue : ∀ fuel rest, Ends rest → value (fuel + 1) (cs ++ rest) = .ok (d, rest)) :
    FormOf d cs where
  starts := hstarts
  return_not_mem := hreturn
  weight_le := by
    obtain ⟨c, rest, rfl, -⟩ := hstarts
    simp only [hweight, List.length_cons]
    omega
  value_eq fuel rest hfuel hrest := by
    obtain ⟨fuel, rfl⟩ : ∃ n, fuel = n + 1 := ⟨fuel - 1, by omega⟩
    exact hvalue fuel rest hrest

private theorem formOf_null : FormOf .null "null".toList := by
  refine formOf_leaf ⟨'n', ['u', 'l', 'l'], rfl, rfl, by decide, by decide⟩ (by decide) rfl
    fun fuel rest _ => ?_
  simp [value, word?, Text.afterStart?]

private theorem formOf_bool (b : Bool) :
    FormOf (.bool b) (if b then "true" else "false").toList := by
  cases b with
  | false =>
    refine formOf_leaf ⟨'f', ['a', 'l', 's', 'e'], rfl, rfl, by decide, by decide⟩ (by decide) rfl
      fun fuel rest _ => ?_
    simp [value, word?, Text.afterStart?]
  | true =>
    refine formOf_leaf ⟨'t', ['r', 'u', 'e'], rfl, rfl, by decide, by decide⟩ (by decide) rfl
      fun fuel rest _ => ?_
    simp [value, word?, Text.afterStart?]

private theorem startsPart_number {c : Char} (hc : c.isDigit = true ∨ c ∈ ['-', 'N', 'I'])
    (cs : List Char) : StartsPart (c :: cs) := by
  refine ⟨c, cs, rfl, ?_, ?_, ?_⟩
  · rw [Bool.eq_false_iff]
    intro hspace
    simp only [isSpace, Bool.or_eq_true, beq_iff_eq] at hspace
    rcases hspace with ((rfl | rfl) | rfl) | rfl <;> simp [Char.isDigit] at hc
  all_goals
    rintro rfl
    simp [Char.isDigit] at hc

private theorem formOf_int {n : Int} (hlimit : (toString n.natAbs).length ≤ digitLimit) :
    FormOf (.int n) (toString n).toList := by
  obtain ⟨c, cs, hcs, hc⟩ := exists_toString_eq n
  have hstarts : StartsPart (toString n).toList :=
    hcs ▸ startsPart_number (hc.imp_right fun hsign => by simp [hsign]) cs
  exact formOf_leaf hstarts (return_not_mem_toString n) rfl
    fun fuel _ hrest => value_toString hlimit fuel hrest

private theorem formOf_real (x : Float) : FormOf (.real x) (realText x).toList := by
  obtain ⟨c, cs, hcs, hc⟩ := exists_realText_eq x
  have hstarts : StartsPart (realText x).toList := hcs ▸ startsPart_number hc cs
  exact formOf_leaf hstarts (return_not_mem_realText x) rfl
    fun fuel _ hrest => value_realText x fuel hrest

private theorem toList_stringText (asciiOnly : Bool) (s : String) (rest : List Char) :
    (stringText asciiOnly s).toList ++ rest =
      '"' :: (s.toList.flatMap (stringChar asciiOnly) ++ '"' :: rest) := by
  simp [stringText]

private theorem formOf_text (asciiOnly : Bool) (s : String) :
    FormOf (.text s) (stringText asciiOnly s).toList := by
  refine formOf_leaf ⟨'"', _, String.toList_ofList, rfl, by decide, by decide⟩
    (return_not_mem_stringText asciiOnly s) rfl fun fuel rest _ => ?_
  rw [toList_stringText, value.eq_2, readString_flatMap]
  rfl

/-! The forms of lists. -/

private theorem itemsForm_singleton {x : Datum} {cs : List Char} (hx : FormOf x cs) :
    ItemsForm [x] cs where
  starts := hx.starts
  return_not_mem := hx.return_not_mem
  weight_le := by
    have hweight := hx.weight_le
    simp only [Datum.weightAll]
    omega
  items_eq fuel gap rest hfuel hgap := by
    simp only [Datum.weightAll] at hfuel
    obtain ⟨fuel, rfl⟩ : ∃ n, fuel = n + 1 := ⟨fuel - 1, by omega⟩
    have hends : Ends (gap ++ ']' :: rest) := ends_gap_append hgap (by simp [Ends])
    have hclose : skipSpace (gap ++ ']' :: rest) = ']' :: rest :=
      skipSpace_append hgap (by simp [isSpace])
    rw [items, hx.value_eq fuel _ (by omega) hends]
    simp only [bind, Except.bind, hclose]
    rfl

private theorem itemsForm_cons {x : Datum} {xs : List Datum} {cs ds gap : List Char}
    (hx : FormOf x cs) (hgap : Gap gap) (hxs : ItemsForm xs ds) :
    ItemsForm (x :: xs) (cs ++ ',' :: (gap ++ ds)) where
  starts := hx.starts.append _
  return_not_mem := by
    simp [hx.return_not_mem, hgap.return_not_mem, hxs.return_not_mem]
  weight_le := by
    have hweight := hx.weight_le
    have hweights := hxs.weight_le
    simp only [Datum.weightAll, List.length_append, List.length_cons]
    omega
  items_eq fuel gap' rest hfuel hgap' := by
    simp only [Datum.weightAll] at hfuel
    obtain ⟨fuel, rfl⟩ : ∃ n, fuel = n + 1 := ⟨fuel - 1, by omega⟩
    have hrest := hxs.items_eq fuel gap' rest (by omega) hgap'
    have hskip : skipSpace (gap ++ (ds ++ (gap' ++ ']' :: rest))) = ds ++ (gap' ++ ']' :: rest) :=
      (hxs.starts.append _).skipSpace_eq hgap
    simp only [List.append_assoc, List.cons_append]
    rw [items, hx.value_eq fuel _ (by omega) (by simp [Ends])]
    simp only [bind, Except.bind, skipSpace_cons (show isSpace ',' = false from rfl), hskip, hrest]
    rfl

private theorem formOf_list {xs : List Datum} {cs gap gap' : List Char} (hgap : Gap gap)
    (hxs : ItemsForm xs cs) (hgap' : Gap gap') :
    FormOf (.list xs) ('[' :: (gap ++ (cs ++ (gap' ++ [']'])))) where
  starts := ⟨'[', _, rfl, rfl, by decide, by decide⟩
  return_not_mem := by
    simp [hgap.return_not_mem, hxs.return_not_mem, hgap'.return_not_mem]
  weight_le := by
    have hweights := hxs.weight_le
    simp only [Datum.weight, List.length_append, List.length_cons]
    omega
  value_eq fuel rest hfuel _ := by
    simp only [Datum.weight] at hfuel
    obtain ⟨fuel, rfl⟩ : ∃ n, fuel = n + 1 := ⟨fuel - 1, by omega⟩
    have hitems := hxs.items_eq fuel gap' rest (by omega) hgap'
    have hskip := (hxs.starts.append (gap' ++ ']' :: rest)).skipSpace_eq hgap
    obtain ⟨c, ds, rfl, -, hc, -⟩ := hxs.starts
    simp only [List.append_assoc, List.cons_append, List.nil_append] at hskip hitems ⊢
    rw [value.eq_3, hskip]
    -- The first item is not the bracket that ends an empty list.
    split
    · rename_i heq
      exact absurd (List.cons.inj heq).1 hc
    · simp only [hitems, bind, Except.bind]
      rfl

private theorem formOf_emptyList : FormOf (.list []) "[]".toList where
  starts := ⟨'[', [']'], rfl, rfl, by decide, by decide⟩
  return_not_mem := by decide
  weight_le := by decide
  value_eq fuel rest hfuel _ := by
    obtain ⟨fuel, rfl⟩ : ∃ n, fuel = n + 1 := ⟨fuel - 1, by simp [Datum.weight] at hfuel; omega⟩
    rfl

/-! The forms of dictionaries. -/

private theorem put_fresh {key : String} {v : Datum} {before : List (Datum × Datum)}
    (hkeys : ∀ f ∈ before, ∃ s, f.1 = .text s) (hfresh : .text key ∉ before.map Prod.fst) :
    Datum.put (.text key) v before = before ++ [(.text key, v)] := by
  induction before with
  | nil => rfl
  | cons f before ih =>
    obtain ⟨k, w⟩ := f
    rw [List.forall_mem_cons] at hkeys
    obtain ⟨⟨s, rfl⟩, hrest⟩ := hkeys
    simp only [List.map_cons, List.mem_cons, not_or] at hfresh
    have hne : s ≠ key := fun heq => hfresh.1 (by rw [heq])
    have hsame : (Datum.text s).same (.text key) = false := by
      simp [Datum.same, Datum.sameTo, hne]
    simp [Datum.put, hsame, ih hrest hfresh.2]

private def afterField (fuel : Nat) (before : List (Datum × Datum)) :
    List Char → Step (List (Datum × Datum) × List Char)
  | '\x7d' :: rest => .ok (before, rest)
  | ',' :: rest => fields fuel before (skipSpace rest)
  | other => .error (.at_ .comma other.length)

section Field

variable {key : String} {v : Datum} {cs gap : List Char} (hv : FormOf v cs) (hgap : Gap gap)

include hv hgap

private theorem fields_field (asciiOnly : Bool) {fuel : Nat} (hfuel : v.weight ≤ fuel)
    {before : List (Datum × Datum)} (hkeys : ∀ f ∈ before, ∃ s, f.1 = .text s)
    (hfresh : .text key ∉ before.map Prod.fst) {rest : List Char} (hrest : Ends rest) :
    fields (fuel + 1) before ((stringText asciiOnly key).toList ++ ':' :: (gap ++ (cs ++ rest))) =
      afterField fuel (before ++ [(.text key, v)]) (skipSpace rest) := by
  have hskip : skipSpace (gap ++ (cs ++ rest)) = cs ++ rest :=
    (hv.starts.append rest).skipSpace_eq hgap
  rw [toList_stringText, fields]
  simp only [readString_flatMap, bind, Except.bind,
    skipSpace_cons (show isSpace ':' = false from rfl), hskip, hv.value_eq fuel rest hfuel hrest,
    put_fresh hkeys hfresh]
  rfl

private theorem fieldsForm_singleton (asciiOnly : Bool) :
    FieldsForm [(.text key, v)] ((stringText asciiOnly key).toList ++ ':' :: (gap ++ cs)) where
  starts := ⟨_, toList_stringText asciiOnly key _⟩
  return_not_mem := by
    simp [return_not_mem_stringText, hgap.return_not_mem, hv.return_not_mem]
  weight_le := by
    have hweight := hv.weight_le
    simp only [toList_stringText, Datum.weightFields, Datum.weight, List.length_append,
      List.length_cons]
    omega
  fields_eq fuel before gap' rest hfuel hgap' hnodup hkeys := by
    simp only [Datum.weightFields, Datum.weight] at hfuel
    obtain ⟨fuel, rfl⟩ : ∃ n, fuel = n + 1 := ⟨fuel - 1, by omega⟩
    have hfresh : .text key ∉ before.map Prod.fst := by
      rw [List.map_append, List.nodup_append] at hnodup
      exact fun hmem => hnodup.2.2 _ hmem _ (by simp) rfl
    have hends : Ends (gap' ++ '\x7d' :: rest) := ends_gap_append hgap' (by simp [Ends])
    have hclose : skipSpace (gap' ++ '\x7d' :: rest) = '\x7d' :: rest :=
      skipSpace_append hgap' (by simp [isSpace])
    simp only [List.append_assoc, List.cons_append]
    rw [fields_field hv hgap asciiOnly (by omega) hkeys hfresh hends, hclose]
    rfl

private theorem fieldsForm_cons (asciiOnly : Bool) {fs : List (Datum × Datum)} {ds gap' : List Char}
    (hgap' : Gap gap') (hfs : FieldsForm fs ds) :
    FieldsForm ((.text key, v) :: fs)
      ((stringText asciiOnly key).toList ++ ':' :: (gap ++ (cs ++ ',' :: (gap' ++ ds)))) where
  starts := ⟨_, toList_stringText asciiOnly key _⟩
  return_not_mem := by
    simp [return_not_mem_stringText, hgap.return_not_mem, hv.return_not_mem, hgap'.return_not_mem,
      hfs.return_not_mem]
  weight_le := by
    have hweight := hv.weight_le
    have hweights := hfs.weight_le
    simp only [toList_stringText, Datum.weightFields, Datum.weight, List.length_append,
      List.length_cons]
    omega
  fields_eq fuel before gap'' rest hfuel hgap'' hnodup hkeys := by
    simp only [Datum.weightFields, Datum.weight] at hfuel
    obtain ⟨fuel, rfl⟩ : ∃ n, fuel = n + 1 := ⟨fuel - 1, by omega⟩
    have hfresh : .text key ∉ before.map Prod.fst := by
      rw [List.map_append, List.nodup_append] at hnodup
      exact fun hmem => hnodup.2.2 _ hmem _ (by simp) rfl
    have hmore := hfs.fields_eq fuel (before ++ [(.text key, v)]) gap'' rest (by omega) hgap''
      (by simpa using hnodup) (by simpa [or_imp, forall_and] using hkeys)
    obtain ⟨ds, rfl⟩ := hfs.starts
    have hskip : skipSpace (gap' ++ ('"' :: ds ++ (gap'' ++ '\x7d' :: rest))) =
        '"' :: ds ++ (gap'' ++ '\x7d' :: rest) := skipSpace_append hgap' (by simp [isSpace])
    simp only [List.append_assoc, List.cons_append] at hskip hmore ⊢
    rw [fields_field hv hgap asciiOnly (by omega) hkeys hfresh (by simp [Ends])]
    simp only [skipSpace_cons (show isSpace ',' = false from rfl), afterField, hskip, hmore]
    simp

end Field

private theorem formOf_dict {fs : List (Datum × Datum)} {cs gap gap' : List Char} (hgap : Gap gap)
    (hfs : FieldsForm fs cs) (hgap' : Gap gap') (hnodup : (fs.map Prod.fst).Nodup) :
    FormOf (.dict fs) ('\x7b' :: (gap ++ (cs ++ (gap' ++ ['\x7d'])))) where
  starts := ⟨'\x7b', _, rfl, rfl, by decide, by decide⟩
  return_not_mem := by
    simp [hgap.return_not_mem, hfs.return_not_mem, hgap'.return_not_mem]
  weight_le := by
    have hweights := hfs.weight_le
    simp only [Datum.weight, List.length_append, List.length_cons]
    omega
  value_eq fuel rest hfuel _ := by
    simp only [Datum.weight] at hfuel
    obtain ⟨fuel, rfl⟩ : ∃ n, fuel = n + 1 := ⟨fuel - 1, by omega⟩
    have hfields := hfs.fields_eq fuel [] gap' rest (by omega) hgap' hnodup (by simp)
    obtain ⟨ds, rfl⟩ := hfs.starts
    have hskip : skipSpace (gap ++ ('"' :: ds ++ (gap' ++ '\x7d' :: rest))) =
        '"' :: ds ++ (gap' ++ '\x7d' :: rest) := skipSpace_append hgap (by simp [isSpace])
    simp only [List.append_assoc, List.cons_append, List.nil_append] at hskip hfields ⊢
    rw [value.eq_4, hskip]
    split
    · rename_i heq
      exact absurd (List.cons.inj heq).1 (by decide)
    · simp only [hfields, bind, Except.bind]
      rfl

private theorem formOf_emptyDict : FormOf (.dict []) "\x7b\x7d".toList where
  starts := ⟨'\x7b', ['\x7d'], rfl, rfl, by decide, by decide⟩
  return_not_mem := by decide
  weight_le := by decide
  value_eq fuel rest hfuel _ := by
    obtain ⟨fuel, rfl⟩ : ∃ n, fuel = n + 1 := ⟨fuel - 1, by simp [Datum.weight] at hfuel; omega⟩
    rfl

/-! Writing. -/

private theorem led_done (lead : String) (item : Datum) (s : String) :
    led lead item (.done s) = .done (lead ++ s) := by
  cases item <;> rfl

private theorem closed_done (layout : Layout) (level : Nat) (closing body : String) :
    closed layout level closing (.done body) =
      .done (body ++ (layout.lineBreak level ++ closing)) := rfl

mutual
/-- What is written for a plain value is a form of it. -/
theorem write_form {layout : Layout} (hlayout : layout.Standard) :
    ∀ (d : Datum) (level : Nat), Plain d →
    ∃ s, write layout level d = .done s ∧ FormOf d s.toList
  | .null, _, _ => ⟨"null", by rw [write], formOf_null⟩
  | .bool b, _, _ => ⟨_, by rw [write], formOf_bool b⟩
  | .int n, _, h => by
    rw [Plain] at h
    exact ⟨toString n, by rw [write, intWritten, if_neg (Nat.not_lt.mpr h)], formOf_int h⟩
  | .real x, _, _ => ⟨realText x, by rw [write], formOf_real x⟩
  | .text s, _, _ => ⟨_, by rw [write], formOf_text layout.asciiOnly s⟩
  | .list [], _, _ => ⟨"[]", by rw [write], formOf_emptyList⟩
  | .list (x :: xs), level, h => by
    rw [Plain] at h
    obtain ⟨s, hs, hform⟩ := writeItems_form hlayout (x :: xs) (level + 1) (by simp) h
    simp only [write, hs, closed_done]
    refine ⟨_, rfl, ?_⟩
    simpa using formOf_list (layout.gap_lineBreak (level + 1)) hform (layout.gap_lineBreak level)
  | .dict [], _, _ => ⟨"\x7b\x7d", by rw [write], formOf_emptyDict⟩
  | .dict (f :: fs), level, h => by
    rw [Plain] at h
    obtain ⟨s, hs, hform⟩ := writeFields_form hlayout (f :: fs) (level + 1) (by simp) h.1
    simp only [write, hs, Written.done_andThen_done, closed_done]
    refine ⟨_, rfl, ?_⟩
    simpa [Layout.lead] using
      formOf_dict (layout.gap_lineBreak (level + 1)) hform (layout.gap_lineBreak level) h.2

private theorem writeItems_form {layout : Layout} (hlayout : layout.Standard) :
    ∀ (xs : List Datum) (level : Nat), xs ≠ [] → PlainAll xs →
    ∃ s, (∀ lead, writeItems layout level lead xs = .done (lead ++ s)) ∧ ItemsForm xs s.toList
  | [x], level, _, h => by
    rw [PlainAll] at h
    obtain ⟨s, hs, hform⟩ := write_form hlayout x level h.1
    refine ⟨s, fun lead => ?_, itemsForm_singleton hform⟩
    simp [writeItems, hs, led_done]
  | x :: y :: ys, level, _, h => by
    rw [PlainAll] at h
    obtain ⟨s, hs, hform⟩ := write_form hlayout x level h.1
    obtain ⟨t, ht, hforms⟩ := writeItems_form hlayout (y :: ys) level (by simp) h.2
    refine ⟨s ++ (layout.comma ++ layout.lineBreak level ++ t), fun lead => ?_, ?_⟩
    · rw [writeItems, hs, ht, led_done]
      simp [String.append_assoc]
    · simpa [hlayout.comma] using
        itemsForm_cons hform (layout.gap_lineBreak level) hforms

private theorem writeFields_form {layout : Layout} (hlayout : layout.Standard) :
    ∀ (fs : List (Datum × Datum)) (level : Nat), fs ≠ [] → PlainFields fs →
    ∃ s, (∀ first, writeFields layout level first fs = .done (layout.lead level first ++ s)) ∧
      FieldsForm fs s.toList
  | [(k, v)], level, _, h => by
    rw [PlainFields] at h
    obtain ⟨⟨key, rfl⟩, hv, -⟩ := h
    obtain ⟨s, hs, hform⟩ := write_form hlayout v level hv
    obtain ⟨gap, hcolon, hgap⟩ := hlayout.colon
    refine ⟨stringText layout.asciiOnly key ++ (layout.colon ++ s), fun first => ?_, ?_⟩
    · simp [writeFields, keyText, hs, String.append_assoc]
    · simpa [hcolon] using fieldsForm_singleton hform hgap layout.asciiOnly
  | (k, v) :: g :: gs, level, _, h => by
    rw [PlainFields] at h
    obtain ⟨⟨key, rfl⟩, hv, hrest⟩ := h
    obtain ⟨s, hs, hform⟩ := write_form hlayout v level hv
    obtain ⟨t, ht, hforms⟩ := writeFields_form hlayout (g :: gs) level (by simp) hrest
    obtain ⟨gap, hcolon, hgap⟩ := hlayout.colon
    refine
      ⟨stringText layout.asciiOnly key ++ (layout.colon ++ (s ++ (layout.lead level false ++ t))),
        fun first => ?_, ?_⟩
    · rw [writeFields, keyText, hs, ht]
      simp [String.append_assoc]
    · simpa [hcolon, Layout.lead, hlayout.comma] using
        fieldsForm_cons hform hgap layout.asciiOnly (layout.gap_lineBreak level) hforms
end

/-! Reading. -/

theorem read_form {d : Datum} {s : String} (h : FormOf d s.toList) : read s = .ok d := by
  have hvalue : value (2 * s.toList.length + 2) s.toList = .ok (d, []) := by
    have hweight := h.weight_le
    simpa using h.value_eq (2 * s.toList.length + 2) [] (by omega) (by simp [Ends])
  have hskip : skipSpace s.toList = s.toList := h.starts.skipSpace_eq (show Gap [] by simp [Gap])
  have hdocument : document s.toList = .ok d := by
    obtain ⟨c, cs, hcs, -, -, hmark⟩ := h.starts
    rw [document.eq_def]
    split
    · rename_i heq
      exact absurd (List.cons.inj (hcs.symm.trans heq)).1 hmark
    · simp only [hskip, hvalue, bind, Except.bind]
      rfl
  simp only [read, hdocument, Except.mapError]

theorem render_form {layout : Layout} (hlayout : layout.Standard)
    (hsort : layout.sortKeys = false) {d : Datum} (h : Plain d) :
    ∃ s, render layout d = .done s ∧ FormOf d s.toList := by
  simpa [render, hsort] using write_form hlayout d 0 h

end SuiteTidy.Json

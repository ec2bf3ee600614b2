import SuiteTidy.Text.Naming
import Mathlib.Data.List.DropRight

/-!
Names made safe for files. Such a name is the words of a text with single underscores between them,
where the words are what is left between spaces and underscores without the characters that file
names refuse. Main statement: the name has no character and no underscore that it should not have,
all other characters of the text are in it, and making it safe again changes nothing.
-/

set_option autoImplicit false
set_option relaxedAutoImplicit false

namespace SuiteTidy.Text

/-! Runs of characters between gaps. -/

def runsBetween (gap : Char → Bool) (cs : List Char) : List (List Char) :=
  (cs.splitOnP gap).filter fun w => !w.isEmpty

section Runs

variable (gap : Char → Bool) {c d : Char} {cs w : List Char} {ws : List (List Char)}

private theorem runsBetween_cons_gap (hc : gap c = true) (cs : List Char) :
    runsBetween gap (c :: cs) = runsBetween gap cs := by
  rw [runsBetween, List.splitOnP_cons_eq_if_modifyHead, if_pos hc]
  rfl

private theorem runsBetween_of_forall (hne : w ≠ []) (hw : ∀ c ∈ w, gap c = false) :
    runsBetween gap w = [w] := by
  have hsplit : w.splitOnP gap = [w] :=
    List.splitOnP_eq_singleton fun c hc => by simp [hw c hc]
  rw [runsBetween, hsplit]
  simpa using hne

private theorem runsBetween_append_gap (hc : gap c = true) (xs ys : List Char) :
    runsBetween gap (xs ++ c :: ys) = runsBetween gap xs ++ runsBetween gap ys := by
  rw [runsBetween, List.splitOnP_append_cons xs ys hc, List.filter_append]
  rfl

private theorem runsBetween_cons_cons (hc : gap c = false) (hd : gap d = false) (cs : List Char) :
    ∃ w ws, runsBetween gap (d :: cs) = (d :: w) :: ws ∧
      runsBetween gap (c :: d :: cs) = (c :: d :: w) :: ws := by
  obtain ⟨w, ws, hsplit⟩ := List.exists_cons_of_ne_nil (List.splitOnP_ne_nil gap cs)
  refine ⟨w, ws.filter fun w => !w.isEmpty, ?_, ?_⟩
  · simp [runsBetween, List.splitOnP_cons_eq_if_modifyHead, hd, hsplit]
  · simp [runsBetween, List.splitOnP_cons_eq_if_modifyHead, hc, hd, hsplit]

private theorem runsBetween_cons_cons_gap (hc : gap c = false) (hd : gap d = true)
    (cs : List Char) : runsBetween gap (c :: d :: cs) = [c] :: runsBetween gap cs := by
  have hfirst : runsBetween gap [c] = [[c]] :=
    runsBetween_of_forall gap (List.cons_ne_nil _ _) (by simpa using hc)
  rw [← List.singleton_append, runsBetween_append_gap gap hd, hfirst]
  rfl

private theorem flatten_splitOnP (cs : List Char) :
    (cs.splitOnP gap).flatten = cs.filter fun c => !gap c := by
  induction cs with
  | nil => rfl
  | cons c cs ih =>
    obtain ⟨w, ws, hsplit⟩ := List.exists_cons_of_ne_nil (List.splitOnP_ne_nil gap cs)
    rw [List.splitOnP_cons_eq_if_modifyHead, List.filter_cons, ← ih]
    cases gap c <;> simp [hsplit]

private theorem flatten_runsBetween (cs : List Char) :
    (runsBetween gap cs).flatten = cs.filter fun c => !gap c := by
  rw [← flatten_splitOnP, runsBetween, List.flatten_filter_not_isEmpty]

private theorem runsBetween_cons_ne_nil (hc : gap c = false) (cs : List Char) :
    runsBetween gap (c :: cs) ≠ [] := by
  intro hnil
  have hflat := flatten_runsBetween gap (c :: cs)
  simp [hnil, hc] at hflat

variable {gap}

private theorem mem_runsBetween (hw : w ∈ runsBetween gap cs) :
    w ≠ [] ∧ ∀ c ∈ w, c ∈ cs ∧ gap c = false := by
  refine ⟨by simpa using (List.mem_filter.mp hw).2, fun c hc => ?_⟩
  have hflat : c ∈ (runsBetween gap cs).flatten := List.mem_flatten_of_mem hw hc
  rw [flatten_runsBetween] at hflat
  simpa using hflat

private theorem runsBetween_map {gap' : Char → Bool} {f : Char → Char}
    (hgap : ∀ c, gap' (f c) = gap c) (hself : ∀ c, gap c = false → f c = c) (cs : List Char) :
    runsBetween gap' (cs.map f) = runsBetween gap cs := by
  have hsplit : (cs.map f).splitOnP gap' = cs.splitOnP gap := by
    induction cs with
    | nil => rfl
    | cons c cs ih =>
      rw [List.map_cons, List.splitOnP_cons_eq_if_modifyHead,
        List.splitOnP_cons_eq_if_modifyHead, ih, hgap]
      cases hc : gap c with
      | true => rfl
      | false => rw [hself c hc]
  rw [runsBetween, hsplit, runsBetween]

private theorem runsBetween_intercalate (hc : gap c = true)
    (hws : ∀ w ∈ ws, w ≠ [] ∧ ∀ c ∈ w, gap c = false) :
    runsBetween gap ([c].intercalate ws) = ws := by
  induction ws with
  | nil => rfl
  | cons w ws ih =>
    rw [List.forall_mem_cons] at hws
    have hfirst := runsBetween_of_forall gap hws.1.1 hws.1.2
    cases ws with
    | nil => rwa [List.intercalate_singleton]
    | cons v ws =>
      rw [List.intercalate_cons_cons, List.append_assoc, List.singleton_append,
        runsBetween_append_gap gap hc, hfirst, ih hws.2]
      rfl

end Runs

/-! Single underscores between words. -/

section Joined

variable {ws : List (List Char)}

private theorem filter_intercalate (hws : ∀ w ∈ ws, '_' ∉ w) :
    (['_'].intercalate ws).filter (· ≠ '_') = ws.flatten := by
  induction ws with
  | nil => rfl
  | cons w ws ih =>
    rw [List.forall_mem_cons] at hws
    have hfirst : w.filter (· ≠ '_') = w := by
      refine List.filter_eq_self.mpr fun c hc => decide_eq_true ?_
      exact ne_of_mem_of_not_mem hc hws.1
    cases ws with
    | nil => simpa using hfirst
    | cons v ws =>
      rw [List.intercalate_cons_cons, List.filter_append, List.filter_append, hfirst, ih hws.2]
      simp

private theorem not_double_append {w rest : List Char} (hw : '_' ∉ w)
    (hrest : ¬['_', '_'] <:+: rest) : ¬['_', '_'] <:+: w ++ rest := by
  induction w with
  | nil => exact hrest
  | cons c w ih =>
    rw [List.mem_cons, not_or] at hw
    rw [List.cons_append, List.infix_cons_iff, List.cons_prefix_cons]
    rintro (⟨hc, -⟩ | hinner)
    · exact hw.1 hc
    · exact ih hw.2 hinner

private theorem head?_intercalate {w : List Char} (hw : w ≠ []) (c : Char) (ws : List (List Char)) :
    ([c].intercalate (w :: ws)).head? = w.head? := by
  cases ws with
  | nil => rw [List.intercalate_singleton]
  | cons v ws =>
    rw [List.intercalate_cons_cons, List.append_assoc, List.head?_append_of_ne_nil _ hw]

private theorem intercalate_ne_nil {w : List Char} (hw : w ≠ []) (c : Char)
    (ws : List (List Char)) : [c].intercalate (w :: ws) ≠ [] := by
  intro h
  have hhead := head?_intercalate hw c ws
  rw [h, List.head?_nil] at hhead
  exact hw (List.head?_eq_none_iff.mp hhead.symm)

private theorem tight_of_not_mem {w : List Char} (hw : '_' ∉ w) :
    ¬['_', '_'] <:+: w ∧ w.head? ≠ some '_' ∧ w.getLast? ≠ some '_' := by
  refine ⟨fun h => hw (h.subset (by simp)), fun h => hw (List.mem_of_mem_head? h), ?_⟩
  exact fun h => hw (List.mem_of_getLast? h)

private theorem tight_intercalate (hws : ∀ w ∈ ws, w ≠ [] ∧ '_' ∉ w) :
    ¬['_', '_'] <:+: ['_'].intercalate ws ∧ (['_'].intercalate ws).head? ≠ some '_' ∧
      (['_'].intercalate ws).getLast? ≠ some '_' := by
  induction ws with
  | nil => exact tight_of_not_mem (by simp [List.intercalate])
  | cons w ws ih =>
    obtain ⟨⟨hne, hw⟩, hws⟩ := List.forall_mem_cons.mp hws
    cases ws with
    | nil =>
      rw [List.intercalate_singleton]
      exact tight_of_not_mem hw
    | cons v ws =>
      obtain ⟨hdouble, hhead, hlast⟩ := ih hws
      have hrest : ['_'].intercalate (v :: ws) ≠ [] := intercalate_ne_nil (hws v (by simp)).1 _ _
      rw [List.intercalate_cons_cons, List.append_assoc, List.singleton_append]
      refine ⟨not_double_append hw ?_, ?_, ?_⟩
      · rw [List.infix_cons_iff, List.cons_prefix_cons]
        rintro (⟨-, hfirst⟩ | hlater)
        · -- The rest would start with the second of the two underscores.
          obtain ⟨more, hmore⟩ := hfirst
          exact hhead (by rw [← hmore]; rfl)
        · exact hdouble hlater
      · rw [List.head?_append_of_ne_nil _ hne]
        exact (tight_of_not_mem hw).2.1
      · rw [List.getLast?_append_of_ne_nil _ (by simp), List.getLast?_cons_of_ne_nil hrest]
        exact hlast

/-! Squeezing and trimming. -/

private theorem rdropWhile_cons (p : Char → Bool) (a : Char) (l : List Char) :
    (a :: l).rdropWhile p =
      if l.rdropWhile p = [] then (if p a then [] else [a]) else a :: l.rdropWhile p := by
  induction l using List.reverseRecOn with
  | nil => simp [List.rdropWhile_singleton]
  | append_singleton l x ih =>
    rw [← List.cons_append]
    by_cases hx : p x = true
    · rw [List.rdropWhile_concat_pos _ _ _ hx, List.rdropWhile_concat_pos _ _ _ hx, ih]
    · rw [List.rdropWhile_concat_neg _ _ _ hx, List.rdropWhile_concat_neg _ _ _ hx]
      simp

private theorem dropWhile_squeezeUnderscores (cs : List Char) :
    (squeezeUnderscores cs).dropWhile (· == '_') =
      squeezeUnderscores (cs.dropWhile (· == '_')) := by
  fun_induction squeezeUnderscores cs with
  | case1 => rfl
  | case2 c => by_cases hc : c = '_' <;> simp [hc, squeezeUnderscores]
  | case3 a b cs h ih =>
    rw [ih]
    simp [h.1, h.2]
  | case4 a b cs h ih =>
    by_cases ha : a = '_'
    · rw [List.dropWhile_cons_of_pos (by simpa using ha),
        List.dropWhile_cons_of_pos (by simpa using ha), ih]
    · simp [ha, squeezeUnderscores]

/-- Squeezed and without underscores at the end, a text is its words with single underscores, and
one more in front if there was any. -/
private theorem rdropWhile_squeezeUnderscores (cs : List Char) :
    (squeezeUnderscores cs).rdropWhile (· == '_') =
      (if cs.head? = some '_' ∧ runsBetween (· == '_') cs ≠ [] then ['_'] else []) ++
        ['_'].intercalate (runsBetween (· == '_') cs) := by
  have hskip : ∀ {c : Char}, c = '_' → ∀ cs, runsBetween (· == '_') (c :: cs) =
      runsBetween (· == '_') cs := fun hc => runsBetween_cons_gap (· == '_') (beq_iff_eq.mpr hc)
  fun_induction squeezeUnderscores cs with
  | case1 => rfl
  | case2 c =>
    by_cases hc : c = '_'
    · rw [hskip hc]
      simp [hc, runsBetween, List.rdropWhile_singleton, List.intercalate]
    · rw [runsBetween_of_forall (· == '_') (List.cons_ne_nil c []) (by simpa using hc)]
      simp [hc, List.rdropWhile_singleton]
  | case3 a b cs h ih =>
    rw [ih, hskip h.1]
    simp [h.1, h.2]
  | case4 a b cs h ih =>
    rw [rdropWhile_cons, ih]
    by_cases ha : a = '_'
    · -- The underscore stands before a word.
      have hb : b ≠ '_' := fun hb => h ⟨ha, hb⟩
      obtain ⟨w, ws, hruns⟩ := List.exists_cons_of_ne_nil
        (runsBetween_cons_ne_nil (· == '_') (beq_false_of_ne hb) cs)
      have hw := (mem_runsBetween (hruns ▸ List.mem_cons_self)).1
      rw [hskip ha, hruns]
      simp [ha, hb, intercalate_ne_nil hw]
    · by_cases hb : b = '_'
      · -- A word ends here; an underscore is kept if another word follows.
        rw [runsBetween_cons_cons_gap (· == '_') (beq_false_of_ne ha) (beq_iff_eq.mpr hb),
          hskip hb]
        cases hruns : runsBetween (· == '_') cs with
        | nil => simp [ha, List.intercalate]
        | cons w ws => simp [ha, hb, List.intercalate_cons_cons]
      · obtain ⟨w, ws, hrest, hall⟩ := runsBetween_cons_cons (· == '_')
          (beq_false_of_ne ha) (beq_false_of_ne hb) cs
        rw [hrest, hall]
        cases ws with
        | nil => simp [ha, hb, List.intercalate_singleton]
        | cons v ws => simp [ha, hb, List.intercalate_cons_cons]

private theorem trimSet_squeezeUnderscores (cs : List Char) :
    trimSet (· == '_') (squeezeUnderscores cs) =
      ['_'].intercalate (runsBetween (· == '_') cs) := by
  have htrim : trimSet (· == '_') (squeezeUnderscores cs) =
      ((squeezeUnderscores cs).dropWhile (· == '_')).rdropWhile (· == '_') := rfl
  have hruns : runsBetween (· == '_') (cs.dropWhile (· == '_')) = runsBetween (· == '_') cs := by
    clear htrim
    induction cs with
    | nil => rfl
    | cons c cs ih =>
      by_cases hc : c = '_'
      · rw [runsBetween_cons_gap (· == '_') (beq_iff_eq.mpr hc), ← ih]
        simp [hc]
      · simp [hc]
  have hhead : (cs.dropWhile (· == '_')).head? ≠ some '_' := by
    intro h
    have hnot := List.head?_dropWhile_not (· == '_') cs
    simp [h] at hnot
  rw [htrim, dropWhile_squeezeUnderscores, rdropWhile_squeezeUnderscores, hruns,
    if_neg fun h => hhead h.1, List.nil_append]

end Joined

end SuiteTidy.Text

namespace SuiteTidy.Naming

open SuiteTidy.Text

def refused : List Char := ['<', '>', ':', '"', '/', '\\', '|', '?', '*']

def isGap (c : Char) : Bool := c == ' ' || c == '_'

def nameWords (s : String) : List (List Char) := runsBetween isGap (s.toList.filter (· ∉ refused))

structure IsSafe (s : String) : Prop where
  accepted : ∀ c ∈ refused, c ∉ s.toList
  noSpace : ' ' ∉ s.toList
  noDouble : ¬['_', '_'] <:+: s.toList
  start : s.toList.head? ≠ some '_'
  finish : s.toList.getLast? ≠ some '_'

private theorem isUnsafe_eq (c : Char) : isUnsafe c = decide (c ∈ refused) := by
  rw [Bool.eq_iff_iff]
  simp [isUnsafe, refused, or_assoc]

private theorem isGap_eq_false_iff {c : Char} : isGap c = false ↔ c ≠ ' ' ∧ c ≠ '_' := by
  simp [isGap]

private theorem mem_nameWords {s : String} {w : List Char} (hw : w ∈ nameWords s) :
    w ≠ [] ∧ ∀ c ∈ w, c ∉ refused ∧ c ≠ ' ' ∧ c ≠ '_' := by
  obtain ⟨hne, hletters⟩ := mem_runsBetween hw
  refine ⟨hne, fun c hc => ?_⟩
  obtain ⟨hkept, hgap⟩ := hletters c hc
  exact ⟨of_decide_eq_true (List.mem_filter.mp hkept).2, isGap_eq_false_iff.mp hgap⟩

private theorem toList_fileSafe (s : String) :
    (fileSafe s).toList = ['_'].intercalate (nameWords s) := by
  have hkept : (s.toList.filter fun c => !isUnsafe c) = s.toList.filter (· ∉ refused) :=
    List.filter_congr fun c _ => by rw [isUnsafe_eq, decide_not]
  have hgap : ∀ c, ((if c = ' ' then '_' else c) == '_') = isGap c := by
    intro c
    by_cases hc : c = ' ' <;> simp [isGap, hc]
  have hself : ∀ c, isGap c = false → (if c = ' ' then '_' else c) = c :=
    fun c hc => if_neg (isGap_eq_false_iff.mp hc).1
  rw [fileSafe, String.toList_ofList, trimSet_squeezeUnderscores, hkept,
    runsBetween_map hgap hself, nameWords]

private theorem mem_fileSafe {s : String} {c : Char} (hc : c ∈ (fileSafe s).toList) :
    c ∉ refused ∧ c ≠ ' ' := by
  by_cases hmark : c = '_'
  · subst hmark
    decide
  · have hletter : c ∈ (fileSafe s).toList.filter (· ≠ '_') := List.mem_filter.mpr ⟨hc, by simpa⟩
    rw [toList_fileSafe, filter_intercalate fun w hw hmem => ((mem_nameWords hw).2 _ hmem).2.2 rfl]
      at hletter
    obtain ⟨w, hw, hcw⟩ := List.mem_flatten.mp hletter
    obtain ⟨hrefused, hspace, -⟩ := (mem_nameWords hw).2 c hcw
    exact ⟨hrefused, hspace⟩

private theorem isSafe_fileSafe (s : String) : IsSafe (fileSafe s) := by
  have hwords : ∀ w ∈ nameWords s, w ≠ [] ∧ '_' ∉ w := by
    intro w hw
    obtain ⟨hne, hletters⟩ := mem_nameWords hw
    exact ⟨hne, fun hmem => (hletters _ hmem).2.2 rfl⟩
  obtain ⟨hdouble, hhead, hlast⟩ := tight_intercalate hwords
  rw [← toList_fileSafe] at hdouble hhead hlast
  exact ⟨fun c hc hmem => (mem_fileSafe hmem).1 hc, fun hmem => (mem_fileSafe hmem).2 rfl, hdouble,
    hhead, hlast⟩

private theorem nameWords_fileSafe (s : String) : nameWords (fileSafe s) = nameWords s := by
  have hkept : (fileSafe s).toList.filter (· ∉ refused) = (fileSafe s).toList :=
    List.filter_eq_self.mpr fun c hc => decide_eq_true (mem_fileSafe hc).1
  have hwords : ∀ w ∈ nameWords s, w ≠ [] ∧ ∀ c ∈ w, isGap c = false := by
    intro w hw
    obtain ⟨hne, hletters⟩ := mem_nameWords hw
    exact ⟨hne, fun c hc => isGap_eq_false_iff.mpr (hletters c hc).2⟩
  rw [nameWords, hkept, toList_fileSafe, runsBetween_intercalate rfl hwords]

/-- A name made safe for a file is its words with single underscores between them: it has none of
the characters that file names refuse, no space, and no underscore beside another or at an end, its
other characters are those of the text, and it is safe already. -/
theorem fileSafe_exact (s : String) :
    IsSafe (fileSafe s) ∧ (fileSafe s).toList = ['_'].intercalate (nameWords s) ∧
      (fileSafe s).toList.filter (· ≠ '_') =
        s.toList.filter (fun c => c ∉ refused ∧ c ≠ ' ' ∧ c ≠ '_') ∧
      fileSafe (fileSafe s) = fileSafe s := by
  refine ⟨isSafe_fileSafe s, toList_fileSafe s, ?_, ?_⟩
  · have hfree : ∀ w ∈ nameWords s, '_' ∉ w :=
      fun w hw hmem => ((mem_nameWords hw).2 _ hmem).2.2 rfl
    rw [toList_fileSafe, filter_intercalate hfree, nameWords, flatten_runsBetween,
      List.filter_filter]
    refine List.filter_congr fun c _ => ?_
    rw [Bool.eq_iff_iff]
    simp [isGap, and_comm]
  · apply String.toList_injective
    rw [toList_fileSafe (fileSafe s), nameWords_fileSafe, toList_fileSafe]

end SuiteTidy.Naming

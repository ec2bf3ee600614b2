import SuiteTidy.Workspace
import Mathlib.Data.List.Forall2

/-!
Steps in a workspace as functions on its files. A step acts as such a function if the time and the
files alone decide its result and the files after it, and if beside that it only prints. Steps that
act as functions can be put together, and then so are the functions. A step that also shows things
leads from some files to others.
-/

set_option autoImplicit false
set_option relaxedAutoImplicit false

namespace SuiteTidy.Work

variable {α β : Type}

/-- What a step does to files at a time: its result, or the fault that ended it, and the files
after it. -/
abbrev Effect (α : Type) : Type := Moment → FileTree → Except Fault α × FileTree

/-- A step that does to the files what an effect says, whatever else is in the workspace, and beside
that only prints. -/
def Acts (x : Work α) (f : Effect α) : Prop :=
  ∀ w : Workspace, ∃ words : String,
    x w = ((f w.now w.files).1,
      { w with files := (f w.now w.files).2, printed := w.printed ++ words })

def Effect.andThen (f : Effect α) (h : α → Effect β) : Effect β := fun now t =>
  match f now t with
  | (.ok a, t') => h a now t'
  | (.error e, t') => (.error e, t')

theorem Acts.congr {x : Work α} {f g : Effect α} (h : Acts x f)
    (heq : ∀ now t, f now t = g now t) : Acts x g := by
  intro w
  rw [← heq]
  exact h w

private theorem bind_apply (x : Work α) (k : α → Work β) (w : Workspace) :
    (x >>= k) w =
      match x w with
      | (.ok a, w') => k a w'
      | (.error e, w') => (.error e, w') := by
  change ExceptT.bindCont k (x w).1 (x w).2 = _
  rcases x w with ⟨r, w'⟩
  cases r <;> rfl

/-! What single steps do in a workspace. -/

theorem now_apply (w : Workspace) : Work.now w = (.ok w.now, w) := rfl

theorem files_apply (w : Workspace) : Work.files w = (.ok w.files, w) := rfl

theorem bind_ok {x : Work α} {a : α} {w w' : Workspace} (h : x w = (.ok a, w')) (k : α → Work β) :
    (x >>= k) w = k a w' := by
  rw [bind_apply, h]

theorem bind_error {x : Work α} {e : Fault} {w w' : Workspace} (h : x w = (.error e, w'))
    (k : α → Work β) : (x >>= k) w = (.error e, w') := by
  rw [bind_apply, h]

theorem bind_eq_ok_iff {x : Work α} {k : α → Work β} {b : β} {w w' : Workspace} :
    (x >>= k) w = (.ok b, w') ↔ ∃ a v, x w = (.ok a, v) ∧ k a v = (.ok b, w') := by
  rw [bind_apply]
  rcases x w with ⟨r, v⟩
  cases r with
  | error e =>
    constructor
    · intro h
      cases (Prod.mk.inj h).1
    · rintro ⟨a, u, h, -⟩
      cases (Prod.mk.inj h).1
  | ok a =>
    constructor
    · exact fun h => ⟨a, v, rfl, h⟩
    · rintro ⟨a', u, h, hk⟩
      obtain ⟨ha, rfl⟩ := Prod.mk.inj h
      cases ha
      exact hk

theorem lift_ok {ε : Type} {embed : ε → Fault} {found : Except ε α} {a : α} (h : found = .ok a)
    (w : Workspace) : lift embed found w = (.ok a, w) := by
  rw [h]
  rfl

theorem lift_error {ε : Type} {embed : ε → Fault} {found : Except ε α} {e : ε}
    (h : found = .error e) (w : Workspace) : lift embed found w = (.error (embed e), w) := by
  rw [h]
  rfl

theorem ask_ok {question : FileTree → Except FileFault α} {w : Workspace} {a : α}
    (h : question w.files = .ok a) : ask question w = (.ok a, w) := by
  rw [ask, bind_ok (files_apply w), h]
  rfl

theorem ask_error {question : FileTree → Except FileFault α} {w : Workspace} {e : FileFault}
    (h : question w.files = .error e) : ask question w = (.error (.file e), w) := by
  rw [ask, bind_ok (files_apply w), h]
  rfl

theorem change_ok {step : FileTree → Except FileFault FileTree} {w : Workspace} {t : FileTree}
    (h : step w.files = .ok t) : change step w = (.ok (), { w with files := t }) := by
  rw [change, bind_ok (files_apply w), h]
  rfl

theorem change_error {step : FileTree → Except FileFault FileTree} {w : Workspace} {e : FileFault}
    (h : step w.files = .error e) : change step w = (.error (.file e), w) := by
  rw [change, bind_ok (files_apply w), h]
  rfl

theorem change_eq_ok {step : FileTree → Except FileFault FileTree} {w w' : Workspace} {u : Unit}
    (h : change step w = (.ok u, w')) : ∃ t, step w.files = .ok t ∧ w' = { w with files := t } := by
  cases hstep : step w.files with
  | error e =>
    rw [change_error hstep] at h
    cases (Prod.mk.inj h).1
  | ok t =>
    rw [change_ok hstep] at h
    exact ⟨t, rfl, (Prod.mk.inj h).2.symm⟩

theorem attempt_apply (x : Work α) (w : Workspace) : attempt x w = (.ok (x w).1, (x w).2) := rfl

theorem orElse_ok {x : Work α} {a : α} {w w' : Workspace} (h : x w = (.ok a, w')) (other : α) :
    orElse x other w = (.ok a, w') := by
  rw [orElse, bind_ok (attempt_apply x w), h]
  rfl

theorem orElse_error {x : Work α} {e : Fault} {w w' : Workspace} (h : x w = (.error e, w'))
    (other : α) : orElse x other w = (.ok other, w') := by
  rw [orElse, bind_ok (attempt_apply x w), h]
  rfl

theorem eq_ok_of_orElse {x : Work α} {other a : α} {w w' : Workspace}
    (h : orElse x other w = (.ok a, w')) (hne : a ≠ other) : x w = (.ok a, w') := by
  rcases hx : x w with ⟨r, v⟩
  cases r with
  | error e =>
    rw [orElse_error hx, Prod.mk.injEq, Except.ok.injEq] at h
    exact absurd h.1.symm hne
  | ok b => rwa [orElse_ok hx] at h

/-! Steps that leave the workspace as it is. -/

def Still (x : Work α) : Prop := ∀ w, (x w).2 = w

theorem Still.bind {x : Work α} {k : α → Work β} (hx : Still x) (hk : ∀ a, Still (k a)) :
    Still (x >>= k) := by
  intro w
  have hfirst := hx w
  rcases hrun : x w with ⟨r, v⟩
  rw [hrun] at hfirst
  subst hfirst
  cases r with
  | error e => rw [bind_error hrun]
  | ok a =>
    rw [bind_ok hrun]
    exact hk a v

theorem still_ask (question : FileTree → Except FileFault α) : Still (ask question) := by
  intro w
  cases h : question w.files with
  | error e => rw [ask_error h]
  | ok a => rw [ask_ok h]

theorem still_lift {ε : Type} (embed : ε → Fault) (r : Except ε α) : Still (lift embed r) := by
  intro w
  cases r with
  | error e => rw [lift_error rfl]
  | ok a => rw [lift_ok rfl]

/-! Steps as effects. -/

theorem Acts.pure (a : α) : Acts (pure a) fun _ t => (.ok a, t) := by
  intro w
  refine ⟨"", ?_⟩
  rw [String.append_empty]
  rfl

theorem Acts.throw (e : Fault) : Acts (throw e : Work α) fun _ t => (.error e, t) := by
  intro w
  refine ⟨"", ?_⟩
  rw [String.append_empty]
  rfl

theorem Acts.bind {x : Work α} {k : α → Work β} {f : Effect α} {h : α → Effect β}
    (hx : Acts x f) (hk : ∀ a, Acts (k a) (h a)) : Acts (x >>= k) (f.andThen h) := by
  intro w
  obtain ⟨words, hrun⟩ := hx w
  rw [bind_apply, hrun, Effect.andThen]
  rcases f w.now w.files with ⟨r, t⟩
  cases r with
  | error e => exact ⟨words, rfl⟩
  | ok a =>
    obtain ⟨more, hmore⟩ := hk a { w with files := t, printed := w.printed ++ words }
    refine ⟨words ++ more, ?_⟩
    rw [← String.append_assoc]
    exact hmore

theorem Acts.printLine (s : String) : Acts (printLine s) fun _ t => (.ok (), t) := by
  intro w
  refine ⟨s ++ "\n", ?_⟩
  rw [← String.append_assoc]
  rfl

theorem Acts.now : Acts Work.now fun now t => (.ok now, t) := by
  intro w
  refine ⟨"", ?_⟩
  rw [String.append_empty]
  rfl

theorem Acts.attempt {x : Work α} {f : Effect α} (hx : Acts x f) :
    Acts (attempt x) fun now t => (.ok (f now t).1, (f now t).2) := by
  intro w
  obtain ⟨words, hrun⟩ := hx w
  refine ⟨words, ?_⟩
  rw [Work.attempt, hrun]

theorem Acts.files : Acts Work.files fun _ t => (.ok t, t) := by
  intro w
  refine ⟨"", ?_⟩
  rw [String.append_empty]
  rfl

private theorem Acts.setFiles (t : FileTree) :
    Acts (modify fun w => { w with files := t } : Work Unit) fun _ _ => (.ok (), t) := by
  intro w
  refine ⟨"", ?_⟩
  rw [String.append_empty]
  rfl

theorem Acts.ask (question : FileTree → Except FileFault α) :
    Acts (ask question) fun _ t => ((question t).mapError .file, t) := by
  refine Acts.files.bind (h := fun s _ t => ((question s).mapError .file, t)) fun s => ?_
  cases question s with
  | error e => exact Acts.throw _
  | ok a => exact Acts.pure a

theorem Acts.change (step : FileTree → Except FileFault FileTree) :
    Acts (change step) fun _ t =>
      match step t with
      | .ok t' => (.ok (), t')
      | .error e => (.error (.file e), t) := by
  refine Acts.files.bind (h := fun s _ t =>
    match step s with
    | .ok t' => (.ok (), t')
    | .error e => (.error (.file e), t)) fun s => ?_
  cases step s with
  | error e => exact Acts.throw _
  | ok t => exact Acts.setFiles t

theorem Acts.lift (r : Except Fault α) : Acts (lift (fun f => f) r) fun _ t => (r, t) := by
  cases r with
  | error f => exact Acts.throw f
  | ok a => exact Acts.pure a

theorem Acts.ite {x y : Work α} {f g : Effect α} (b : Bool) (hx : Acts x f) (hy : Acts y g) :
    Acts (if b then x else y) fun now t => if b then f now t else g now t := by
  cases b with
  | false => exact hy
  | true => exact hx

theorem Acts.printLine_bind {k : Unit → Work α} {f : Effect α} (s : String)
    (hk : Acts (k ()) f) : Acts (Work.printLine s >>= k) f :=
  (Acts.printLine s).bind fun _ => hk

/-! Steps that show things. -/

/-- A step that comes to a result and leaves some files behind in every workspace with a time and
some files, whatever it prints and shows. -/
def Leads (x : Work α) (now : Moment) (t : FileTree) (r : Except Fault α) (t' : FileTree) : Prop :=
  ∀ w : Workspace, w.now = now → w.files = t →
    ∃ w', x w = (r, w') ∧ w'.now = now ∧ w'.files = t'

section Leads

variable {x : Work α} {k : α → Work β} {now : Moment} {t t' t'' : FileTree} {a : α}
  {r : Except Fault α} {r' : Except Fault β}

theorem Acts.leads {f : Effect α} (h : Acts x f) (hf : f now t = (r, t')) : Leads x now t r t' := by
  rintro w rfl rfl
  obtain ⟨words, hrun⟩ := h w
  rw [hf] at hrun
  exact ⟨_, hrun, rfl, rfl⟩

theorem Leads.pure (a : α) : Leads (pure a) now t (.ok a) t := (Acts.pure a).leads rfl

theorem Leads.bind (hx : Leads x now t (.ok a) t') (hk : Leads (k a) now t' r' t'') :
    Leads (x >>= k) now t r' t'' := by
  intro w hnow hfiles
  obtain ⟨v, hfirst, hv, hvfiles⟩ := hx w hnow hfiles
  rw [bind_ok hfirst]
  exact hk v hv hvfiles

theorem Leads.bind_error {e : Fault} (hx : Leads x now t (.error e) t') :
    Leads (x >>= k) now t (.error e) t' := by
  intro w hnow hfiles
  obtain ⟨v, hfirst, hv⟩ := hx w hnow hfiles
  exact ⟨v, Work.bind_error hfirst k, hv⟩

theorem Leads.attempt (hx : Leads x now t r t') : Leads (attempt x) now t (.ok r) t' := by
  intro w hnow hfiles
  obtain ⟨v, hrun, hv⟩ := hx w hnow hfiles
  refine ⟨v, ?_, hv⟩
  rw [attempt_apply, hrun]

theorem Leads.orElse (hx : Leads x now t r t') (other : α) :
    Leads (orElse x other) now t (.ok (r.toOption.getD other)) t' := by
  intro w hnow hfiles
  obtain ⟨v, hrun, hv⟩ := hx w hnow hfiles
  refine ⟨v, ?_, hv⟩
  cases r with
  | ok a => exact orElse_ok hrun other
  | error e => exact orElse_error hrun other

theorem Leads.ask {question : FileTree → Except FileFault α} (h : question t = .ok a) :
    Leads (ask question) now t (.ok a) t := by
  rintro w hnow rfl
  exact ⟨w, ask_ok h, hnow, rfl⟩

theorem Leads.ask_error {question : FileTree → Except FileFault α} {e : FileFault}
    (h : question t = .error e) : Leads (Work.ask question) now t (.error (.file e)) t := by
  rintro w hnow rfl
  exact ⟨w, Work.ask_error h, hnow, rfl⟩

theorem Leads.change {step : FileTree → Except FileFault FileTree} (h : step t = .ok t') :
    Leads (Work.change step) now t (.ok ()) t' := by
  rintro w hnow rfl
  exact ⟨{ w with files := t' }, Work.change_ok h, hnow, rfl⟩

theorem Leads.change_error {step : FileTree → Except FileFault FileTree} {e : FileFault}
    (h : step t = .error e) : Leads (Work.change step) now t (.error (.file e)) t := by
  rintro w hnow rfl
  exact ⟨w, Work.change_error h, hnow, rfl⟩

theorem Leads.lift {ε : Type} {embed : ε → Fault} {found : Except ε α} (h : found = .ok a) :
    Leads (lift embed found) now t (.ok a) t :=
  fun w hnow hfiles => ⟨w, lift_ok h w, hnow, hfiles⟩

theorem Leads.lift_error {ε : Type} {embed : ε → Fault} {found : Except ε α} {e : ε}
    (h : found = .error e) : Leads (Work.lift embed found) now t (.error (embed e)) t :=
  fun w hnow hfiles => ⟨w, Work.lift_error h w, hnow, hfiles⟩

theorem Leads.present (s : Shown) : Leads (present s) now t (.ok ()) t :=
  fun w hnow hfiles => ⟨{ w with shown := w.shown ++ [s] }, rfl, hnow, hfiles⟩

theorem Leads.present_bind {k : Unit → Work β} (s : Shown) (hk : Leads (k ()) now t r' t') :
    Leads (Work.present s >>= k) now t r' t' :=
  (Leads.present s).bind hk

theorem Leads.printLine_bind {k : Unit → Work β} (s : String) (hk : Leads (k ()) now t r' t') :
    Leads (Work.printLine s >>= k) now t r' t' :=
  ((Acts.printLine s).leads rfl).bind hk

theorem Leads.mapM {f : α → Work β} {xs : List α} {ys : List β}
    (h : List.Forall₂ (fun x y => Leads (f x) now t (.ok y) t) xs ys) :
    Leads (xs.mapM f) now t (.ok ys) t := by
  induction h with
  | nil => exact Leads.pure []
  | cons hx _ ih =>
    rw [List.mapM_cons]
    exact hx.bind (ih.bind (Leads.pure _))

end Leads

end SuiteTidy.Work

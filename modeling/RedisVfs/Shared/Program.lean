import Mathlib.Control.Basic
import Mathlib.Logic.Function.Basic

set_option autoImplicit false

/-- A client's code: it sends one command to a server, reads the reply and goes on. -/
inductive Program (C R E A : Type) where
  | done (value : A)
  | fail (fault : E)
  | send (command : C) (next : R → Program C R E A)

namespace Program

variable {C R E A B S : Type}

def bind : Program C R E A → (A → Program C R E B) → Program C R E B
  | .done value, f => f value
  | .fail fault, _ => .fail fault
  | .send command next, f => .send command fun reply => (next reply).bind f

instance : Monad (Program C R E) where
  pure := .done
  bind := bind

theorem bind_done (program : Program C R E A) : program.bind .done = program := by
  induction program with
  | done => rfl
  | fail => rfl
  | send command next ih => simp only [bind, ih]

theorem bind_bind {D : Type} (program : Program C R E A) (f : A → Program C R E B)
    (g : B → Program C R E D) :
    (program.bind f).bind g = program.bind fun value => (f value).bind g := by
  induction program with
  | done => rfl
  | fail => rfl
  | send command next ih => simp only [bind, ih]

instance : LawfulMonad (Program C R E) :=
  LawfulMonad.mk' _ (fun program => bind_done program) (fun _ _ => rfl) bind_bind

def command (c : C) : Program C R E R := .send c .done

def run (exec : S → C → R × S) : Program C R E A → S → Except E A × S
  | .done value, server => (.ok value, server)
  | .fail fault, server => (.error fault, server)
  | .send c next, server => (next (exec server c).1).run exec (exec server c).2

section Run

variable (exec : S → C → R × S)

@[simp] theorem run_pure (value : A) (server : S) :
    (pure value : Program C R E A).run exec server = (.ok value, server) := rfl

@[simp] theorem run_fail (fault : E) (server : S) :
    (.fail fault : Program C R E A).run exec server = (.error fault, server) := rfl

@[simp] theorem run_command (c : C) (server : S) :
    (command c : Program C R E R).run exec server = (.ok (exec server c).1, (exec server c).2) := rfl

theorem run_bind (program : Program C R E A) (f : A → Program C R E B) (server : S) :
    (program >>= f).run exec server =
      match program.run exec server with
      | (.ok value, server') => (f value).run exec server'
      | (.error fault, server') => (.error fault, server') := by
  change (program.bind f).run exec server = _
  induction program generalizing server with
  | done => rfl
  | fail => rfl
  | send c next ih => simpa only [bind, run] using ih _ _

theorem run_bind_ok {program : Program C R E A} {server server' : S} {value : A}
    (ran : program.run exec server = (.ok value, server')) (f : A → Program C R E B) :
    (program >>= f).run exec server = (f value).run exec server' := by
  rw [run_bind, ran]

theorem run_bind_error {program : Program C R E A} {server server' : S} {fault : E}
    (ran : program.run exec server = (.error fault, server')) (f : A → Program C R E B) :
    (program >>= f).run exec server = (.error fault, server') := by
  rw [run_bind, ran]

theorem run_map (f : A → B) (program : Program C R E A) (server : S) :
    (f <$> program).run exec server = ((program.run exec server).1.map f, (program.run exec server).2) := by
  rw [map_eq_pure_bind, run_bind]
  rcases program.run exec server with ⟨_ | value, server'⟩ <;> rfl

theorem run_mapM {f : A → Program C R E B} {g : A → B} {values : List A} {server : S}
    (each : ∀ value ∈ values, (f value).run exec server = (.ok (g value), server)) :
    (values.mapM f).run exec server = (.ok (values.map g), server) := by
  induction values with
  | nil => rfl
  | cons value values ih =>
    have later := ih fun other member => each other (List.mem_cons_of_mem value member)
    rw [List.mapM_cons, run_bind_ok exec (each value List.mem_cons_self), run_bind_ok exec later]
    rfl

theorem run_mapM_if {f : A → Program C R E B} {g : A → B} {fits : A → Prop} [DecidablePred fits]
    {fault : E} {values : List A} {server : S}
    (each : ∀ value ∈ values, (f value).run exec server =
      (if fits value then .ok (g value) else .error fault, server)) :
    (values.mapM f).run exec server =
      (if ∀ value ∈ values, fits value then .ok (values.map g) else .error fault, server) := by
  induction values with
  | nil => rfl
  | cons value values ih =>
    have first := each value List.mem_cons_self
    have later := ih fun other member => each other (List.mem_cons_of_mem value member)
    rw [List.mapM_cons]
    by_cases here : fits value
    · rw [if_pos here] at first
      rw [run_bind_ok exec first]
      by_cases rest : ∀ other ∈ values, fits other
      · rw [if_pos rest] at later
        rw [run_bind_ok exec later, if_pos (List.forall_mem_cons.mpr ⟨here, rest⟩)]
        rfl
      · rw [if_neg rest] at later
        rw [run_bind_error exec later, if_neg fun all => rest (List.forall_mem_cons.mp all).2]
    · rw [if_neg here] at first
      rw [run_bind_error exec first, if_neg fun all => here (List.forall_mem_cons.mp all).1]

end Run

section MapFail

variable {E' : Type}

def mapFail (f : E → E') : Program C R E A → Program C R E' A
  | .done value => .done value
  | .fail fault => .fail (f fault)
  | .send c next => .send c fun reply => (next reply).mapFail f

theorem run_mapFail (exec : S → C → R × S) (f : E → E') (program : Program C R E A) (server : S) :
    (program.mapFail f).run exec server =
      ((program.run exec server).1.mapError f, (program.run exec server).2) := by
  induction program generalizing server with
  | done => rfl
  | fail => rfl
  | send c next ih => exact ih _ _

/-- A program that does as another and tells its faults in its own way, or stops with a fault that
is its own. -/
inductive Guards (own : E') (told : E → E') : Program C R E' A → Program C R E A → Prop
  | done (value : A) : Guards own told (.done value) (.done value)
  | fail (fault : E) : Guards own told (.fail (told fault)) (.fail fault)
  | stops (program : Program C R E A) : Guards own told (.fail own) program
  | send (c : C) {guarded : R → Program C R E' A} {next : R → Program C R E A}
      (rest : ∀ reply, Guards own told (guarded reply) (next reply)) :
      Guards own told (.send c guarded) (.send c next)

namespace Guards

variable {own : E'} {told : E → E'}

theorem mapFail (program : Program C R E A) : Guards own told (program.mapFail told) program := by
  induction program with
  | done value => exact .done value
  | fail fault => exact .fail fault
  | send c next ih => exact .send c ih

theorem bind {guarded : Program C R E' A} {program : Program C R E A} {f : A → Program C R E' B}
    {g : A → Program C R E B} (first : Guards own told guarded program)
    (rest : ∀ value, Guards own told (f value) (g value)) : Guards own told (guarded >>= f) (program >>= g) := by
  induction first with
  | done value => exact rest value
  | fail fault => exact .fail fault
  | stops program => exact .stops _
  | send c _ ih => exact .send c ih

theorem run {guarded : Program C R E' A} {program : Program C R E A} (guards : Guards own told guarded program)
    (exec : S → C → R × S) (server : S) :
    (guarded.run exec server).1 = .error own ∨
      guarded.run exec server = ((program.run exec server).1.mapError told, (program.run exec server).2) := by
  induction guards generalizing server with
  | done value => exact .inr rfl
  | fail fault => exact .inr rfl
  | stops program => exact .inl rfl
  | send c _ ih => exact ih _ _

end Guards

end MapFail

section Only

variable {allowed : C → Prop}

inductive Only (allowed : C → Prop) : Program C R E A → Prop
  | done (value : A) : Only allowed (.done value)
  | fail (fault : E) : Only allowed (.fail fault)
  | send {c : C} {next : R → Program C R E A} (fits : allowed c)
      (rest : ∀ reply, Only allowed (next reply)) : Only allowed (.send c next)

theorem Only.pure (value : A) : Only allowed (Pure.pure value : Program C R E A) := .done value

theorem Only.command {c : C} (fits : allowed c) :
    Only allowed (Program.command c : Program C R E R) := .send fits fun reply => .done reply

theorem Only.bind {program : Program C R E A} {f : A → Program C R E B}
    (first : Only allowed program) (rest : ∀ value, Only allowed (f value)) :
    Only allowed (program >>= f) := by
  induction first with
  | done value => exact rest value
  | fail fault => exact .fail fault
  | send fits _ ih => exact .send fits ih

theorem Only.mapM {f : A → Program C R E B} (each : ∀ value, Only allowed (f value)) (values : List A) :
    Only allowed (values.mapM f) := by
  induction values with
  | nil => exact .pure _
  | cons value values ih =>
    rw [List.mapM_cons]
    exact (each value).bind fun _ => ih.bind fun _ => .pure _

theorem Only.run_server {exec : S → C → R × S} {program : Program C R E A}
    (only : Only allowed program) (keeps : ∀ c server, allowed c → (exec server c).2 = server)
    (server : S) : (program.run exec server).2 = server := by
  induction only generalizing server with
  | done => rfl
  | fail => rfl
  | send fits _ ih =>
    rw [run, keeps _ server fits]
    exact ih _ server

theorem Only.run_alike {exec : S → C → R × S} {program : Program C R E A}
    (only : Only allowed program) {server server' : S}
    (keeps : ∀ c, allowed c → (exec server c).2 = server ∧ (exec server' c).2 = server')
    (alike : ∀ c, allowed c → (exec server c).1 = (exec server' c).1) :
    (program.run exec server').1 = (program.run exec server).1 := by
  induction only with
  | done => rfl
  | fail => rfl
  | @send c next fits _ ih =>
    rw [run, run, (keeps c fits).1, (keeps c fits).2, ← alike c fits]
    exact ih _

end Only

def command? : Program C R E A → Option C
  | .done _ => none
  | .fail _ => none
  | .send c _ => some c

def Awaits (program : Program C R E A) (c : C) : Prop := program.command? = some c

instance [DecidableEq C] (program : Program C R E A) (c : C) : Decidable (Awaits program c) :=
  inferInstanceAs (Decidable (_ = _))

theorem awaits_iff {program : Program C R E A} {c : C} :
    program.Awaits c ↔ ∃ next, program = .send c next := by
  cases program <;> simp [Awaits, command?]

end Program

import RedisVfs.Shared.Program

set_option autoImplicit false

structure Event (ι C R : Type) where
  client : ι
  command : C
  reply : R
  deriving DecidableEq

abbrev Trace (ι C R : Type) := List (Event ι C R)

structure Pool (ι C R E A S : Type) where
  server : S
  clients : ι → Program C R E A
  trace : Trace ι C R

namespace Trace

variable {ι C R : Type} [DecidableEq ι]

def last (trace : Trace ι C R) (client : ι) : Option (Event ι C R) :=
  trace.find? fun event => event.client = client

theorem last_cons_self (client : ι) (command : C) (reply : R) (trace : Trace ι C R) :
    Trace.last (⟨client, command, reply⟩ :: trace) client = some ⟨client, command, reply⟩ := by
  simp [last]

theorem last_cons_ne {event : Event ι C R} {client : ι} (other : client ≠ event.client)
    (trace : Trace ι C R) : Trace.last (event :: trace) client = Trace.last trace client := by
  simp [last, other.symm]

def collect {B : Type} (reading : Option (Event ι C R) → Event ι C R → Option B) :
    Trace ι C R → List B
  | [] => []
  | event :: trace => (reading (Trace.last trace event.client) event).toList ++ collect reading trace

theorem collect_cons {B : Type} (reading : Option (Event ι C R) → Event ι C R → Option B)
    (event : Event ι C R) (trace : Trace ι C R) :
    collect reading (event :: trace) =
      (reading (Trace.last trace event.client) event).toList ++ collect reading trace := rfl

end Trace

namespace Pool

variable {ι C R E A S : Type}

def start (server : S) (clients : ι → Program C R E A) : Pool ι C R E A S := ⟨server, clients, []⟩

variable [DecidableEq ι] (exec : S → C → R × S)

def advance (pool : Pool ι C R E A S) (client : ι) : Pool ι C R E A S :=
  match pool.clients client with
  | .done _ => pool
  | .fail _ => pool
  | .send command next =>
    { server := (exec pool.server command).2
      clients := Function.update pool.clients client (next (exec pool.server command).1)
      trace := ⟨client, command, (exec pool.server command).1⟩ :: pool.trace }

/-- A schedule names the client that is next. One that it names no more has stopped for ever. -/
def run (pool : Pool ι C R E A S) (schedule : List ι) : Pool ι C R E A S :=
  schedule.foldl (advance exec) pool

@[simp] theorem run_nil (pool : Pool ι C R E A S) : pool.run exec [] = pool := rfl

@[simp] theorem run_cons (pool : Pool ι C R E A S) (client : ι) (schedule : List ι) :
    pool.run exec (client :: schedule) = (pool.advance exec client).run exec schedule := rfl

theorem run_append (pool : Pool ι C R E A S) (early late : List ι) :
    pool.run exec (early ++ late) = (pool.run exec early).run exec late := List.foldl_append

def Obeys (condition : Pool ι C R E A S → ι → Prop) (pool : Pool ι C R E A S) : List ι → Prop
  | [] => True
  | client :: schedule =>
      condition pool client ∧ Obeys condition (pool.advance exec client) schedule

instance instDecidableObeys (condition : Pool ι C R E A S → ι → Prop)
    [∀ pool client, Decidable (condition pool client)] :
    ∀ (pool : Pool ι C R E A S) (schedule : List ι), Decidable (Obeys exec condition pool schedule)
  | _, [] => isTrue trivial
  | pool, client :: schedule =>
    have := instDecidableObeys condition (pool.advance exec client) schedule
    inferInstanceAs (Decidable (_ ∧ _))

theorem obeys_of_forall {condition : Pool ι C R E A S → ι → Prop}
    (always : ∀ pool client, condition pool client) (pool : Pool ι C R E A S) (schedule : List ι) :
    Obeys exec condition pool schedule := by
  induction schedule generalizing pool with
  | nil => trivial
  | cons client schedule ih => exact ⟨always pool client, ih _⟩

theorem obeys_append (condition : Pool ι C R E A S → ι → Prop) (pool : Pool ι C R E A S)
    (early late : List ι) :
    Obeys exec condition pool (early ++ late) ↔
      Obeys exec condition pool early ∧ Obeys exec condition (pool.run exec early) late := by
  induction early generalizing pool with
  | nil => simp [Obeys]
  | cons client early ih => simp only [List.cons_append, Obeys, run_cons, ih, and_assoc]

end Pool

/-- The places of a program and the commands that lead from one to the next. `follows` ties a place
to what is left of the program there. -/
structure Protocol (C R E A P : Type) where
  follows : P → Program C R E A → Prop
  move : P → C → R → P → Prop
  progress : ∀ {place : P} {command : C} {next : R → Program C R E A},
    follows place (.send command next) → ∀ reply,
      ∃ place', move place command reply place' ∧ follows place' (next reply)

namespace Protocol

variable {ι C R E A P S : Type} (protocol : Protocol C R E A P)

def Following (places : ι → P) (pool : Pool ι C R E A S) : Prop :=
  ∀ client, protocol.follows (places client) (pool.clients client)

variable [DecidableEq ι] (exec : S → C → R × S)

theorem reading_cases {B : Type} (reading : P → B) {places : ι → P} {client other : ι} {place' : P}
    {value : B} (here : reading (Function.update places client place' other) = value) :
    other = client ∧ reading place' = value ∨ other ≠ client ∧ reading (places other) = value := by
  by_cases moved : other = client
  · subst moved
    exact .inl ⟨rfl, by simpa using here⟩
  · exact .inr ⟨moved, by simpa [moved] using here⟩

theorem place_cases {places : ι → P} {client other : ι} {place' place : P}
    (here : Function.update places client place' other = place) :
    other = client ∧ place' = place ∨ other ≠ client ∧ places other = place :=
  reading_cases id here

def Keeps (condition : Pool ι C R E A S → ι → Prop)
    (invariant : S → (ι → P) → Trace ι C R → Prop) : Prop :=
  ∀ (pool : Pool ι C R E A S) (places : ι → P) (client : ι) (command : C) (place' : P),
    protocol.Following places pool → invariant pool.server places pool.trace →
    condition pool client → (pool.clients client).Awaits command →
    protocol.move (places client) command (exec pool.server command).1 place' →
    invariant (exec pool.server command).2 (Function.update places client place')
      (⟨client, command, (exec pool.server command).1⟩ :: pool.trace)

variable {protocol exec} {condition : Pool ι C R E A S → ι → Prop}
  {invariant : S → (ι → P) → Trace ι C R → Prop}

theorem Keeps.advance (keeps : protocol.Keeps exec condition invariant) {pool : Pool ι C R E A S}
    {places : ι → P} (following : protocol.Following places pool)
    (holds : invariant pool.server places pool.trace) {client : ι} (allowed : condition pool client) :
    ∃ places', protocol.Following places' (pool.advance exec client) ∧
      invariant (pool.advance exec client).server places' (pool.advance exec client).trace := by
  have here := following client
  unfold Pool.advance
  split
  next => exact ⟨places, following, holds⟩
  next => exact ⟨places, following, holds⟩
  next command next program =>
    rw [program] at here
    obtain ⟨place', move, follows⟩ := protocol.progress here (exec pool.server command).1
    have awaits : (pool.clients client).Awaits command := Program.awaits_iff.mpr ⟨next, program⟩
    refine ⟨Function.update places client place', ?_,
      keeps pool places client command place' following holds allowed awaits move⟩
    intro other
    by_cases same : other = client
    · subst same
      simpa using follows
    · simpa [same] using following other

theorem Keeps.run (keeps : protocol.Keeps exec condition invariant) {schedule : List ι} :
    ∀ {pool : Pool ι C R E A S} {places : ι → P}, protocol.Following places pool →
      invariant pool.server places pool.trace → pool.Obeys exec condition schedule →
      ∃ places', protocol.Following places' (pool.run exec schedule) ∧
        invariant (pool.run exec schedule).server places' (pool.run exec schedule).trace := by
  induction schedule with
  | nil => exact fun following holds _ => ⟨_, following, holds⟩
  | cons client schedule ih =>
    intro pool places following holds obeys
    obtain ⟨places', following', holds'⟩ := keeps.advance following holds obeys.1
    exact ih following' holds' obeys.2

end Protocol

import Mathlib.Logic.Relation
import RedisVfs.Source.Runs

set_option autoImplicit false

namespace RedisVfs

structure Sessions (ι : Type) where
  store : Store
  contexts : ι → FsContext

namespace Sessions

variable {ι : Type} [DecidableEq ι]

def built (before : Store) : Sessions ι :=
  ⟨(vfsBuildDatabase.run execute before).2, fun _ => { cwd := ['/'] }⟩

-- Calls of the clients, one at a time: a call comes back, as in a run of one client; a client starts anew;
-- or an object is deleted, from any folder number and with anything in the parser state before.
inductive Step : Sessions ι → Sessions ι → Prop
  | call {sessions : Sessions ι} {client : ι} {call : Call} {state : State}
      (step : RedisVfs.Step ⟨sessions.store, sessions.contexts client⟩ call state) :
      Step sessions ⟨state.store, Function.update sessions.contexts client state.context⟩
  | start {sessions : Sessions ι} {client : ι} {context : FsContext} {store : Store}
      (ran : getInitialContext.run execute sessions.store = (.ok context, store)) :
      Step sessions ⟨store, Function.update sessions.contexts client context⟩
  | delete {sessions : Sessions ι} {parserState : VfsPathParserState} {path : CString.Text} {cwd code : Int}
      {store : Store}
      (ran : (vfsDeleteObjectWithPath parserState path cwd).run execute sessions.store = (.ok code, store)) :
      Step sessions ⟨store, sessions.contexts⟩

abbrev Run : Sessions ι → Sessions ι → Prop := Relation.ReflTransGen Step

def Lived (sessions : Sessions ι) : Prop := ∃ before, Run (built before) sessions

end Sessions

end RedisVfs

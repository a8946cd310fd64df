import RedisVfs.Source.Wrapper

set_option autoImplicit false

namespace RedisVfs

open CString

inductive Call where
  | mkdir (path : Text)
  | createFile (path : Text)
  | cd (path : Text)
  deriving DecidableEq

def Call.program (fuel : Nat) (context : FsContext) : Call → Prog (Bool × FsContext)
  | .mkdir path => do return (← RedisVfs.mkdir fuel context path, context)
  | .createFile path => do return (← RedisVfs.createFile fuel context path, context)
  | .cd path => RedisVfs.cd fuel context path

def Call.path : Call → Text
  | .mkdir path | .createFile path | .cd path => path

def Call.isCreation : Call → Bool
  | .mkdir _ | .createFile _ => true
  | .cd _ => false

structure State where
  store : Store
  context : FsContext

-- The formatted path of a creation under this path, and what vfs_parsePath answers for it, where
-- neither fails.
def State.Parses (state : State) (path formattedPath : Text) (parserState : VfsPathParserState) : Prop :=
  ∃ fuel cwdId,
    (formatToValidPath fuel state.context path).run execute state.store =
        (.ok formattedPath, state.store) ∧
      (getCwdId state.context).run execute state.store = (.ok cwdId, state.store) ∧
        (vfsParsePath initVfsPathParserState formattedPath formattedPath.length cwdId).run execute
          state.store = (.ok (0, parserState), state.store)

-- INCR is the one command here that Redis can refuse, at the end of the 64-bit range. The server
-- behaves as a map, so no call of a run finds the counter there.
def Store.Accepts (store : Store) : Prop := (execute store (.incr .currentIdCount)).1 ≠ .error

instance (store : Store) : Decidable store.Accepts := inferInstanceAs (Decidable (_ ≠ _))

-- One call that comes back: with a value, or with a C++ exception that its caller catches.
inductive Step : State → Call → State → Prop
  | returned {state : State} {call : Call} {fuel : Nat} {result : Bool} {context : FsContext}
      {store : Store} (accepts : state.store.Accepts)
      (ran : (call.program fuel state.context).run execute state.store = (.ok (result, context), store)) :
      Step state call ⟨store, context⟩
  | threw {state : State} {call : Call} {fuel : Nat} {message : Text} {store : Store}
      (accepts : state.store.Accepts)
      (ran : (call.program fuel state.context).run execute state.store =
        (.error (.thrown message), store)) :
      Step state call ⟨store, state.context⟩

inductive ReachedBy (condition : State → Call → Prop) : State → Prop
  | built (before : Store) :
      ReachedBy condition ⟨(vfsBuildDatabase.run execute before).2, { cwd := ['/'] }⟩
  | step {state state' : State} {call : Call} (earlier : ReachedBy condition state)
      (allowed : condition state call) (step : Step state call state') : ReachedBy condition state'

def Reachable : State → Prop := ReachedBy fun _ _ => True

end RedisVfs

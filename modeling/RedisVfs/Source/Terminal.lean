import Mathlib.Logic.Relation
import RedisVfs.Source.Runs

set_option autoImplicit false

namespace RedisVfs

open CString

namespace Terminal

inductive Command where
  | command_cp
  | command_pwd
  | command_cd
  | command_ls
  | command_mv
  | command_mkdir
  | command_mkfile
  | command_stat
  | command_invalid
  deriving DecidableEq

def commandToEnum (str : Text) : Command :=
  if str = "cp".toList then .command_cp
  else if str = "cd".toList then .command_cd
  else if str = "pwd".toList then .command_pwd
  else if str = "ls".toList then .command_ls
  else if str = "mv".toList then .command_mv
  else if str = "mkdir".toList then .command_mkdir
  else if str = "stat".toList then .command_stat
  else if str = "mkfile".toList then .command_mkfile
  else .command_invalid

def find (str delim : Text) (prev : Nat) : Option Nat :=
  (List.range' prev (str.length + 1 - prev)).find? fun pos => delim.isPrefixOf (str.drop pos)

-- `do { ... } while (...)`; none when the turns are used up.
def splitLoop (str delim : Text) : Nat → Nat → List Text → Option (List Text)
  | 0, _, _ => none
  | fuel + 1, prev, tokens =>
      let pos := (find str delim prev).getD str.length
      let token := (str.drop prev).take (pos - prev)
      let tokens := if token = [] then tokens else tokens ++ [token]
      let prev := pos + delim.length
      if pos < str.length ∧ prev < str.length then splitLoop str delim fuel prev tokens else some tokens

-- No loop that ends takes more turns than there are characters, or one for an empty text.
def split (str delim : Text) : Option (List Text) := splitLoop str delim (str.length + 1) 0 []

-- What stops the terminal: a fault of the library, `strs[0]` of an empty vector, or a loop without end.
inductive Fault where
  | library (fault : RedisVfs.Fault)
  | noWord
  | endless
  deriving DecidableEq

abbrev Prog := Program (Redis.Command Key Field) Redis.Reply Fault

def library {A : Type} (program : RedisVfs.Prog A) : Prog A := program.mapFail .library

def pwd (context : FsContext) : Text := context.cwd

-- The source does nothing here yet.
def mv (_context : FsContext) (_oldPath _newPath : Text) : Bool := true

def describe (info : DirItemInfo) : Text :=
  if info.exists_ = false then "that file doesn't exist".toList
  else if info.type = some .DIR_ITEM_FILE then "it's a file: ".toList ++ info.name ++ ['\n']
  else if info.type = some .DIR_ITEM_FOLDER then "it's a folder: ".toList ++ info.name ++ ['\n']
  else "it's something else???\n".toList

def handleCommand (fuel : Nat) (c : FsContext) : List Text → Prog (Text × FsContext)
  | [] => .fail .noWord
  | command :: args =>
      match commandToEnum command, args with
      | .command_cp, source :: target :: _ =>
          return ("copy from: ".toList ++ source ++ " to: ".toList ++ target ++ ['\n'], c)
      | .command_cp, _ => return ("invalid cp!\n".toList, c)
      | .command_cd, [] => return ("invalid cd args\n".toList, c)
      | .command_cd, path :: _ => do
          let (result, c) ← library (cd fuel c path)
          if result then return (pwd c ++ ['\n'], c) else return ("invalid cd\n".toList, c)
      | .command_pwd, _ => return (pwd c ++ ['\n'], c)
      | .command_ls, [] => do return ((← library (lsPrettyPrint c c.cwd)) ++ ['\n'], c)
      | .command_ls, path :: _ => do return ((← library (lsPrettyPrint c path)) ++ ['\n'], c)
      | .command_mkdir, [] => return ("invalid mkdir args\n".toList, c)
      | .command_mkdir, path :: _ => do
          if ← library (mkdir fuel c path) then return ([], c)
          else return ("failed to mkdir\n".toList, c)
      | .command_mkfile, [] => return ("invalid mkfile args\n".toList, c)
      | .command_mkfile, path :: _ => do
          if ← library (createFile fuel c path) then return ([], c)
          else return ("failed to mkfile\n".toList, c)
      | .command_mv, source :: target :: _ =>
          return (if mv c source target then [] else "failed to mv\n".toList, c)
      | .command_mv, _ => return ("invalid mv args\n".toList, c)
      | .command_stat, [] => return ("invalid stat args\n".toList, c)
      | .command_stat, path :: _ => do return (describe (← library (stat c path)), c)
      | .command_invalid, _ => return ("invalid command!\n".toList, c)

def handleLine (fuel : Nat) (c : FsContext) (str : Text) : Prog (Text × FsContext) :=
  match split str [' '] with
  | none => .fail .endless
  | some vec => handleCommand fuel c vec

-- What std::cin has left. Once the end of the input is met, every further getline fails at once.
structure Stream where
  rest : Text
  eof : Bool
  deriving DecidableEq

-- `std::getline(std::cin, str)`; one that fails at once leaves the string as it was.
def getline (cin : Stream) (str : Text) : Text × Stream :=
  if cin.eof then (str, cin)
  else if '\n' ∈ cin.rest then
    (cin.rest.takeWhile (· ≠ '\n'), ⟨(cin.rest.dropWhile (· ≠ '\n')).drop 1, false⟩)
  else (cin.rest, ⟨[], true⟩)

structure Console where
  cin : Stream
  str : Text
  c : FsContext
  deriving DecidableEq

def turn (fuel : Nat) (console : Console) : Prog (Text × Console) := do
  let (str, cin) := getline console.cin console.str
  let str := str.filter (· ≠ '\n')
  let (output, c) ← handleLine fuel console.c str
  return ("\nCommand> ".toList ++ output, ⟨cin, str, c⟩)

-- The loop has no end of its own, so the turns are given.
def mainLoop (fuel : Nat) : Nat → Console → Prog (Text × Console)
  | 0, console => return ([], console)
  | turns + 1, console => do
      let (output, console) ← turn fuel console
      let (more, console) ← mainLoop fuel turns console
      return (output ++ more, console)

def main (fuel turns : Nat) (input : Text) : Prog (Text × Console) := do
  let c ← library getInitialContext
  mainLoop fuel turns ⟨⟨input, false⟩, [], c⟩

end Terminal

open Terminal

structure Terminals (ι : Type) where
  store : Store
  consoles : ι → Console

namespace Terminals

variable {ι : Type} [DecidableEq ι]

-- One at a time: a terminal is started anew, with any input, or takes a turn that does not end it.
inductive Step : Terminals ι → Terminals ι → Prop
  | start {terminals : Terminals ι} {terminal : ι} {input : Text} {context : FsContext} {store : Store}
      (ran : getInitialContext.run execute terminals.store = (.ok context, store)) :
      Step terminals ⟨store, Function.update terminals.consoles terminal ⟨⟨input, false⟩, [], context⟩⟩
  | turn {terminals : Terminals ι} {terminal : ι} {fuel : Nat} {output : Text} {console : Console} {store : Store}
      (accepts : terminals.store.Accepts)
      (ran : (turn fuel (terminals.consoles terminal)).run execute terminals.store =
        (.ok (output, console), store)) :
      Step terminals ⟨store, Function.update terminals.consoles terminal console⟩

abbrev Run : Terminals ι → Terminals ι → Prop := Relation.ReflTransGen Step

end Terminals

end RedisVfs

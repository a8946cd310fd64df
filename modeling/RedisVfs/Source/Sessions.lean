import RedisVfs.Shared.Pool
import RedisVfs.Source.Runs

set_option autoImplicit false

namespace RedisVfs

open CString

inductive Creation where
  | mkdir (parentId : Int) (name : Text)
  | createFile (parentId : Int) (name : Text) (size : Int) (googleId webUrl apiUrl : Text)
  deriving DecidableEq

def Creation.program : Creation → Prog Int
  | .mkdir parentId name => vfsMkdir parentId name
  | .createFile parentId name size googleId webUrl apiUrl =>
      vfsCreateFile parentId name size googleId webUrl apiUrl

def Reads : Redis.Command Key Field → Prop
  | .hget _ _ | .lrange _ => True
  | _ => False

-- A client that looks things up and creates, in any order and with arguments that may depend on all it
-- has read before.
inductive Creating {A : Type} : Prog A → Prop
  | done (value : A) : Creating (.done value)
  | fail (fault : Fault) : Creating (.fail fault)
  | read {command : Redis.Command Key Field} {next : Redis.Reply → Prog A} (reads : Reads command)
      (rest : ∀ reply, Creating (next reply)) : Creating (.send command next)
  | create (creation : Creation) {next : Int → Prog A} (rest : ∀ id, Creating (next id)) :
      Creating (creation.program >>= next)

abbrev Clients (ι A : Type) := Pool ι (Redis.Command Key Field) Redis.Reply Fault A Store

abbrev Sent (ι : Type) := Event ι (Redis.Command Key Field) Redis.Reply
abbrev Log (ι : Type) := Trace ι (Redis.Command Key Field) Redis.Reply

section Log

variable {ι : Type} [DecidableEq ι]

-- The id with which a getNewId ends at this event: where GET finds no counter it is -1, otherwise INCR
-- comes after the GET that read the id.
def newId (earlier : Option (Sent ι)) (event : Sent ι) : Option Int :=
  match event.command with
  | .get .currentIdCount => if event.reply.str = none then some (-1) else none
  | .incr .currentIdCount => earlier.bind fun get => get.reply.str.map strtol
  | _ => none

def newIds (log : Log ι) : List Int := log.collect newId

def pushedIds (log : Log ι) : List Text :=
  log.filterMap fun event =>
    match event.command with
    | .lpush _ element => some element
    | _ => none

def writtenInfos (log : Log ι) : List Key :=
  log.filterMap fun event =>
    match event.command with
    | .hmset info _ => some info
    | _ => none

structure CreatedObject where
  list : Key
  element : Text
  info : Key
  values : List (Field × Text)
  deriving DecidableEq

-- The object whose creation ends at this event: HMSET comes after the LPUSH that linked it.
def creationEnd (earlier : Option (Sent ι)) (event : Sent ι) : Option CreatedObject :=
  match event.command, earlier.map Event.command with
  | .hmset info values, some (.lpush list element) => some ⟨list, element, info, values⟩
  | _, _ => none

def createdObjects (log : Log ι) : List CreatedObject := log.collect creationEnd

-- The last command of getInitialContext: an EXISTS that finds the database, or the SET of its flag.
def endsStart (event : Sent ι) : Bool :=
  match event.command, event.reply with
  | .existsKey .isVirtualFileSystemCreated, .integer value => value ≠ 0
  | .set .isVirtualFileSystemCreated _, _ => true
  | _, _ => false

def Started (log : Log ι) : Prop := log.any endsStart = true

instance (log : Log ι) : Decidable (Started log) := inferInstanceAs (Decidable (_ = _))

end Log

-- The id that getNewId would read: -1 where the counter is absent.
def Store.count (store : Store) : Int :=
  match store.strings .currentIdCount with
  | none => -1
  | some str => strtol str

end RedisVfs

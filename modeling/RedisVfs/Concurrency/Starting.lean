import RedisVfs.Concurrency.Allocating

set_option autoImplicit false

namespace RedisVfs

open CString

variable {A : Type}

def rootValues : List (Field × Text) :=
  [(.parent, printLu 0), (.name, quoted "root".toList), (.createdData, quoted march7th)]

def setFlag (next : Prog A) : Prog A :=
  .send (.set .isVirtualFileSystemCreated "yes".toList) fun _ => next

def setCount (next : Prog A) : Prog A :=
  .send (.set .currentIdCount "1".toList) fun _ => setFlag next

def makeRoot (next : Prog A) : Prog A :=
  .send (.hmset (.folderInfo 0) rootValues) fun _ => setCount next

-- Where a client is that runs getInitialContext and then creates.
inductive Stage where
  | arriving
  | flushing
  | rooting
  | counting
  | flagging
  | working (place : Place)

namespace Stage

def Follows : Stage → Prog A → Prop
  | .arriving, program => ∃ next : FsContext → Prog A, (∀ context, Creating (next context)) ∧
      program = getInitialContext >>= next
  | .flushing, program => ∃ next : Prog A, Creating next ∧
      program = .send .flushall fun _ => makeRoot next
  | .rooting, program => ∃ next : Prog A, Creating next ∧ program = makeRoot next
  | .counting, program => ∃ next : Prog A, Creating next ∧ program = setCount next
  | .flagging, program => ∃ next : Prog A, Creating next ∧ program = setFlag next
  | .working place, program => place.Follows program

inductive Move : Stage → Redis.Command Key Field → Redis.Reply → Stage → Prop
  | absent {reply : Redis.Reply} (empty : ∀ value, reply = .integer value → value = 0) :
      Move .arriving (.existsKey .isVirtualFileSystemCreated) reply .flushing
  | present {value : Int} (built : value ≠ 0) :
      Move .arriving (.existsKey .isVirtualFileSystemCreated) (.integer value) (.working .idle)
  | flushall (reply : Redis.Reply) : Move .flushing .flushall reply .rooting
  | makeRoot (reply : Redis.Reply) :
      Move .rooting (.hmset (.folderInfo 0) rootValues) reply .counting
  | setCount (reply : Redis.Reply) :
      Move .counting (.set .currentIdCount "1".toList) reply .flagging
  | setFlag (reply : Redis.Reply) :
      Move .flagging (.set .isVirtualFileSystemCreated "yes".toList) reply (.working .idle)
  | work {place place' : Place} {command : Redis.Command Key Field} {reply : Redis.Reply}
      (move : place.Move command reply place') : Move (.working place) command reply (.working place')

theorem getInitialContext_bind (next : FsContext → Prog A) :
    getInitialContext >>= next = .send (.existsKey .isVirtualFileSystemCreated) fun reply =>
      match reply with
      | .integer value =>
          if value = 0 then .send .flushall fun _ => RedisVfs.makeRoot (next ⟨['/']⟩)
          else next ⟨['/']⟩
      | _ => .send .flushall fun _ => RedisVfs.makeRoot (next ⟨['/']⟩) := by
  change Program.send _ _ = _
  congr 1
  funext reply
  cases reply with
  | integer value =>
    by_cases empty : value = 0
    · subst empty
      rfl
    · change Program.bind (if value = 0 then _ else pure _) next = if value = 0 then _ else _
      rw [if_neg empty, if_neg empty]
      rfl
  | _ => rfl

theorem progress {stage : Stage} {command : Redis.Command Key Field} {next : Redis.Reply → Prog A}
    (follows : stage.Follows (.send command next)) (reply : Redis.Reply) :
    ∃ stage', Move stage command reply stage' ∧ stage'.Follows (next reply) := by
  cases stage with
  | arriving =>
    obtain ⟨rest, creating, program⟩ := follows
    rw [getInitialContext_bind] at program
    cases program
    cases reply with
    | integer value =>
      by_cases empty : value = 0
      · exact ⟨.flushing, .absent (by simpa using empty), rest ⟨['/']⟩, creating _, by simp only [if_pos empty]⟩
      · refine ⟨.working .idle, .present empty, ?_⟩
        simp only [if_neg empty]
        exact creating _
    | _ => exact ⟨.flushing, .absent (by simp), rest _, creating _, rfl⟩
  | flushing =>
    obtain ⟨rest, creating, program⟩ := follows
    cases program
    exact ⟨.rooting, .flushall reply, rest, creating, rfl⟩
  | rooting =>
    obtain ⟨rest, creating, program⟩ := follows
    cases program
    exact ⟨.counting, .makeRoot reply, rest, creating, rfl⟩
  | counting =>
    obtain ⟨rest, creating, program⟩ := follows
    cases program
    exact ⟨.flagging, .setCount reply, rest, creating, rfl⟩
  | flagging =>
    obtain ⟨rest, creating, program⟩ := follows
    cases program
    exact ⟨.working .idle, .setFlag reply, creating⟩
  | working place =>
    obtain ⟨place', move, follows'⟩ := Place.progress follows reply
    exact ⟨.working place', .work move, follows'⟩

def protocol (A : Type) : Protocol (Redis.Command Key Field) Redis.Reply Fault A Stage :=
  ⟨Follows, Move, progress⟩

end Stage

end RedisVfs

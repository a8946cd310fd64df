import RedisVfs.Source.Sessions

set_option autoImplicit false

namespace RedisVfs

open CString

def Creation.list : Creation → Key
  | .mkdir parentId _ => .folderFolders (unsigned parentId)
  | .createFile parentId .. => .folderFiles (unsigned parentId)

def Creation.info (id : Int) : Creation → Key
  | .mkdir .. => .folderInfo (unsigned id)
  | .createFile .. => .fileInfo (unsigned id)

def Creation.values : Creation → List (Field × Text)
  | .mkdir parentId name =>
      [(.parent, printLu parentId), (.name, quoted name), (.createdData, quoted march7th)]
  | .createFile _ name size googleId webUrl apiUrl =>
      [(.name, quoted name), (.size, quoted (printLu size)), (.createdData, quoted march7th),
        (.id, quoted googleId), (.webUrl, quoted webUrl), (.apiUrl, quoted apiUrl)]

def Creation.write (creation : Creation) (id : Int) : Prog Int := do
  let _ ← redisCommand (.hmset (creation.info id) creation.values)
  return id

def Creation.link (creation : Creation) (id : Int) : Prog Int := do
  let _ ← redisCommand (.lpush creation.list (printLu id))
  creation.write id

theorem Creation.program_eq (creation : Creation) :
    creation.program = getNewId >>= creation.link := by
  cases creation <;> rfl

theorem Creation.creating (creation : Creation) : Creating creation.program := by
  have returning : Creating (creation.program >>= pure) := .create creation fun id => .done id
  rwa [bind_pure] at returning

-- Where a creating client is between its commands.
inductive Place where
  | idle
  | counted (creation : Creation) (id : Int)
  | allocated (creation : Creation) (id : Int)
  | linked (creation : Creation) (id : Int)

namespace Place

variable {A : Type}

def Follows : Place → Prog A → Prop
  | .idle, program => Creating program
  | .counted creation id, program =>
      ∃ next : Int → Prog A, (∀ id, Creating (next id)) ∧
        program = .send (.incr .currentIdCount) fun _ => creation.link id >>= next
  | .allocated creation id, program =>
      ∃ next : Int → Prog A, (∀ id, Creating (next id)) ∧ program = creation.link id >>= next
  | .linked creation id, program =>
      ∃ next : Int → Prog A, (∀ id, Creating (next id)) ∧ program = creation.write id >>= next

inductive Move : Place → Redis.Command Key Field → Redis.Reply → Place → Prop
  | read {command : Redis.Command Key Field} {reply : Redis.Reply} (reads : Reads command) :
      Move .idle command reply .idle
  | get (creation : Creation) {reply : Redis.Reply} {str : Text} (found : reply.str = some str) :
      Move .idle (.get .currentIdCount) reply (.counted creation (strtol str))
  | getAbsent (creation : Creation) {reply : Redis.Reply} (absent : reply.str = none) :
      Move .idle (.get .currentIdCount) reply (.allocated creation (-1))
  | incr (creation : Creation) (id : Int) (reply : Redis.Reply) :
      Move (.counted creation id) (.incr .currentIdCount) reply (.allocated creation id)
  | lpush (creation : Creation) (id : Int) (reply : Redis.Reply) :
      Move (.allocated creation id) (.lpush creation.list (printLu id)) reply (.linked creation id)
  | hmset (creation : Creation) (id : Int) (reply : Redis.Reply) :
      Move (.linked creation id) (.hmset (creation.info id) creation.values) reply .idle

theorem program_bind (creation : Creation) (next : Int → Prog A) :
    creation.program >>= next = .send (.get .currentIdCount) fun reply =>
      match reply.str with
      | none => creation.link (-1) >>= next
      | some str => .send (.incr .currentIdCount) fun _ => creation.link (strtol str) >>= next := by
  rw [creation.program_eq, bind_assoc]
  change Program.send _ _ = _
  congr 1
  funext reply
  cases reply <;> rfl

theorem progress {place : Place} {command : Redis.Command Key Field} {next : Redis.Reply → Prog A}
    (follows : place.Follows (.send command next)) (reply : Redis.Reply) :
    ∃ place', Move place command reply place' ∧ place'.Follows (next reply) := by
  cases place with
  | idle =>
    change Creating (.send command next) at follows
    generalize program : Program.send command next = whole at follows
    cases follows with
    | done => cases program
    | fail => cases program
    | read reads rest =>
      cases program
      exact ⟨.idle, .read reads, rest reply⟩
    | create creation rest =>
      rw [program_bind] at program
      cases program
      cases str : reply.str with
      | none => exact ⟨.allocated creation (-1), .getAbsent creation str, _, rest, by simp only [str]⟩
      | some str' =>
        exact ⟨.counted creation (strtol str'), .get creation str, _, rest, by simp only [str]⟩
  | counted creation id =>
    obtain ⟨rest, creating, program⟩ := follows
    cases program
    exact ⟨.allocated creation id, .incr creation id reply, rest, creating, rfl⟩
  | allocated creation id =>
    obtain ⟨rest, creating, program⟩ := follows
    cases program
    exact ⟨.linked creation id, .lpush creation id reply, rest, creating, rfl⟩
  | linked creation id =>
    obtain ⟨rest, creating, program⟩ := follows
    cases program
    exact ⟨.idle, .hmset creation id reply, creating id⟩

def protocol (A : Type) : Protocol (Redis.Command Key Field) Redis.Reply Fault A Place :=
  ⟨Follows, Move, progress⟩

end Place

def builtStore : Store := (vfsBuildDatabase.run execute .empty).2

def twoCreations (first second : Creation) : Bool → Prog Int
  | false => first.program
  | true => second.program

theorem twoCreations_creating (first second : Creation) (client : Bool) :
    Creating (twoCreations first second client) := by
  cases client with
  | false => exact first.creating
  | true => exact second.creating

end RedisVfs

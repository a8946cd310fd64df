import RedisVfs.Source.Commands
import RedisVfs.Source.Reader

set_option autoImplicit false
set_option linter.style.nameCheck false

namespace Hiredis

open CString ErrorType

-- A context with a blocking socket.
structure RedisContext where
  err : Option (ErrorType × Text)
  obuf : Text
  reader : RedisReader

def redisContextInit : RedisContext := { err := none, obuf := [], reader := redisReaderCreate }

-- `errstr` has as many characters here as in the reader.
def __redisSetError (c : RedisContext) (type : ErrorType) (str : Text) : RedisContext :=
  { c with err := some (type, str.take (ERRSTR_SIZE - 1)) }

def RedisContext.readerError (c : RedisContext) : RedisContext :=
  match c.reader.err with
  | some (type, str) => __redisSetError c type str
  | none => c

-- What the system answers to `write`; it was interrupted where there is no number and no message.
inductive Written where
  | interrupted
  | failed (strerror : Text)
  | wrote (nwritten : Nat)

-- The context, and whether the output buffer is empty.
def redisBufferWrite (c : RedisContext) (answer : Written) : Status × RedisContext × Bool :=
  if c.err.isSome then (.REDIS_ERR, c, false)
  else if c.obuf.length > 0 then
    match answer with
    | .interrupted => (.REDIS_OK, c, false)
    | .failed strerror => (.REDIS_ERR, __redisSetError c REDIS_ERR_IO strerror, false)
    | .wrote nwritten =>
        if nwritten = 0 then (.REDIS_OK, c, false)
        else
          let obuf := if nwritten = c.obuf.length then [] else sdsrange c.obuf nwritten (-1)
          (.REDIS_OK, { c with obuf }, obuf.isEmpty)
  else (.REDIS_OK, c, true)

-- What the system answers to `read`: it ends with no character where the server has closed.
inductive Received where
  | interrupted
  | failed (strerror : Text)
  | bytes (buf : Text)

def redisBufferRead (c : RedisContext) (answer : Received) : Status × RedisContext :=
  if c.err.isSome then (.REDIS_ERR, c)
  else
    match answer with
    | .interrupted => (.REDIS_OK, c)
    | .failed strerror => (.REDIS_ERR, __redisSetError c REDIS_ERR_IO strerror)
    | .bytes [] => (.REDIS_ERR, __redisSetError c .REDIS_ERR_EOF "Server closed the connection".toList)
    | .bytes buf =>
        match redisReaderFeed c.reader buf with
        | (.REDIS_OK, reader) => (.REDIS_OK, { c with reader })
        | (.REDIS_ERR, reader) => (.REDIS_ERR, ({ c with reader } : RedisContext).readerError)

-- none where the reader writes astray.
def redisGetReplyFromReader (c : RedisContext) : Option (Status × Option RedisReply × RedisContext) :=
  (redisReaderGetReply c.reader).map fun answer =>
    match answer with
    | (.REDIS_OK, reply, reader) => (.REDIS_OK, reply, { c with reader })
    | (.REDIS_ERR, _, reader) => (.REDIS_ERR, none, ({ c with reader } : RedisContext).readerError)

def redisvAppendCommand (c : RedisContext) (format : Text) (ap : List Arg) :
    Except FormatFault (Status × RedisContext) :=
  match redisvFormatCommand format ap with
  | .ok (cmd, _) => .ok (.REDIS_OK, { c with obuf := c.obuf ++ cmd })
  | .error .format_err => .ok (.REDIS_ERR, __redisSetError c .REDIS_ERR_OTHER "Invalid format string".toList)
  | .error fault => .error fault

end Hiredis

namespace RedisVfs

open CString Hiredis

inductive Phase where
  | idle
  | writing
  | reading
  | stray
  deriving DecidableEq

-- The caller reads the reply object; the others give it to freeReplyObject, which takes NULL as well.
def looksAt : Redis.Command Key Field → Bool
  | .get _ | .existsKey _ | .lrange _ | .hget _ _ => true
  | _ => false

-- What a caller goes on with when redisCommand has returned NULL.
def unanswered {A : Type} : Prog A → Prog A
  | .send command next => if looksAt command then .fail .nilReply else next .status
  | program => program

-- The reply object as the callers read it; a slot of an array is read like its string.
def observe : RedisReply → Redis.Reply
  | .string str => .string str
  | .array _ element => .array (element.map fun slot =>
      match slot with
      | some (.string str) => str
      | _ => [])
  | .integer value => .integer value
  | .nil => .nil
  | .status _ => .status
  | .error _ => .error

-- A client and its connection: what is on the way to the server, and what is on the way back.
structure Connection (A : Type) where
  program : Prog A
  phase : Phase
  context : RedisContext
  up : Text
  down : Text

namespace Connection

variable {A : Type}

def connect (program : Prog A) : Connection A :=
  { program, phase := .idle, context := redisContextInit, up := [], down := [] }

-- redisCommand returns NULL. The context keeps its error, so that no later command is sent.
def giveUp (connection : Connection A) (context : RedisContext) : Connection A :=
  { connection with context, phase := .idle, program := unanswered connection.program }

-- What comes after redisGetReplyFromReader; `later` is the loop that goes on where there is no reply.
def take (connection : Connection A) (answer : Option (Status × Option RedisReply × RedisContext))
    (later : Phase) : Connection A :=
  match answer with
  | none => { connection with phase := .stray }
  | some (.REDIS_ERR, _, context) => connection.giveUp context
  | some (.REDIS_OK, none, context) => { connection with context, phase := later }
  | some (.REDIS_OK, some reply, context) =>
      match connection.program with
      | .send _ next => { connection with context, phase := .idle, program := next (observe reply) }
      | _ => { connection with context, phase := .idle }

def issue (connection : Connection A) (site : CallSite) : Connection A :=
  match redisvAppendCommand connection.context site.format site.args with
  | .ok (.REDIS_OK, context) =>
      { connection with context }.take (redisGetReplyFromReader context) .writing
  | .ok (.REDIS_ERR, context) => connection.giveUp context
  | .error _ => { connection with phase := .stray }

def write (connection : Connection A) (answer : Written) : Connection A :=
  let up :=
    match answer with
    | .wrote nwritten => connection.up ++ connection.context.obuf.take nwritten
    | _ => connection.up
  match redisBufferWrite connection.context answer with
  | (.REDIS_OK, context, wdone) => { connection with context, up, phase := if wdone then .reading else .writing }
  | (.REDIS_ERR, context, _) => connection.giveUp context

def read (connection : Connection A) (answer : Received) : Connection A :=
  let down :=
    match answer with
    | .bytes buf => connection.down.drop buf.length
    | _ => connection.down
  match redisBufferRead connection.context answer with
  | (.REDIS_OK, context) => { connection with context, down }.take (redisGetReplyFromReader context) .reading
  | (.REDIS_ERR, context) => connection.giveUp context

end Connection

end RedisVfs

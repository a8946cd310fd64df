import RedisVfs.Shared.CString

set_option autoImplicit false
set_option linter.style.nameCheck false

namespace Hiredis

open CString

inductive ReplyType where
  | REDIS_REPLY_STRING
  | REDIS_REPLY_ARRAY
  | REDIS_REPLY_INTEGER
  | REDIS_REPLY_NIL
  | REDIS_REPLY_STATUS
  | REDIS_REPLY_ERROR
  deriving DecidableEq

-- A reply object; `element` is the vector of pointers, none where calloc left NULL.
inductive RedisReply where
  | string (str : Text)
  | array (elements : Nat) (element : List (Option RedisReply))
  | integer (value : Int)
  | nil
  | status (str : Text)
  | error (str : Text)

inductive ErrorType where
  | REDIS_ERR_IO
  | REDIS_ERR_OTHER
  | REDIS_ERR_EOF
  | REDIS_ERR_PROTOCOL
  deriving DecidableEq

-- A task of the stack. Its object is the one at the place that the indices of the stack lead to.
structure ReadTask where
  type : Option ReplyType
  elements : Int
  idx : Int
  deriving DecidableEq

-- The stack is listed from `rstack[ridx]` down to `rstack[0]`; it is empty where `ridx` is -1.
structure RedisReader where
  err : Option (ErrorType × Text)
  buf : Text
  pos : Nat
  rstack : List ReadTask
  reply : Option RedisReply

-- What processing an item comes to. `stray` is a write through a pointer or an index that is not there.
inductive Processed where
  | REDIS_OK (reader : RedisReader)
  | REDIS_ERR (reader : RedisReader)
  | stray

def redisReaderCreate : RedisReader := { err := none, buf := [], pos := 0, rstack := [], reply := none }

def RedisReader.rest (r : RedisReader) : Text := r.buf.drop r.pos

def ERRSTR_SIZE : Nat := 128

def __redisReaderSetError (r : RedisReader) (type : ErrorType) (str : Text) : RedisReader :=
  { r with err := some (type, str.take (ERRSTR_SIZE - 1)), buf := [], pos := 0, rstack := [], reply := none }

def hexDigits (byte : Nat) : Text := (Nat.toDigits 16 byte).leftpad 2 '0'

def isPrint (c : Char) : Bool := ' ' ≤ c && c ≤ '~'

def chrtos (byte : Char) : Text :=
  if byte = '\\' ∨ byte = '"' then ['"', '\\', byte, '"']
  else if byte = '\n' then "\"\\n\"".toList
  else if byte = '\r' then "\"\\r\"".toList
  else if byte = '\t' then "\"\\t\"".toList
  else if byte = Char.ofNat 7 then "\"\\a\"".toList
  else if byte = Char.ofNat 8 then "\"\\b\"".toList
  else if isPrint byte then ['"', byte, '"']
  else "\"\\x".toList ++ hexDigits byte.toNat ++ ['"']

def __redisReaderSetErrorProtocolByte (r : RedisReader) (byte : Char) : RedisReader :=
  __redisReaderSetError r .REDIS_ERR_PROTOCOL
    ("Protocol error, got ".toList ++ chrtos byte ++ " as reply type byte".toList)

-- The character behind the buffer is its NUL, so a last '\r' is not the beginning of a newline.
def seekNewline : Text → Option Nat
  | '\r' :: '\n' :: _ => some 0
  | _ :: s => (seekNewline s).map (· + 1)
  | [] => none

-- `long long` arithmetic, modulo 2^64.
def wrapLong (value : Int) : Int := (value + 2 ^ 63) % 2 ^ 64 - 2 ^ 63

-- A conversion to `int`.
def toInt (value : Int) : Int := (value + 2 ^ 31) % 2 ^ 32 - 2 ^ 31

-- The loop up to the '\r'; none for a character that is no digit, such as the NUL behind the buffer.
def readDigits (v : Int) : Text → Option Int
  | [] => none
  | c :: s =>
      if c = '\r' then some v
      else if c.isDigit then readDigits (wrapLong (v * 10 + (c.toNat - '0'.toNat))) s
      else none

def readLongLong (s : Text) : Int :=
  match s with
  | '-' :: s => ((readDigits 0 s).map fun v => wrapLong (-1 * v)).getD (-1)
  | '+' :: s => (readDigits 0 s).getD (-1)
  | s => (readDigits 0 s).getD (-1)

def createStringObject (type : ReplyType) (str : Text) : RedisReply :=
  match type with
  | .REDIS_REPLY_STATUS => .status str
  | .REDIS_REPLY_ERROR => .error str
  | _ => .string str

-- calloc fills the vector with NULL; there is none unless the number is positive.
def createArrayObject (elements : Int) : RedisReply :=
  .array (unsigned elements) (List.replicate elements.toNat none)

-- `parent->element[task->idx] = r`, where the indices from the root down lead to the parent.
def RedisReply.write (r : RedisReply) : List Int → Option RedisReply → Option RedisReply
  | [], _ => some r
  | idx :: path, some (.array elements element) =>
      match element[idx.toNat]? with
      | none => none
      | some slot =>
          (r.write path slot).map fun inner => .array elements (element.set idx.toNat (some inner))
  | _ :: _, _ => none

def place (rstack : List ReadTask) : List Int := rstack.dropLast.reverse.map ReadTask.idx

def moveToNextTask : List ReadTask → Option (List ReadTask)
  | [] => some []
  | [_] => some []
  | cur :: prv :: below =>
      if prv.type ≠ some .REDIS_REPLY_ARRAY then none
      else if cur.idx = prv.elements - 1 then moveToNextTask (prv :: below)
      else if cur.idx < prv.elements then
        some ({ type := none, elements := -1, idx := cur.idx + 1 } :: prv :: below)
      else none

def RedisReader.emit (r : RedisReader) (obj : RedisReply) : Processed :=
  match obj.write (place r.rstack) r.reply, moveToNextTask r.rstack with
  | some reply, some rstack => .REDIS_OK { r with reply := some reply, rstack }
  | _, _ => .stray

def readLine (r : RedisReader) : Option (Text × RedisReader) :=
  (seekNewline r.rest).map fun len => (r.rest.take len, { r with pos := r.pos + len + 2 })

def processLineItem (r : RedisReader) (type : ReplyType) : Processed :=
  match readLine r with
  | none => .REDIS_ERR r
  | some (line, r') =>
      if type = .REDIS_REPLY_INTEGER then r'.emit (.integer (readLongLong r.rest))
      else r'.emit (createStringObject type line)

def processBulkItem (r : RedisReader) : Processed :=
  match seekNewline r.rest with
  | none => .REDIS_ERR r
  | some s =>
      let len := readLongLong r.rest
      if len < 0 then ({ r with pos := r.pos + (s + 2) } : RedisReader).emit .nil
      else
        let bytelen := s + 2 + (len.toNat + 2)
        if r.pos + bytelen ≤ r.buf.length then
          ({ r with pos := r.pos + bytelen } : RedisReader).emit
            (createStringObject .REDIS_REPLY_STRING ((r.rest.drop (s + 2)).take len.toNat))
        else .REDIS_ERR r

def RSTACK_SIZE : Nat := 9

def processMultiBulkItem (r : RedisReader) (cur : ReadTask) (below : List ReadTask) : Processed :=
  if r.rstack.length = RSTACK_SIZE then
    .REDIS_ERR (__redisReaderSetError r .REDIS_ERR_PROTOCOL
      "No support for nested multi bulk replies with depth > 7".toList)
  else
    match readLine r with
    | none => .REDIS_ERR r
    | some (_, r') =>
        let elements := readLongLong r.rest
        if elements = -1 then r'.emit .nil
        else if elements > 0 then
          match (createArrayObject (toInt elements)).write (place r.rstack) r.reply with
          | none => .stray
          | some reply =>
              .REDIS_OK { r' with
                reply := some reply
                rstack := { type := none, elements := -1, idx := 0 } ::
                  { cur with elements := toInt elements } :: below }
        else r'.emit (createArrayObject (toInt elements))

def replyType (byte : Char) : Option ReplyType :=
  if byte = '-' then some .REDIS_REPLY_ERROR
  else if byte = '+' then some .REDIS_REPLY_STATUS
  else if byte = ':' then some .REDIS_REPLY_INTEGER
  else if byte = '$' then some .REDIS_REPLY_STRING
  else if byte = '*' then some .REDIS_REPLY_ARRAY
  else none

def processTyped (r : RedisReader) : Processed :=
  match r.rstack with
  | [] => .stray
  | cur :: below =>
      match cur.type with
      | some .REDIS_REPLY_ERROR => processLineItem r .REDIS_REPLY_ERROR
      | some .REDIS_REPLY_STATUS => processLineItem r .REDIS_REPLY_STATUS
      | some .REDIS_REPLY_INTEGER => processLineItem r .REDIS_REPLY_INTEGER
      | some .REDIS_REPLY_STRING => processBulkItem r
      | some .REDIS_REPLY_ARRAY => processMultiBulkItem r cur below
      | _ => .stray

-- The type byte is read once; the task keeps it while the rest of the item is awaited.
def processItem (r : RedisReader) : Processed :=
  match r.rstack with
  | [] => .stray
  | cur :: below =>
      if cur.type = none then
        match r.rest with
        | [] => .REDIS_ERR r
        | byte :: _ =>
            match replyType byte with
            | none => .REDIS_ERR (__redisReaderSetErrorProtocolByte { r with pos := r.pos + 1 } byte)
            | some type =>
                processTyped { r with pos := r.pos + 1, rstack := { cur with type := some type } :: below }
      else processTyped r

inductive Status where
  | REDIS_OK
  | REDIS_ERR
  deriving DecidableEq

def sdsrange (s : Text) (start stop : Int) : Text :=
  let len : Int := s.length
  if len = 0 then s
  else
    let start := if start < 0 then max (len + start) 0 else start
    let stop := if stop < 0 then max (len + stop) 0 else stop
    if start > stop ∨ start ≥ len then []
    else (s.drop start.toNat).take (min stop (len - 1) - start + 1).toNat

def redisReaderFeed (r : RedisReader) (buf : Text) : Status × RedisReader :=
  if r.err.isSome then (.REDIS_ERR, r) else (.REDIS_OK, { r with buf := r.buf ++ buf })

-- `while (r->ridx >= 0)`: each item that is processed takes two characters at least.
def processItems : Nat → RedisReader → Option RedisReader
  | 0, r => some r
  | turns + 1, r =>
      if r.rstack.isEmpty then some r
      else
        match processItem r with
        | .REDIS_OK r' => processItems turns r'
        | .REDIS_ERR r' => some r'
        | .stray => none

def rootTask : ReadTask := { type := none, elements := -1, idx := -1 }

def RedisReader.discard (r : RedisReader) : RedisReader :=
  if r.pos ≥ 1024 then { r with buf := sdsrange r.buf r.pos (-1), pos := 0 } else r

-- none where the reader writes astray.
def redisReaderGetReply (r : RedisReader) : Option (Status × Option RedisReply × RedisReader) :=
  if r.err.isSome then some (.REDIS_ERR, none, r)
  else if r.buf.length = 0 then some (.REDIS_OK, none, r)
  else
    let r := if r.rstack.isEmpty then { r with rstack := [rootTask] } else r
    match processItems (r.rest.length + 1) r with
    | none => none
    | some r =>
        if r.err.isSome then some (.REDIS_ERR, none, r)
        else if r.rstack.isEmpty then some (.REDIS_OK, r.reply, { r.discard with reply := none })
        else some (.REDIS_OK, none, r.discard)

end Hiredis

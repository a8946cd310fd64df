import RedisVfs.Shared.CString

set_option autoImplicit false

namespace Hiredis

open CString

-- An argument of a variadic call. A `char *` is its text; that of `%b` comes with its length. A double
-- is what `vsnprintf` prints of it under each conversion.
inductive Arg where
  | string (str : Text)
  | binary (str : Text)
  | int (value : Int)
  | long (value : Int)
  | longLong (value : Int)
  | double (print : Text → Text)

-- A format that is not valid is what the source calls an error. The other three it does not look for.
inductive FormatFault where
  | format_err
  | wrongArgument
  | overread
  | assertion
  deriving DecidableEq

inductive ArgType where
  | int
  | long
  | longLong
  | double
  deriving DecidableEq

def vaArg : ArgType → List Arg → Option (Arg × List Arg)
  | .int, .int value :: ap => some (.int value, ap)
  | .long, .long value :: ap => some (.long value, ap)
  | .longLong, .longLong value :: ap => some (.longLong value, ap)
  | .double, .double print :: ap => some (.double print, ap)
  | _, _ => none

def intfmts : Text := "diouxX".toList
def doublefmts : Text := "eEfFgGaA".toList
def flags : Text := "#0-+ ".toList

def strchr (set p : Text) : Bool := p.head?.all set.contains

def among (set p : Text) : Bool := p.head?.any set.contains

def pastFlags (s : Text) : Text := s.dropWhile flags.contains
def pastWidth (s : Text) : Text := (pastFlags s).dropWhile Char.isDigit

def pastPrecision (s : Text) : Text :=
  match pastWidth s with
  | '.' :: p => p.dropWhile Char.isDigit
  | p => p

-- The text from the conversion character on, and the argument that it takes.
def conversion (s : Text) : Option (Text × ArgType) :=
  let p := pastPrecision s
  let sized (p : Text) (type : ArgType) := if among intfmts p then some (p, type) else none
  if strchr intfmts p then some (p, .int)
  else if strchr doublefmts p then some (p, .double)
  else
    match p with
    | 'h' :: 'h' :: p => sized p .int
    | 'h' :: p => sized p .int
    | 'l' :: 'l' :: p => sized p .longLong
    | 'l' :: p => sized p .long
    | _ => none

def number (digits : Text) : Nat := Nat.ofDigitChars 10 digits 0

def isSigned (conv : Char) : Bool := conv = 'd' || conv = 'i'

-- The value as an integer of so many bits.
def narrow (conv : Char) (bits : Nat) (value : Int) : Int :=
  if isSigned conv then (value + 2 ^ (bits - 1)) % 2 ^ bits - 2 ^ (bits - 1) else value % 2 ^ bits

def radix (conv : Char) : Nat := if conv = 'o' then 8 else if conv = 'x' ∨ conv = 'X' then 16 else 10

def integerDigits (alternate : Bool) (precision : Option Nat) (conv : Char) (value : Nat) : Text :=
  let digits := if precision = some 0 ∧ value = 0 then [] else Nat.toDigits (radix conv) value
  let digits := (if conv = 'X' then digits.map Char.toUpper else digits).leftpad (precision.getD 1) '0'
  if alternate ∧ conv = 'o' ∧ digits.head? ≠ some '0' then '0' :: digits else digits

def integerLead (present : Text) (conv : Char) (value : Int) : Text :=
  if isSigned conv then
    if value < 0 then ['-'] else if '+' ∈ present then ['+'] else if ' ' ∈ present then [' '] else []
  else if '#' ∈ present ∧ value ≠ 0 ∧ radix conv = 16 then ['0', conv] else []

def printInteger (present : Text) (width : Nat) (precision : Option Nat) (conv : Char) (bits : Nat)
    (value : Int) : Text :=
  let value := narrow conv bits value
  let lead := integerLead present conv value
  let digits := integerDigits (present.contains '#') precision conv value.natAbs
  if '-' ∈ present then (lead ++ digits).rightpad width ' '
  else if '0' ∈ present ∧ precision = none then lead ++ digits.leftpad (width - lead.length) '0'
  else (lead ++ digits).leftpad width ' '

def modifiedBits : Text → Nat
  | 'h' :: 'h' :: _ => 8
  | 'h' :: _ => 16
  | 'l' :: _ => 64
  | _ => 32

-- `vsnprintf` on a format that is one conversion, behind its '%'.
def vsnprintf (s : Text) (arg : Arg) : Text :=
  let present := s.takeWhile flags.contains
  let width := number ((pastFlags s).takeWhile Char.isDigit)
  let precision :=
    match pastWidth s with
    | '.' :: p => some (number (p.takeWhile Char.isDigit))
    | _ => none
  let conv := s.getLastD ' '
  match arg with
  | .int value | .long value | .longLong value =>
      printInteger present width precision conv (modifiedBits (pastPrecision s)) value
  | .double print => print s
  | .string str | .binary str => str

def countDigits (v : Nat) : Nat :=
  if v < 10 then 1
  else if v < 100 then 2
  else if v < 1000 then 3
  else if v < 10000 then 4
  else countDigits (v / 10000) + 4
termination_by v

def bulklen (len : Nat) : Nat := 1 + countDigits len + 2 + len + 2

structure Formatting where
  curarg : Text
  touched : Bool
  curargv : List Text
  totlen : Nat
  ap : List Arg

def Formatting.start (ap : List Arg) : Formatting :=
  { curarg := [], touched := false, curargv := [], totlen := 0, ap }

def Formatting.put (f : Formatting) (text : Text) (ap : List Arg) : Formatting :=
  { f with curarg := f.curarg ++ text, touched := true, ap }

-- An argument that was touched is put in argv.
def Formatting.close (f : Formatting) : Formatting :=
  if f.touched then
    { curarg := [], touched := false, curargv := f.curargv ++ [f.curarg]
      totlen := f.totlen + bulklen f.curarg.length, ap := f.ap }
  else f

def formatSize : Nat := 16

-- A conversion whose '%' is followed by `c` and `s`; the number of characters behind the '%' to go.
def convert (f : Formatting) (c : Char) (s : Text) : Except FormatFault (Formatting × Nat) :=
  match c, f.ap with
  | 's', .string str :: ap => .ok (f.put str ap, 1)
  | 's', _ => .error .wrongArgument
  | 'b', .binary str :: ap => .ok (f.put str ap, 1)
  | 'b', _ => .error .wrongArgument
  | '%', ap => .ok (f.put ['%'] ap, 1)
  | c, ap =>
      match conversion (c :: s) with
      | none => .error .format_err
      | some (p, type) =>
          match vaArg type ap with
          | none => .error .wrongArgument
          | some (arg, ap) =>
              let taken := (c :: s).length - p.length + 1
              if taken + 1 < formatSize - 2 then
                -- Where the format ends first, `c` comes to stand behind its NUL.
                if p.isEmpty then .error .overread
                else .ok (f.put (vsnprintf ((c :: s).take taken) arg) ap, taken)
              else .ok (f.put [] ap, 1)

def formatLoop : Text → Nat → Formatting → Except FormatFault Formatting
  | [], _, f => .ok f
  | _ :: s, skip + 1, f => formatLoop s skip f
  | c :: s, 0, f =>
      if c = '%' ∧ s ≠ [] then do
        let (f, skip) ← convert f (s.headD ' ') s.tail
        formatLoop s skip f
      else if c = ' ' then formatLoop s 0 f.close
      else formatLoop s 0 (f.put [c] f.ap)

-- `sprintf(cmd+pos, "$%zu\r\n", ...)` and `memcpy`, argument by argument.
def writeArgs (cmd : Text) (argv : List Text) : Text :=
  argv.foldl (fun cmd arg => cmd ++ ('$' :: decimal arg.length ++ "\r\n".toList) ++ arg ++ ['\r'] ++ ['\n']) cmd

-- The command at protocol level, if it has the length that it was allocated with.
def writeCommand (argv : List Text) (totlen : Nat) : Except FormatFault (Text × Nat) :=
  let cmd := writeArgs ('*' :: decimal argv.length ++ "\r\n".toList) argv
  if cmd.length = totlen then .ok (cmd, totlen) else .error .assertion

def redisvFormatCommand (format : Text) (ap : List Arg) : Except FormatFault (Text × Nat) := do
  let f ← formatLoop format 0 (.start ap)
  let f := f.close
  writeCommand f.curargv (f.totlen + (1 + countDigits f.curargv.length + 2))

def argvLength (argv : List Text) : Nat :=
  argv.foldl (fun totlen arg => totlen + bulklen arg.length) (1 + countDigits argv.length + 2)

def redisFormatCommandArgv (argv : List Text) : Except FormatFault (Text × Nat) :=
  writeCommand argv (argvLength argv)

-- The digits come out last first.
def reversedDigits (v : Nat) : Text :=
  Nat.digitChar (v % 10) :: if v < 10 then [] else reversedDigits (v / 10)
termination_by v

def sdsull2str (v : Nat) : Text := (reversedDigits v).reverse

def sdsll2str (value : Int) : Text :=
  (reversedDigits value.natAbs ++ if value < 0 then ['-'] else []).reverse

inductive CatArg where
  | string (str : Text)
  | signed (value : Int)
  | unsigned (value : Nat)

def sdscatfmt (s : Text) : Text → List CatArg → Except FormatFault Text
  | [], _ => .ok s
  | '%' :: [], _ => .error .overread
  | '%' :: next :: f, ap =>
      if next = 's' ∨ next = 'S' then
        match ap with
        | .string str :: ap => sdscatfmt (s ++ str) f ap
        | _ => .error .wrongArgument
      else if next = 'i' ∨ next = 'I' then
        match ap with
        | .signed value :: ap => sdscatfmt (s ++ sdsll2str value) f ap
        | _ => .error .wrongArgument
      else if next = 'u' ∨ next = 'U' ∨ next = 'T' then
        match ap with
        | .unsigned value :: ap => sdscatfmt (s ++ sdsull2str value) f ap
        | _ => .error .wrongArgument
      else sdscatfmt (s ++ [next]) f ap
  | c :: f, ap => sdscatfmt (s ++ [c]) f ap

def catArgs (cmd : Text) : List Text → Except FormatFault Text
  | [] => .ok cmd
  | arg :: argv => do
      let cmd ← sdscatfmt cmd "$%T\r\n".toList [.unsigned arg.length]
      catArgs (cmd ++ arg ++ "\r\n".toList) argv

def redisFormatSdsCommandArgv (argv : List Text) : Except FormatFault (Text × Nat) := do
  let cmd ← sdscatfmt [] "*%i\r\n".toList [.signed argv.length]
  let cmd ← catArgs cmd argv
  if cmd.length = argvLength argv then .ok (cmd, argvLength argv) else .error .assertion

end Hiredis

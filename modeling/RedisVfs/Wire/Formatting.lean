import RedisVfs.Shared.Resp
import RedisVfs.Source.Format

set_option autoImplicit false

namespace Hiredis

open CString Resp

theorem length_decimal {v : Nat} (many : 10 ≤ v) : (decimal v).length = (decimal (v / 10)).length + 1 := by
  rw [decimal, Nat.toDigits_of_base_le (by decide) many]
  simp [decimal]

theorem length_decimal_digit {v : Nat} (one : v < 10) : (decimal v).length = 1 := by
  rw [decimal, Nat.toDigits_of_lt_base one, List.length_singleton]

theorem countDigits_eq (v : Nat) : countDigits v = (decimal v).length := by
  fun_induction countDigits v with
  | case1 v one => rw [length_decimal_digit one]
  | case2 v more two =>
    rw [length_decimal (by omega), length_decimal_digit (by omega)]
  | case3 v more more' three =>
    rw [length_decimal (by omega), length_decimal (by omega), length_decimal_digit (by omega)]
  | case4 v more more' more'' four =>
    rw [length_decimal (by omega), length_decimal (by omega), length_decimal (by omega),
      length_decimal_digit (by omega)]
  | case5 v more more' more'' more''' ih =>
    have parts : v / 10 / 10 / 10 / 10 = v / 10000 := by omega
    rw [length_decimal (by omega), length_decimal (by omega), length_decimal (by omega),
      length_decimal (by omega), parts, ih]

theorem bulklen_eq (arg : Text) : bulklen arg.length = (Value.bulk arg).wire.length := by
  simp only [bulklen, countDigits_eq, Value.wire, header, printLd_natCast, crlf, List.length_append,
    List.length_cons, List.length_nil]
  omega

theorem writeArgs_eq (argv : List Text) : ∀ cmd, writeArgs cmd argv = cmd ++ Value.wires (argv.map .bulk) := by
  induction argv with
  | nil => exact fun cmd => (List.append_nil cmd).symm
  | cons arg argv ih =>
    intro cmd
    have step : writeArgs cmd (arg :: argv) = writeArgs (cmd ++ (Value.bulk arg).wire) argv := by
      simp [writeArgs, Value.wire, header, crlf, printLd_natCast]
    rw [step, ih, List.map_cons, Value.wires, List.append_assoc]

theorem request_wire (argv : List Text) :
    (request argv).wire = '*' :: decimal argv.length ++ crlf ++ Value.wires (argv.map .bulk) := by
  simp [request, Value.wire, header, printLd_natCast]

theorem writeCommand_eq (argv : List Text) (totlen : Nat) :
    writeCommand argv totlen =
      if (request argv).wire.length = totlen then .ok ((request argv).wire, totlen) else .error .assertion := by
  have cmd : writeArgs ('*' :: decimal argv.length ++ "\r\n".toList) argv = (request argv).wire := by
    rw [writeArgs_eq, request_wire]
    rfl
  rw [writeCommand, cmd]

theorem request_length (argv : List Text) :
    (request argv).wire.length =
      (Value.wires (argv.map .bulk)).length + (1 + countDigits argv.length + 2) := by
  rw [request_wire, countDigits_eq]
  simp only [crlf, List.length_append, List.length_cons, List.length_nil]
  omega

theorem argvLength_eq (argv : List Text) : argvLength argv = (request argv).wire.length := by
  have fold (argv : List Text) : ∀ total,
      argv.foldl (fun totlen arg => totlen + bulklen arg.length) total =
        total + (Value.wires (argv.map .bulk)).length := by
    induction argv with
    | nil => exact fun total => rfl
    | cons arg argv ih =>
      intro total
      rw [List.foldl_cons, ih, List.map_cons, Value.wires, List.length_append, bulklen_eq, Nat.add_assoc]
  rw [argvLength, fold, request_length, Nat.add_comm]

theorem formatCommandArgv_eq (argv : List Text) :
    redisFormatCommandArgv argv = .ok ((request argv).wire, (request argv).wire.length) := by
  rw [redisFormatCommandArgv, writeCommand_eq, argvLength_eq, if_pos rfl]

theorem reversedDigits_eq (v : Nat) : (reversedDigits v).reverse = decimal v := by
  fun_induction reversedDigits v with
  | case1 v ih =>
    by_cases one : v < 10
    · rw [if_pos one, Nat.mod_eq_of_lt one, decimal, Nat.toDigits_of_lt_base one]
      rfl
    · have more : 10 ≤ v := by omega
      rw [if_neg one, List.reverse_cons, ih one, decimal, decimal, Nat.toDigits_of_base_le (by decide) more]

theorem sdsll2str_eq (value : Int) : sdsll2str value = printLd value := by
  unfold sdsll2str printLd
  rw [List.reverse_append, reversedDigits_eq]
  by_cases negative : value < 0
  · have same : value.natAbs = (-value).toNat := by omega
    rw [if_pos negative, if_pos negative, same]
    rfl
  · have same : value.natAbs = value.toNat := by omega
    rw [if_neg negative, if_neg negative, same]
    rfl

theorem catArgs_eq (argv : List Text) :
    ∀ cmd, catArgs cmd argv = .ok (cmd ++ Value.wires (argv.map .bulk)) := by
  induction argv with
  | nil => exact fun cmd => by rw [catArgs, List.map_nil, Value.wires, List.append_nil]
  | cons arg argv ih =>
    intro cmd
    have head : sdscatfmt cmd "$%T\r\n".toList [.unsigned arg.length] =
        .ok (cmd ++ ['$'] ++ sdsull2str arg.length ++ ['\r'] ++ ['\n']) := rfl
    have step : catArgs cmd (arg :: argv) = catArgs (cmd ++ (Value.bulk arg).wire) argv := by
      rw [catArgs, head, sdsull2str, reversedDigits_eq]
      simp [Value.wire, header, crlf, printLd_natCast, bind, Except.bind]
    rw [step, ih, List.map_cons, Value.wires, List.append_assoc]

theorem formatSdsCommandArgv_eq (argv : List Text) :
    redisFormatSdsCommandArgv argv = .ok ((request argv).wire, (request argv).wire.length) := by
  have head : sdscatfmt [] "*%i\r\n".toList [.signed argv.length] =
      .ok (['*'] ++ sdsll2str argv.length ++ ['\r'] ++ ['\n']) := rfl
  have whole : ['*'] ++ sdsll2str argv.length ++ ['\r'] ++ ['\n'] ++ Value.wires (argv.map .bulk) =
      (request argv).wire := by
    rw [sdsll2str_eq, printLd_natCast, request_wire]
    simp [crlf]
  simp only [redisFormatSdsCommandArgv, head, bind, Except.bind, catArgs_eq, whole, argvLength_eq, if_true]

def Formatting.Measured (f : Formatting) : Prop :=
  f.totlen = (Value.wires (f.curargv.map .bulk)).length

theorem wires_append (items others : List Value) :
    Value.wires (items ++ others) = Value.wires items ++ Value.wires others := by
  induction items with
  | nil => rfl
  | cons item items ih => rw [List.cons_append, Value.wires, ih, Value.wires, List.append_assoc]

theorem Formatting.Measured.close {f : Formatting} (measured : f.Measured) : f.close.Measured := by
  unfold Formatting.close
  split
  next =>
    have counted : f.totlen = (Value.wires (f.curargv.map .bulk)).length := measured
    simp only [Formatting.Measured, List.map_append, List.map_cons, List.map_nil, wires_append, Value.wires,
      List.append_nil, List.length_append, bulklen_eq, counted]
  next => exact measured

def Formatting.Puts (f : Formatting) : Except FormatFault (Formatting × Nat) → Prop
  | .ok (f', _) => ∃ text ap, f' = f.put text ap
  | .error fault => fault ≠ .assertion

theorem convert_puts (f : Formatting) (c : Char) (s : Text) : f.Puts (convert f c s) := by
  unfold convert
  split
  · exact ⟨_, _, rfl⟩
  · nofun
  · exact ⟨_, _, rfl⟩
  · nofun
  · exact ⟨_, _, rfl⟩
  · split
    · nofun
    · split
      · nofun
      · dsimp only
        split_ifs
        · nofun
        · exact ⟨_, _, rfl⟩
        · exact ⟨_, _, rfl⟩

def Measures : Except FormatFault Formatting → Prop
  | .ok f => f.Measured
  | .error fault => fault ≠ .assertion

theorem loop_measures (s : Text) :
    ∀ (skip : Nat) {f : Formatting}, f.Measured → Measures (formatLoop s skip f) := by
  induction s with
  | nil => exact fun skip f => id
  | cons c s ih =>
    intro skip f measured
    cases skip with
    | succ skip => exact ih skip measured
    | zero =>
      unfold formatLoop
      split
      next =>
        have puts := convert_puts f (s.headD ' ') s.tail
        cases converted : convert f (s.headD ' ') s.tail with
        | error fault =>
          rw [converted] at puts
          exact puts
        | ok converted' =>
          rw [converted] at puts
          obtain ⟨text, ap, put⟩ := puts
          have measured' : converted'.1.Measured := by
            rw [put]
            exact measured
          exact ih _ measured'
      next =>
        split
        · exact ih _ measured.close
        · exact ih _ (show (f.put [c] f.ap).Measured from measured)

end Hiredis

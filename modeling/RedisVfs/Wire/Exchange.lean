import Mathlib.Logic.Relation
import RedisVfs.Source.Connection
import RedisVfs.Source.Sessions
import RedisVfs.Wire.Pieces
import RedisVfs.Wire.Requests

set_option autoImplicit false

namespace Hiredis

open CString

structure RedisReader.AtRest (r : RedisReader) : Prop where
  holds : r.Holds
  idle : r.mood = .idle
  empty : r.rest = []

theorem atRest_create : redisReaderCreate.AtRest := ⟨holds_create, rfl, rfl⟩

theorem run_nil (mood : Mood) : eater.run mood [] = ([], mood, []) := Eater.run_none (bite_nil mood)

structure RedisReader.Quiet (r : RedisReader) : Prop where
  holds : r.Holds
  waits : ∃ rstack root, r.mood = .waiting rstack root
  hungry : bite r.mood r.rest = none

theorem RedisReader.AtRest.run {r : RedisReader} (rest : r.AtRest) :
    eater.run r.mood r.rest = ([], .idle, []) := by
  rw [rest.idle, rest.empty, run_nil]

theorem RedisReader.AtRest.quiet {r : RedisReader} (rest : r.AtRest) : r.Quiet :=
  ⟨rest.holds, ⟨_, _, rest.idle⟩, by rw [rest.empty]; exact bite_nil _⟩

section GetReply

variable {r : RedisReader} (holds : r.Holds)

include holds

theorem getReply_part {rstack : List ReadTask} {root : Option RedisReply} {rest : Text}
    (part : eater.run r.mood r.rest = ([], .waiting rstack root, rest)) :
    ∃ r', redisReaderGetReply r = some (.REDIS_OK, none, r') ∧ r'.Holds ∧
      r'.mood = .waiting rstack root ∧ r'.rest = rest := by
  have answers := answers_getReply holds
  cases got : redisReaderGetReply r with
  | none =>
    rw [got] at answers
    have leads : eater.Leads r.mood r.rest [] .stray [] := answers
    rw [Eater.Leads, part, run_stray] at leads
    cases leads
  | some got' =>
    obtain ⟨status, told, r'⟩ := got'
    rw [got] at answers
    obtain ⟨leads, holds', hungry, failed⟩ := answers
    rw [Eater.Leads, part] at leads
    obtain ⟨silent, after⟩ := Prod.mk.inj leads
    obtain rfl : told = none := by
      cases told with
      | none => rfl
      | some reply => cases silent
    rw [Eater.run_none (hungry rfl)] at after
    obtain ⟨mood, rest'⟩ := Prod.mk.inj after
    have fine : r'.err = none := by rw [← mood_err, ← mood]; rfl
    have status' : status = .REDIS_OK := by
      cases status with
      | REDIS_OK => rfl
      | REDIS_ERR => simpa [fine] using failed.mp rfl
    exact ⟨r', by rw [status'], holds', mood.symm, rest'.symm⟩

theorem getReply_whole {reply : RedisReply} (whole : eater.run r.mood r.rest = ([reply], .idle, [])) :
    ∃ r', redisReaderGetReply r = some (.REDIS_OK, some reply, r') ∧ r'.AtRest := by
  have answers := answers_getReply holds
  cases got : redisReaderGetReply r with
  | none =>
    rw [got] at answers
    have leads : eater.Leads r.mood r.rest [] .stray [] := answers
    rw [Eater.Leads, whole, run_stray] at leads
    cases leads
  | some got' =>
    obtain ⟨status, told, r'⟩ := got'
    rw [got] at answers
    obtain ⟨leads, holds', hungry, failed⟩ := answers
    rw [Eater.Leads, whole] at leads
    obtain ⟨loud, after⟩ := Prod.mk.inj leads
    cases told with
    | none =>
      rw [Eater.run_none (hungry rfl)] at loud
      cases loud
    | some told =>
      obtain ⟨rfl, quiet⟩ := List.cons.inj loud
      have mood : (eater.run r'.mood r'.rest).2.1 = .idle := by rw [← after]
      have empty : (eater.run r'.mood r'.rest).2.2 = [] := by rw [← after]
      rcases run_quiet quiet.symm with ⟨same, all⟩ | busy
      · have idle : r'.mood = .idle := same.symm.trans mood
        have fine : r'.err = none := by rw [← mood_err, idle]; rfl
        have status' : status = .REDIS_OK := by
          cases status with
          | REDIS_OK => rfl
          | REDIS_ERR => simpa [fine] using failed.mp rfl
        exact ⟨r', by rw [status'], holds', idle, all.symm.trans empty⟩
      · exact absurd (mood ▸ busy) idle_not_busy

end GetReply

theorem getReply_atRest {r : RedisReader} (rest : r.AtRest) :
    ∃ r', redisReaderGetReply r = some (.REDIS_OK, none, r') ∧ r'.AtRest := by
  obtain ⟨r', got, holds, idle, empty⟩ := getReply_part rest.holds rest.run
  exact ⟨r', got, holds, idle, empty⟩

theorem getReply_quiet {r : RedisReader} (quiet : r.Quiet) :
    ∃ r', redisReaderGetReply r = some (.REDIS_OK, none, r') ∧ r'.Quiet := by
  obtain ⟨rstack, root, waits⟩ := quiet.waits
  have stays : eater.run r.mood r.rest = ([], .waiting rstack root, r.rest) := by
    rw [Eater.run_none quiet.hungry, waits]
  obtain ⟨r', got, holds, mood, rest⟩ := getReply_part quiet.holds stays
  refine ⟨r', got, holds, ⟨rstack, root, mood⟩, ?_⟩
  rw [mood, rest, ← waits]
  exact quiet.hungry

end Hiredis

namespace RedisVfs

open CString Hiredis ErrorType

def answer : Redis.Reply → Resp.Value
  | .nil => .nil
  | .status => .simple "OK".toList
  | .error => .error "ERR".toList
  | .integer value => .integer value
  | .string value => .bulk value
  | .array elements => .array (elements.map .bulk)

theorem observe_reply (r : Redis.Reply) : observe (reply (answer r)) = r := by
  cases r with
  | array elements => simp [answer, reply, replies_eq_map, observe, Function.comp_def]
  | _ => rfl

theorem answer_wire_ne_nil (r : Redis.Reply) : (answer r).wire ≠ [] := by
  cases r <;> simp [answer, Resp.Value.wire, Resp.header]

def onWire (command : Redis.Command Key Field) : Text := (Resp.request (argv command)).wire

theorem onWire_ne_nil (command : Redis.Command Key Field) : onWire command ≠ [] := by
  rw [onWire, request_wire]
  nofun

theorem onWire_cut {command command' : Redis.Command Key Field} {more more' : Text}
    (same : onWire command ++ more = onWire command' ++ more') : command = command' ∧ more = more' := by
  obtain ⟨words, rest⟩ := Resp.request_cut same
  exact ⟨argv_injective words, rest⟩

theorem appendCommand_site {site : CallSite} (inRange : site.InRange) (c : RedisContext) :
    redisvAppendCommand c site.format site.args =
      .ok (.REDIS_OK, { c with obuf := c.obuf ++ onWire site.command }) := by
  have sent := format_layout site.layout []
  rw [List.append_nil, site.layout_spell, site.layout_args, site.layout_argv inRange] at sent
  simp only [redisvAppendCommand, sent]
  rfl

def Sited (command : Redis.Command Key Field) : Prop :=
  ∃ site : CallSite, site.InRange ∧ site.command = command

variable {A : Type}

structure Answering (context : RedisContext) (r : Redis.Reply) (read down : Text) : Prop where
  fine : context.err = none
  sent : context.obuf = []
  fits : Fits 8 (answer r)
  text : (answer r).wire = read ++ down
  more : down ≠ []
  holds : context.reader.Holds
  part : eater.run .idle read = ([], context.reader.mood, context.reader.rest)

-- The client's last commands have come to nothing, and all of them but the first have not been sent.
-- The server may still run the first one, and has done so or has not.
inductive Behind : Prog A → Text → Prog A → Prop
  | unserved {command : Redis.Command Key Field} {next : Redis.Reply → Prog A} {up : Text} (n : Nat)
      (part : up <+: onWire command) :
      Behind (.send command next) up (unanswered^[n + 1] (.send command next))
  | served {command : Redis.Command Key Field} {next : Redis.Reply → Prog A} (n : Nat) (r : Redis.Reply) :
      Behind (next r) [] (unanswered^[n + 1] (.send command next))

theorem Behind.further {left program : Prog A} {up : Text} (behind : Behind left up program) :
    Behind left up (unanswered program) := by
  cases behind with
  | unserved n part =>
    rw [← Function.iterate_succ_apply' unanswered]
    exact .unserved (n + 1) part
  | served n r =>
    rw [← Function.iterate_succ_apply' unanswered]
    exact .served (n + 1) r

-- How a connection stands to the client's place in a pool, where commands are run at once: `program` is
-- what that client has left.
inductive Paired : Prog A → Connection A → Prop
  | idle (program : Prog A) {context : RedisContext} (fine : context.err = none) (none_ : context.obuf = [])
      (rest : context.reader.AtRest) : Paired program ⟨program, .idle, context, [], []⟩
  | sending {command : Redis.Command Key Field} {next : Redis.Reply → Prog A} {context : RedisContext}
      {up : Text} {phase : Phase} (sited : Sited command) (fine : context.err = none)
      (text : up ++ context.obuf = onWire command)
      (phase_ : phase = if context.obuf = [] then .reading else .writing) (rest : context.reader.AtRest) :
      Paired (.send command next) ⟨.send command next, phase, context, up, []⟩
  | answered {command : Redis.Command Key Field} {next : Redis.Reply → Prog A} {context : RedisContext}
      {r : Redis.Reply} {read down : Text} (answering : Answering context r read down) :
      Paired (next r) ⟨.send command next, .reading, context, [], down⟩
  | lost {program : Prog A} {connection : Connection A} (failed : connection.context.err.isSome)
      (phase_ : connection.phase = .idle ∨ connection.phase = .writing)
      (quiet : connection.context.reader.Quiet)
      (behind : Behind program connection.up connection.program) : Paired program connection

theorem paired_connect (program : Prog A) : Paired program (.connect program) :=
  .idle program rfl rfl atRest_create

theorem getReplyFromReader_ok {c : RedisContext} {told : Option RedisReply} {reader : RedisReader}
    (got : redisReaderGetReply c.reader = some (.REDIS_OK, told, reader)) :
    redisGetReplyFromReader c = some (.REDIS_OK, told, { c with reader }) := by
  rw [redisGetReplyFromReader, got]
  rfl

theorem read_some {connection : Connection A} {buf : Text} (fine : connection.context.err = none)
    (known : connection.context.reader.err = none) (some_ : buf ≠ []) :
    connection.read (.bytes buf) =
      { connection with
        context := { connection.context with reader := (redisReaderFeed connection.context.reader buf).2 }
        down := connection.down.drop buf.length }.take
          (redisGetReplyFromReader
            { connection.context with reader := (redisReaderFeed connection.context.reader buf).2 })
          .reading := by
  cases buf with
  | nil => exact absurd rfl some_
  | cons c buf =>
    have fed : redisReaderFeed connection.context.reader (c :: buf) =
        (.REDIS_OK, (redisReaderFeed connection.context.reader (c :: buf)).2) := by
      simp [redisReaderFeed, known]
    simp only [Connection.read, redisBufferRead, fine, Option.isSome_none, Bool.false_eq_true, if_false]
    rw [fed]

namespace Answering

variable {context : RedisContext} {r : Redis.Reply} {read down : Text}

theorem waits (answering : Answering context r read down) :
    ∃ rstack root, context.reader.mood = .waiting rstack root := by
  obtain ⟨-, rstack, root, waits⟩ := run_part answering.fits answering.text answering.more
  rw [answering.part] at waits
  exact ⟨rstack, root, waits⟩

theorem quiet (answering : Answering context r read down) : context.reader.Quiet := by
  have hungry := @Eater.run_hungry _ _ _ eater .idle read
  rw [answering.part] at hungry
  exact ⟨answering.holds, answering.waits, hungry⟩

theorem interrupted (answering : Answering context r read down) (program : Prog A) :
    ∃ reader, (Connection.mk program .reading context [] down).read .interrupted =
        ⟨program, .reading, { context with reader }, [], down⟩ ∧
      Answering { context with reader } r read down := by
  obtain ⟨rstack, root, mood⟩ := answering.waits
  have hungry := @Eater.run_hungry _ _ _ eater .idle read
  rw [answering.part] at hungry
  have stays : eater.run context.reader.mood context.reader.rest =
      ([], .waiting rstack root, context.reader.rest) := by
    rw [Eater.run_none hungry, mood]
  obtain ⟨reader, got, holds', mood', rest'⟩ := getReply_part answering.holds stays
  refine ⟨reader, ?_, answering.fine, answering.sent, answering.fits, answering.text, answering.more, holds', ?_⟩
  · simp [Connection.read, redisBufferRead, answering.fine, getReplyFromReader_ok got, Connection.take]
  · rw [answering.part, mood, mood', rest']

theorem bytes {buf down : Text} (answering : Answering context r read (buf ++ down))
    (command : Redis.Command Key Field) (next : Redis.Reply → Prog A) (some_ : buf ≠ []) :
    (down = [] ∧ ∃ reader, (Connection.mk (.send command next) .reading context [] (buf ++ down)).read
        (.bytes buf) = ⟨next r, .idle, { context with reader }, [], []⟩ ∧ reader.AtRest) ∨
      ∃ reader, (Connection.mk (.send command next) .reading context [] (buf ++ down)).read (.bytes buf) =
          ⟨.send command next, .reading, { context with reader }, [], down⟩ ∧
        Answering { context with reader } r (read ++ buf) down := by
  obtain ⟨rstack, root, mood⟩ := answering.waits
  have known : context.reader.err = none := by rw [← mood_err, mood]; rfl
  have holds' := holds_feed answering.holds buf
  have run : eater.run (redisReaderFeed context.reader buf).2.mood (redisReaderFeed context.reader buf).2.rest =
      eater.run .idle (read ++ buf) := by
    have cut := @Eater.run_append _ _ _ eater .idle read buf
    rw [answering.part] at cut
    rw [run_feed answering.holds, cut]
    rfl
  have text' : (answer r).wire = read ++ buf ++ down := by rw [answering.text, List.append_assoc]
  by_cases last : down = []
  · subst last
    rw [List.append_nil] at text'
    rw [← text', run_whole answering.fits] at run
    obtain ⟨reader, got, rest⟩ := getReply_whole holds' run
    refine .inl ⟨rfl, reader, ?_, rest⟩
    rw [read_some answering.fine known some_, getReplyFromReader_ok got]
    simp only [Connection.take, observe_reply, List.append_nil, List.drop_length]
  · obtain ⟨silent, rstack', root', waits'⟩ := run_part answering.fits text' last
    have part' : eater.run .idle (read ++ buf) =
        ([], .waiting rstack' root', (eater.run .idle (read ++ buf)).2.2) :=
      Prod.ext silent (Prod.ext waits' rfl)
    obtain ⟨reader, got, holds'', mood', rest'⟩ := getReply_part holds' (run.trans part')
    refine .inr ⟨reader, ?_, answering.fine, answering.sent, answering.fits, text', last, holds'', ?_⟩
    · rw [read_some answering.fine known some_, getReplyFromReader_ok got]
      simp only [Connection.take, List.drop_left]
    · rw [part', mood', rest']

end Answering

theorem paired_giveUp {command : Redis.Command Key Field} {next : Redis.Reply → Prog A} {phase : Phase}
    {context context' : RedisContext} {up down : Text} (failed : context'.err.isSome)
    (quiet : context'.reader.Quiet) (part : up <+: onWire command) :
    Paired (.send command next)
      ((Connection.mk (.send command next) phase context up down).giveUp context') :=
  .lost failed (.inl rfl) quiet (.unserved 0 part)

theorem paired_giveUp_answered {command : Redis.Command Key Field} {next : Redis.Reply → Prog A}
    {phase : Phase} {context context' : RedisContext} {down : Text} (r : Redis.Reply)
    (failed : context'.err.isSome) (quiet : context'.reader.Quiet) :
    Paired (next r) ((Connection.mk (.send command next) phase context [] down).giveUp context') :=
  .lost failed (.inl rfl) quiet (.served 0 r)

section Steps

variable {program : Prog A} {connection : Connection A} (paired : Paired program connection)

include paired

theorem paired_issue {site : CallSite} {next : Redis.Reply → Prog A} (idle : connection.phase = .idle)
    (inRange : site.InRange) (asks : connection.program = .send site.command next) :
    Paired program (connection.issue site) := by
  cases paired with
  | @idle program context fine none_ rest =>
    obtain rfl : program = .send site.command next := asks
    obtain ⟨reader, got, rest'⟩ := getReply_atRest rest
    have issued : (Connection.mk (.send site.command next) .idle context [] []).issue site =
        ⟨.send site.command next, .writing,
          { context with obuf := context.obuf ++ onWire site.command, reader }, [], []⟩ := by
      simp only [Connection.issue, appendCommand_site inRange, redisGetReplyFromReader, got, Option.map_some,
        Connection.take]
    rw [issued]
    refine .sending ⟨site, inRange, rfl⟩ fine ?_ ?_ rest'
    · rw [none_]; rfl
    · rw [none_, List.nil_append, if_neg (onWire_ne_nil _)]
  | sending _ _ _ phase_ _ =>
    have phase' := idle.symm.trans phase_
    split_ifs at phase'
  | answered => cases idle
  | lost failed _ quiet behind =>
    obtain ⟨reader, got, quiet'⟩ := getReply_quiet quiet
    have issued : connection.issue site = { connection with
        phase := .writing
        context := { connection.context with obuf := connection.context.obuf ++ onWire site.command, reader } } := by
      simp only [Connection.issue, appendCommand_site inRange, redisGetReplyFromReader, got, Option.map_some,
        Connection.take]
    rw [issued]
    exact .lost failed (.inr rfl) quiet' behind

theorem paired_write {answer : Written} (writing : connection.phase = .writing)
    (valid : ∀ n, answer = .wrote n → n ≤ connection.context.obuf.length) :
    Paired program (connection.write answer) := by
  cases paired with
  | idle => cases writing
  | answered => cases writing
  | lost failed _ quiet behind =>
    have stopped : connection.write answer = connection.giveUp connection.context := by
      simp [Connection.write, redisBufferWrite, failed]
    rw [stopped]
    exact .lost failed (.inl rfl) quiet behind.further
  | @sending command next context up phase sited fine text phase_ rest =>
    obtain rfl : phase = .writing := writing
    have some_ : context.obuf ≠ [] := fun empty => by rw [if_pos empty] at phase_; cases phase_
    have positive : context.obuf.length > 0 := List.length_pos_iff.mpr some_
    have same : Paired (.send command next) ⟨.send command next, .writing, context, up, []⟩ :=
      .sending sited fine text phase_ rest
    have prefix_ : up <+: onWire command := ⟨context.obuf, text⟩
    cases answer with
    | interrupted =>
      have written : (Connection.mk (.send command next) .writing context up []).write .interrupted =
          ⟨.send command next, .writing, context, up, []⟩ := by
        simp [Connection.write, redisBufferWrite, fine, positive]
      rwa [written]
    | failed strerror =>
      have written : (Connection.mk (.send command next) .writing context up []).write (.failed strerror) =
          (Connection.mk (.send command next) .writing context up []).giveUp
            (__redisSetError context REDIS_ERR_IO strerror) := by
        simp [Connection.write, redisBufferWrite, fine, positive]
      rw [written]
      exact paired_giveUp rfl rest.quiet prefix_
    | wrote nwritten =>
      have room : nwritten ≤ context.obuf.length := valid nwritten rfl
      by_cases zero : nwritten = 0
      · subst zero
        have written : (Connection.mk (.send command next) .writing context up []).write (.wrote 0) =
            ⟨.send command next, .writing, context, up, []⟩ := by
          simp [Connection.write, redisBufferWrite, fine, positive]
        rwa [written]
      · have left : (if nwritten = context.obuf.length then [] else sdsrange context.obuf nwritten (-1)) =
            context.obuf.drop nwritten := by
          split
          next all => rw [all, List.drop_length]
          next => rw [sdsrange_rest]
        have written : (Connection.mk (.send command next) .writing context up []).write (.wrote nwritten) =
            ⟨.send command next, if (context.obuf.drop nwritten).isEmpty then .reading else .writing,
              { context with obuf := context.obuf.drop nwritten }, up ++ context.obuf.take nwritten, []⟩ := by
          simp only [Connection.write, redisBufferWrite, fine, Option.isSome_none, Bool.false_eq_true, if_false,
            positive, if_true, zero, left]
        rw [written]
        refine .sending sited fine ?_ ?_ rest
        · rw [List.append_assoc, List.take_append_drop, text]
        · simp

theorem paired_read {received : Received} (reading : connection.phase = .reading)
    (valid : ∀ buf, received = .bytes buf → buf <+: connection.down) :
    Paired program (connection.read received) := by
  cases paired with
  | idle => cases reading
  | lost _ phase_ _ _ => rcases phase_ with idle | writing <;> simp_all
  | @sending command next context up phase sited fine text phase_ rest =>
    obtain rfl : phase = .reading := reading
    have none_ : context.obuf = [] := by
      by_contra some_
      rw [if_neg some_] at phase_
      cases phase_
    have pending : up <+: onWire command := ⟨context.obuf, text⟩
    cases received with
    | interrupted =>
      obtain ⟨reader, got, rest'⟩ := getReply_atRest rest
      have read : (Connection.mk (.send command next) .reading context up []).read .interrupted =
          ⟨.send command next, .reading, { context with reader }, up, []⟩ := by
        simp [Connection.read, redisBufferRead, fine, redisGetReplyFromReader, got, Connection.take]
      rw [read]
      exact .sending sited fine text (by rw [none_]; rfl) rest'
    | failed strerror =>
      have read : (Connection.mk (.send command next) .reading context up []).read (.failed strerror) =
          (Connection.mk (.send command next) .reading context up []).giveUp
            (__redisSetError context REDIS_ERR_IO strerror) := by
        simp [Connection.read, redisBufferRead, fine]
      rw [read]
      exact paired_giveUp rfl rest.quiet pending
    | bytes buf =>
      obtain rfl : buf = [] := List.prefix_nil.mp (valid buf rfl)
      have read : (Connection.mk (.send command next) .reading context up []).read (.bytes []) =
          (Connection.mk (.send command next) .reading context up []).giveUp
            (__redisSetError context .REDIS_ERR_EOF "Server closed the connection".toList) := by
        simp [Connection.read, redisBufferRead, fine]
      rw [read]
      exact paired_giveUp rfl rest.quiet pending
  | @answered command next context r read down answering =>
    cases received with
    | interrupted =>
      obtain ⟨reader, again, answering'⟩ := answering.interrupted (.send command next)
      rw [again]
      exact .answered answering'
    | failed strerror =>
      have read : (Connection.mk (.send command next) .reading context [] down).read (.failed strerror) =
          (Connection.mk (.send command next) .reading context [] down).giveUp
            (__redisSetError context REDIS_ERR_IO strerror) := by
        simp [Connection.read, redisBufferRead, answering.fine]
      rw [read]
      exact paired_giveUp_answered r rfl answering.quiet
    | bytes buf =>
      by_cases empty : buf = []
      · subst empty
        have read : (Connection.mk (.send command next) .reading context [] down).read (.bytes []) =
            (Connection.mk (.send command next) .reading context [] down).giveUp
              (__redisSetError context .REDIS_ERR_EOF "Server closed the connection".toList) := by
          simp [Connection.read, redisBufferRead, answering.fine]
        rw [read]
        exact paired_giveUp_answered r rfl answering.quiet
      · obtain ⟨down', rfl⟩ := valid buf rfl
        rcases answering.bytes command next empty with ⟨rfl, reader, done, rest⟩ | ⟨reader, partly, answering'⟩
        · rw [done]
          exact .idle _ answering.fine answering.sent rest
        · rw [partly]
          exact .answered answering'

theorem paired_serve {command : Redis.Command Key Field} {more : Text}
    (request : connection.up = onWire command ++ more) :
    ∃ next, program = .send command next ∧ ∀ r, Fits 8 (answer r) →
      Paired (next r) { connection with up := more, down := connection.down ++ (answer r).wire } := by
  have some_ : connection.up ≠ [] := by
    rw [request]
    simp [onWire_ne_nil]
  cases paired with
  | idle => exact absurd rfl some_
  | answered => exact absurd rfl some_
  | @sending command' next context up phase sited fine text phase_ rest =>
    obtain rfl : up = onWire command ++ more := request
    have cut : onWire command ++ (more ++ context.obuf) = onWire command' ++ [] := by
      rw [List.append_nil, ← text, List.append_assoc]
    obtain ⟨rfl, none_⟩ := onWire_cut cut
    obtain ⟨rfl, empty⟩ := List.append_eq_nil_iff.mp none_
    rw [if_pos empty] at phase_
    subst phase_
    refine ⟨next, rfl, fun r fits => ?_⟩
    rw [List.nil_append]
    refine .answered ⟨fine, empty, fits, (List.nil_append _).symm, answer_wire_ne_nil r, rest.holds, ?_⟩
    rw [run_nil, rest.idle, rest.empty]
  | lost failed phase_ quiet behind =>
    generalize connection.program = left at behind ⊢
    generalize connection.up = up at behind request some_
    cases behind with
    | served => exact absurd rfl some_
    | @unserved command' next up n part =>
      obtain ⟨back, whole⟩ := part
      have cut : onWire command ++ (more ++ back) = onWire command' ++ [] := by
        rw [List.append_nil, ← whole, request, List.append_assoc]
      obtain ⟨rfl, none_⟩ := onWire_cut cut
      obtain ⟨rfl, -⟩ := List.append_eq_nil_iff.mp none_
      refine ⟨next, rfl, fun r _ => .lost failed phase_ quiet ?_⟩
      have behind : Behind (next r) [] (unanswered^[n + 1] (.send command next)) := .served n r
      exact behind

end Steps

structure World (ι A : Type) where
  server : Store
  connections : ι → Connection A
  trace : Log ι

namespace World

variable {ι : Type} [DecidableEq ι]

def start (server : Store) (programs : ι → Prog A) : World ι A :=
  ⟨server, fun client => .connect (programs client), []⟩

def set (world : World ι A) (client : ι) (connection : Connection A) : World ι A :=
  { world with connections := Function.update world.connections client connection }

def serve (world : World ι A) (client : ι) (command : Redis.Command Key Field) (more : Text) : World ι A :=
  { server := (execute world.server command).2
    connections := Function.update world.connections client
      { world.connections client with
        up := more
        down := (world.connections client).down ++ (answer (execute world.server command).1).wire }
    trace := ⟨client, command, (execute world.server command).1⟩ :: world.trace }

-- `sizeof(buf)` in redisBufferRead.
def readSize : Nat := 1024 * 16

-- A step of one client or of the server, in any order. A write takes some of what is offered and a read
-- some of what has come, as the system likes, or they fail. The server takes a request that has come
-- whole and answers it, if that is one that a client can take.
inductive Step : World ι A → World ι A → Prop
  | issue {world : World ι A} {client : ι} {site : CallSite} {next : Redis.Reply → Prog A}
      (idle : (world.connections client).phase = .idle) (inRange : site.InRange)
      (asks : (world.connections client).program = .send site.command next) :
      Step world (world.set client ((world.connections client).issue site))
  | write {world : World ι A} {client : ι} {answer : Written}
      (writing : (world.connections client).phase = .writing)
      (valid : ∀ n, answer = .wrote n → n ≤ (world.connections client).context.obuf.length) :
      Step world (world.set client ((world.connections client).write answer))
  | read {world : World ι A} {client : ι} {received : Received}
      (reading : (world.connections client).phase = .reading)
      (valid : ∀ buf, received = .bytes buf →
        buf <+: (world.connections client).down ∧ buf.length ≤ readSize) :
      Step world (world.set client ((world.connections client).read received))
  | serve {world : World ι A} {client : ι} {command : Redis.Command Key Field} {more : Text}
      (request : (world.connections client).up = onWire command ++ more)
      (fits : Fits 8 (answer (execute world.server command).1)) :
      Step world (world.serve client command more)

abbrev Reaches : World ι A → World ι A → Prop := Relation.ReflTransGen Step

structure Follows (world : World ι A) (pool : Clients ι A) : Prop where
  server : world.server = pool.server
  trace : world.trace = pool.trace
  paired : ∀ client, Paired (pool.clients client) (world.connections client)

omit [DecidableEq ι] in
theorem follows_start (server : Store) (programs : ι → Prog A) :
    (start server programs).Follows (.start server programs) :=
  ⟨rfl, rfl, fun client => paired_connect (programs client)⟩

theorem Follows.set {world : World ι A} {pool : Clients ι A} (follows : world.Follows pool) {client : ι}
    {connection : Connection A} (paired : Paired (pool.clients client) connection) :
    (world.set client connection).Follows pool := by
  refine ⟨follows.server, follows.trace, fun other => ?_⟩
  by_cases same : other = client
  · subst same
    simpa [World.set] using paired
  · simpa [World.set, same] using follows.paired other

theorem Follows.step {world world' : World ι A} {pool : Clients ι A} (follows : world.Follows pool)
    (step : Step world world') :
    world'.Follows pool ∨ ∃ client, world'.Follows (pool.advance execute client) := by
  cases step with
  | @issue client site next idle inRange asks =>
    exact .inl (follows.set (paired_issue (follows.paired client) idle inRange asks))
  | @write client answer writing valid =>
    exact .inl (follows.set (paired_write (follows.paired client) writing valid))
  | @read client received reading valid =>
    exact .inl (follows.set (paired_read (follows.paired client) reading fun buf is => (valid buf is).1))
  | @serve client command more request fits =>
    obtain ⟨next, program, paired⟩ := paired_serve (follows.paired client) request
    have advanced : pool.advance execute client =
        { server := (execute pool.server command).2
          clients := Function.update pool.clients client (next (execute pool.server command).1)
          trace := ⟨client, command, (execute pool.server command).1⟩ :: pool.trace } := by
      simp only [Pool.advance, program]
    rw [follows.server] at fits
    refine .inr ⟨client, ?_⟩
    rw [advanced, World.serve, follows.server, follows.trace]
    refine ⟨rfl, rfl, fun other => ?_⟩
    by_cases same : other = client
    · subst same
      simpa using paired _ fits
    · simpa [same] using follows.paired other

theorem Follows.reaches {world world' : World ι A} {pool : Clients ι A} (follows : world.Follows pool)
    (reaches : Reaches world world') : ∃ schedule, world'.Follows (pool.run execute schedule) := by
  induction reaches with
  | refl => exact ⟨[], follows⟩
  | tail _ step ih =>
    obtain ⟨schedule, follows'⟩ := ih
    rcases follows'.step step with same | ⟨client, turn⟩
    · exact ⟨schedule, same⟩
    · refine ⟨schedule ++ [client], ?_⟩
      rw [Pool.run_append]
      exact turn

end World

end RedisVfs

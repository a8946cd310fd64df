import RedisVfs.Concurrency.Creating
import RedisVfs.Wire.Exchange

set_option autoImplicit false

namespace RedisVfs

open CString Hiredis

variable {ι A : Type} [DecidableEq ι]

theorem Paired.not_stray {program : Prog A} {connection : Connection A} (paired : Paired program connection) :
    connection.phase ≠ .stray := by
  cases paired with
  | idle => nofun
  | sending sited fine text phase_ rest =>
    rw [phase_]
    split <;> nofun
  | answered => nofun
  | lost _ phase_ _ _ => rcases phase_ with idle | writing <;> simp_all

theorem Paired.same_idle {program : Prog A} {connection : Connection A} (paired : Paired program connection)
    (fine : connection.context.err = none) (idle : connection.phase = .idle) : program = connection.program := by
  cases paired with
  | idle => rfl
  | sending => rfl
  | answered => cases idle
  | lost failed => simp [fine] at failed

theorem Paired.ahead {program : Prog A} {connection : Connection A} (paired : Paired program connection)
    (fine : connection.context.err = none) :
    program = connection.program ∨ connection.phase = .reading ∧
      ∃ command next r, connection.program = .send command next ∧ program = next r := by
  cases paired with
  | idle => exact .inl rfl
  | sending => exact .inl rfl
  | answered => exact .inr ⟨rfl, _, _, _, rfl, rfl⟩
  | lost failed => simp [fine] at failed

theorem Paired.behind {program : Prog A} {connection : Connection A} (paired : Paired program connection)
    (failed : connection.context.err.isSome) :
    ∃ command next n, connection.program = unanswered^[n + 1] (.send command next) ∧
      (program = .send command next ∨ ∃ r, program = next r) := by
  cases paired with
  | idle _ fine => simp [fine] at failed
  | sending _ fine => simp [fine] at failed
  | answered answering => simp [answering.fine] at failed
  | lost _ _ _ behind =>
    generalize connection.program = goesOn at behind
    generalize connection.up = up at behind
    cases behind with
    | unserved n part => exact ⟨_, _, n, rfl, .inl rfl⟩
    | served n r => exact ⟨_, _, n, rfl, .inr ⟨r, rfl⟩⟩

theorem exchange_simulates {store : Store} {programs : ι → Prog A} {world : World ι A}
    (reaches : (World.start store programs).Reaches world) :
    ∃ schedule : List ι, ∃ pool, pool = (Pool.start store programs).run execute schedule ∧
      world.server = pool.server ∧ world.trace = pool.trace ∧
        ∀ client, (world.connections client).phase ≠ .stray ∧
          ((world.connections client).context.err = none →
            ((world.connections client).phase = .idle →
              pool.clients client = (world.connections client).program) ∧
            (pool.clients client = (world.connections client).program ∨
              (world.connections client).phase = .reading ∧ ∃ command next r,
                (world.connections client).program = .send command next ∧ pool.clients client = next r)) ∧
          ((world.connections client).context.err.isSome → ∃ command next n,
            (world.connections client).program = unanswered^[n + 1] (.send command next) ∧
              (pool.clients client = .send command next ∨ ∃ r, pool.clients client = next r)) := by
  obtain ⟨schedule, follows⟩ := (World.follows_start store programs).reaches reaches
  refine ⟨schedule, _, rfl, follows.server, follows.trace, fun client => ?_⟩
  have paired := follows.paired client
  exact ⟨paired.not_stray, fun fine => ⟨paired.same_idle fine, paired.ahead fine⟩, paired.behind⟩

-- One client has the first character of its answer; the other has failed to send its command and goes on.
theorem exchange_simulates_cut :
    let pushing : Prog Int := do
      let _ ← redisCommand (.lpush (.folderFiles 0) "7".toList)
      return 7
    let programs (first : Bool) : Prog Int := if first then getNewId else pushing
    let begun := World.start builtStore programs
    let issued := begun.set true ((begun.connections true).issue .getCount)
    let sent := issued.set true ((issued.connections true).write (.wrote (onWire (.get .currentIdCount)).length))
    let served := sent.serve true (.get .currentIdCount) []
    let cut := served.set true ((served.connections true).read (.bytes ['$']))
    let issued' := cut.set false ((cut.connections false).issue (.pushFile 0 7))
    let world := issued'.set false ((issued'.connections false).write (.failed "Broken pipe".toList))
    (∃ schedule : List Bool, ∃ pool, pool = (Pool.start builtStore programs).run execute schedule ∧
        world.server = pool.server ∧ world.trace = pool.trace) ∧
      (world.connections true).phase = .reading ∧ (world.connections false).context.err.isSome ∧
        ((world.connections false).program.run execute world.server).1 = .ok 7 := by
  intro pushing programs begun issued sent served cut issued' world
  have asks : World.Step begun issued := @World.Step.issue _ _ _ begun true .getCount _ rfl trivial rfl
  have writes : World.Step issued sent := by
    refine @World.Step.write _ _ _ issued true _ (by decide +kernel) fun n same => ?_
    obtain rfl := Written.wrote.inj same
    decide +kernel
  have answers : World.Step sent served := by
    refine @World.Step.serve _ _ _ sent true _ [] (by decide +kernel) ?_
    exact .bulk (by decide : ((("1".toList).length : Nat) : Int) ≤ LONG_MAX)
  have reads : World.Step served cut := by
    refine @World.Step.read _ _ _ served true _ (by decide +kernel) fun buf same => ?_
    obtain rfl := Received.bytes.inj same
    exact ⟨⟨"1\r\n1\r\n".toList, by decide +kernel⟩, by decide⟩
  have asks' : World.Step cut issued' :=
    @World.Step.issue _ _ _ cut false (.pushFile 0 7) _ rfl trivial rfl
  have fails : World.Step issued' world :=
    @World.Step.write _ _ _ issued' false _ (by decide +kernel) nofun
  have reaches : begun.Reaches world :=
    .head asks (.head writes (.head answers (.head reads (.head asks' (.single fails)))))
  obtain ⟨schedule, pool, ran, server, trace, -⟩ := exchange_simulates reaches
  exact ⟨⟨schedule, pool, ran, server, trace⟩, by decide +kernel, by decide +kernel, by decide +kernel⟩

namespace World

theorem set_set (world : World ι A) (client : ι) (first second : Connection A) :
    (world.set client first).set client second = world.set client second := by
  simp [set]

@[simp] theorem set_self (world : World ι A) (client : ι) (connection : Connection A) :
    (world.set client connection).connections client = connection := by
  simp [set]

variable {client : ι} {command : Redis.Command Key Field} {next : Redis.Reply → Prog A}

theorem finishes_reading {r : Redis.Reply} : ∀ {n : Nat} (world : World ι A) {context : RedisContext}
    {read down : Text}, down.length ≤ n → Answering context r read down →
    world.connections client = ⟨.send command next, .reading, context, [], down⟩ →
    ∃ reader, reader.AtRest ∧
      Reaches world (world.set client ⟨next r, .idle, { context with reader }, [], []⟩) := by
  intro n
  induction n with
  | zero =>
    intro world context read down short answering
    exact absurd (List.length_eq_zero_iff.mp (Nat.le_zero.mp short)) answering.more
  | succ n ih =>
    intro world context read down short answering here
    have some_ : down.take readSize ≠ [] := by simp [readSize, answering.more]
    have step : Step world (world.set client ((world.connections client).read (.bytes (down.take readSize)))) := by
      refine .read (by rw [here]) fun buf same => ?_
      obtain rfl : down.take readSize = buf := by simpa using same
      rw [here]
      exact ⟨List.take_prefix _ _, by simp⟩
    have split : down.take readSize ++ down.drop readSize = down := List.take_append_drop _ _
    rw [← split] at answering
    rw [here] at step
    have cases_ := answering.bytes command next some_
    rw [split] at cases_
    rcases cases_ with ⟨-, reader, done, rest⟩ | ⟨reader, partly, answering'⟩
    · rw [done] at step
      exact ⟨reader, rest, .single step⟩
    · rw [partly] at step
      have shorter : (down.drop readSize).length ≤ n := by
        rw [List.length_drop]
        have positive : 0 < readSize := by decide
        omega
      obtain ⟨reader', rest, reaches⟩ := ih _ shorter answering' (set_self world client _)
      rw [set_set] at reaches
      exact ⟨reader', rest, .head step reaches⟩

def answered (world : World ι A) (client : ι) (command : Redis.Command Key Field)
    (connection : Connection A) : World ι A :=
  { server := (execute world.server command).2
    connections := Function.update world.connections client connection
    trace := ⟨client, command, (execute world.server command).1⟩ :: world.trace }

theorem finishes_request (world : World ι A) (context : RedisContext) (fine : context.err = none)
    (sent : context.obuf = []) (rest : context.reader.AtRest)
    (fits : Fits 8 (answer (execute world.server command).1))
    (here : world.connections client = ⟨.send command next, .reading, context, onWire command, []⟩) :
    ∃ reader, reader.AtRest ∧ Reaches world
      (world.answered client command
        ⟨next (execute world.server command).1, .idle, { context with reader }, [], []⟩) := by
  have step := @Step.serve A ι _ world client command [] (by rw [here, List.append_nil]) fits
  rw [World.serve, here] at step
  have answering : Answering context (execute world.server command).1 []
      ([] ++ (answer (execute world.server command).1).wire) := by
    refine ⟨fine, sent, fits, rfl, answer_wire_ne_nil _, rest.holds, ?_⟩
    rw [run_nil, rest.idle, rest.empty]
  obtain ⟨reader, rest', reaches⟩ := finishes_reading (World.answered world client command _)
    (Nat.le_refl _) answering (Function.update_self _ _ _)
  refine ⟨reader, rest', .head step ?_⟩
  simpa [World.answered, World.set] using reaches

theorem finishes_writing (world : World ι A) (context : RedisContext) {up : Text}
    (fine : context.err = none) (text : up ++ context.obuf = onWire command) (rest : context.reader.AtRest)
    (fits : Fits 8 (answer (execute world.server command).1)) {phase : Phase}
    (phase_ : phase = if context.obuf = [] then .reading else .writing)
    (here : world.connections client = ⟨.send command next, phase, context, up, []⟩) :
    ∃ context', context'.err = none ∧ context'.obuf = [] ∧ context'.reader.AtRest ∧ Reaches world
      (world.answered client command ⟨next (execute world.server command).1, .idle, context', [], []⟩) := by
  by_cases sent : context.obuf = []
  · rw [if_pos sent] at phase_
    rw [sent, List.append_nil] at text
    subst phase_ text
    obtain ⟨reader, rest', reaches⟩ := finishes_request world context fine sent rest fits here
    exact ⟨{ context with reader }, fine, sent, rest', reaches⟩
  · rw [if_neg sent] at phase_
    subst phase_
    have step : Step world
        (world.set client ((world.connections client).write (.wrote context.obuf.length))) := by
      refine .write (by rw [here]) fun n same => ?_
      obtain rfl : context.obuf.length = n := by simpa using same
      rw [here]
    have positive : context.obuf.length > 0 := List.length_pos_iff.mpr sent
    have written : (world.connections client).write (.wrote context.obuf.length) =
        ⟨.send command next, .reading, { context with obuf := [] }, onWire command, []⟩ := by
      rw [here]
      simp only [Connection.write, redisBufferWrite, fine, Option.isSome_none, Bool.false_eq_true, if_false,
        positive, if_true, positive.ne', List.take_length, text, List.isEmpty_nil]
    rw [written] at step
    obtain ⟨reader, rest', reaches⟩ := finishes_request
      (world.set client ⟨.send command next, .reading, { context with obuf := [] }, onWire command, []⟩)
      { context with obuf := [] } fine rfl rest fits (set_self world client _)
    refine ⟨{ context with obuf := [], reader }, fine, rfl, rest', .head step ?_⟩
    simpa [World.answered, World.set] using reaches

-- What a client that is left to itself comes to: its command is answered, and no other client is
-- touched.
def Completes (world world' : World ι A) (client : ι) (command : Redis.Command Key Field)
    (next : Redis.Reply → Prog A) : Prop :=
  (∃ r, (world'.connections client).program = next r ∧
      (world'.server = world.server ∧ world'.trace = world.trace ∨
        r = (execute world.server command).1 ∧ world'.server = (execute world.server command).2 ∧
          world'.trace = ⟨client, command, r⟩ :: world.trace)) ∧
    (world'.connections client).phase = .idle ∧
      ∀ other, other ≠ client → world'.connections other = world.connections other

theorem completes_answered {world : World ι A} {context : RedisContext} :
    world.Completes (world.answered client command
      ⟨next (execute world.server command).1, .idle, context, [], []⟩) client command next := by
  refine ⟨⟨(execute world.server command).1, ?_, .inr ⟨rfl, rfl, rfl⟩⟩, ?_, fun other ne => ?_⟩
  · simp [World.answered]
  · simp [World.answered]
  · simp [World.answered, ne]

end World

theorem exchange_completes {store : Store} {programs : ι → Prog A} {world : World ι A}
    (reaches : (World.start store programs).Reaches world) {client : ι} {command : Redis.Command Key Field}
    {next : Redis.Reply → Prog A} (alive : (world.connections client).context.err = none)
    (asks : (world.connections client).program = .send command next) (sited : Sited command)
    (fits : Fits 8 (answer (execute world.server command).1)) :
    ∃ world', world.Reaches world' ∧ world.Completes world' client command next := by
  obtain ⟨schedule, follows⟩ := (World.follows_start store programs).reaches reaches
  have paired := follows.paired client
  generalize ((Pool.start store programs).run execute schedule).clients client = program at paired
  generalize here : world.connections client = connection at paired alive asks
  cases paired with
  | lost failed => simp [alive] at failed
  | @idle program context fine none_ rest =>
    obtain rfl : program = .send command next := asks
    obtain ⟨site, inRange, rfl⟩ := sited
    obtain ⟨reader, got, rest'⟩ := getReply_atRest rest
    have step : World.Step world (world.set client ((world.connections client).issue site)) :=
      .issue (by rw [here]) inRange (by rw [here])
    have issued : (world.connections client).issue site =
        ⟨.send site.command next, .writing,
          { context with obuf := context.obuf ++ onWire site.command, reader }, [], []⟩ := by
      rw [here]
      simp only [Connection.issue, appendCommand_site inRange, redisGetReplyFromReader, got, Option.map_some,
        Connection.take]
    rw [issued, none_] at step
    have writing : Phase.writing = if ([] : Text) ++ onWire site.command = [] then .reading else .writing := by
      simp [onWire_ne_nil]
    obtain ⟨context', -, -, -, later⟩ := World.finishes_writing (world.set client _)
      { context with obuf := [] ++ onWire site.command, reader } fine (List.nil_append _) rest' fits writing
      (World.set_self world client _)
    refine ⟨_, .head step later, ?_⟩
    have done := @World.completes_answered ι A _ client site.command next world context'
    simpa [World.answered, World.set] using done
  | @sending command' next' context up phase sited' fine text phase_ rest =>
    obtain ⟨rfl, rfl⟩ := Program.send.inj asks
    obtain ⟨context', -, -, -, later⟩ := World.finishes_writing world context fine text rest fits phase_ here
    exact ⟨_, later, World.completes_answered⟩
  | @answered command' next' context r read down answering =>
    obtain ⟨rfl, rfl⟩ := Program.send.inj asks
    obtain ⟨reader, -, later⟩ := World.finishes_reading world (Nat.le_refl _) answering here
    refine ⟨_, later, ⟨r, by simp, .inl ⟨rfl, rfl⟩⟩, by simp, fun other ne => ?_⟩
    simp [World.set, ne]

theorem exchange_completes_asked :
    let begun := World.start builtStore fun _ : Unit => redisCommand (.get .currentIdCount)
    ∃ world', begun.Reaches world' ∧
      begun.Completes world' () (.get .currentIdCount) pure := by
  intro begun
  have fits : Fits 8 (answer (execute begun.server (.get .currentIdCount)).1) :=
    .bulk (by decide : ((("1".toList).length : Nat) : Int) ≤ LONG_MAX)
  exact @exchange_completes Unit _ _ _ _ begun .refl () _ _ rfl rfl ⟨.getCount, trivial, rfl⟩ fits

end RedisVfs

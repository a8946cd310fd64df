import RedisVfs.Wire.Directives
import RedisVfs.Wire.Pieces
import RedisVfs.Wire.Requests

set_option autoImplicit false

namespace Hiredis

open CString Resp

theorem encoders_agree (format : Text) (ap : List Arg) :
    match redisvFormatCommand format ap with
    | .ok (cmd, len) => len = cmd.length ∧ ∃ argv, cmd = (request argv).wire ∧
        redisFormatCommandArgv argv = .ok (cmd, len) ∧ redisFormatSdsCommandArgv argv = .ok (cmd, len) ∧
          ∀ argv', cmd = (request argv').wire → argv' = argv
    | .error fault => fault ≠ .assertion := by
  have measures := loop_measures format 0 (f := .start ap) rfl
  cases loop : formatLoop format 0 (.start ap) with
  | error fault =>
    rw [loop] at measures
    simp only [redisvFormatCommand, loop, bind, Except.bind]
    exact measures
  | ok f =>
    rw [loop] at measures
    have total : f.close.totlen = (Value.wires (f.close.curargv.map .bulk)).length :=
      Formatting.Measured.close measures
    have sent : redisvFormatCommand format ap =
        .ok ((request f.close.curargv).wire, (request f.close.curargv).wire.length) := by
      simp only [redisvFormatCommand, loop, bind, Except.bind, total, writeCommand_eq, request_length, if_true]
    rw [sent]
    refine ⟨rfl, f.close.curargv, rfl, formatCommandArgv_eq _, formatSdsCommandArgv_eq _, fun argv' same => ?_⟩
    have cut : (request f.close.curargv).wire ++ [] = (request argv').wire ++ [] := by rw [same]
    exact (request_cut cut).1.symm

theorem fits_request {argv : List Text} (few : argv.length < 2 ^ 31)
    (short : ∀ word ∈ argv, (word.length : Int) ≤ LONG_MAX) : Fits 8 (request argv) := by
  refine .array (by rwa [List.length_map]) fun item member => ?_
  obtain ⟨word, isWord, rfl⟩ := List.mem_map.mp member
  exact .bulk (short word isWord)

theorem reply_request (argv : List Text) :
    reply (request argv) = .array argv.length (argv.map fun word => some (.string word)) := by
  simp [request, reply, replies_eq_map, Function.comp_def]

theorem words_round_trip (layout : Layout) (ap : List Arg) (few : layout.argv.length < 2 ^ 31)
    (short : ∀ word ∈ layout.argv, (word.length : Int) ≤ LONG_MAX) :
    ∃ cmd, redisvFormatCommand layout.spell (layout.args ++ ap) = .ok (cmd, cmd.length) ∧
      ∀ pieces : List Text, pieces.flatten = cmd → ∃ r, r.err = none ∧
        receive redisReaderCreate pieces =
          some ([.array layout.argv.length (layout.argv.map fun word => some (.string word))], r) := by
  refine ⟨(request layout.argv).wire, format_layout layout ap, fun pieces whole => ?_⟩
  have spec := receive_created pieces
  rw [whole, run_whole (fits_request few short), reply_request] at spec
  cases got : receive redisReaderCreate pieces with
  | none =>
    rw [got] at spec
    cases spec
  | some taken =>
    obtain ⟨told, r⟩ := taken
    rw [got] at spec
    obtain ⟨run, -⟩ := spec
    obtain ⟨rfl, rest⟩ := Prod.mk.inj run
    have mood : r.mood = .idle := (Prod.mk.inj rest).1.symm
    refine ⟨r, ?_, rfl⟩
    rw [← mood_err, mood]
    rfl

def trickyLayout : Layout := (RedisVfs.CallSite.setFileName 7 "x\" y\r\n$4".toList).layout

theorem words_round_trip_tricky :
    ∃ cmd, redisvFormatCommand trickyLayout.spell (trickyLayout.args ++ []) = .ok (cmd, cmd.length) ∧
      ∀ pieces : List Text, pieces.flatten = cmd → ∃ r, r.err = none ∧
        receive redisReaderCreate pieces =
          some ([.array trickyLayout.argv.length
            (trickyLayout.argv.map fun word => some (.string word))], r) :=
  words_round_trip trickyLayout [] (by decide) (by decide)

theorem star_refused {before : Text} (closed : leftOpen before = false) (rest : Text) {ap : List Arg}
    (fitting : redisvFormatCommand before ap ≠ .error .wrongArgument) :
    redisvFormatCommand (before ++ "%.*".toList ++ rest) ap = .error .format_err := by
  have fitting' : formatLoop before 0 (.start ap) ≠ .error .wrongArgument := fun wrong => by
    rw [redisvFormatCommand, wrong] at fitting
    exact fitting rfl
  have refused := @loop_append ('%' :: '.' :: '*' :: rest) rfl rest rfl _ before (.start ap)
    (Nat.lt_succ_self _) closed fitting'
  have looped : formatLoop (before ++ "%.*".toList ++ rest) 0 (.start ap) = .error .format_err := by
    rw [List.append_assoc]
    exact refused
  simp only [redisvFormatCommand, looped, bind, Except.bind]

-- The format that the comment of vfs_setFileName speaks of.
theorem star_refused_fileName :
    redisvFormatCommand ("HSET FILE_%lu_info name \"".toList ++ "%.*".toList ++ "s\"".toList)
      [.long 7, .int 1, .string ['a', 'b']] = .error .format_err :=
  star_refused rfl "s\"".toList (by decide +kernel)

theorem cut_directive (front : Front) {c : Char} {s : Text} (open_ : pastPrecision (c :: s) = [])
    (short : (c :: s).length + 2 < formatSize - 2) (value : Int) (ap : List Arg) :
    redisvFormatCommand (front.spell ++ '%' :: c :: s) (front.args ++ .int value :: ap) =
      .error .overread := by
  have found : conversion (c :: s) = some ([], .int) := by
    simp [conversion, open_, strchr]
  have letter : ¬ (c = 's' ∨ c = 'b' ∨ c = '%') := fun letter => by
    rw [conversion_letter letter] at found
    cases found
  obtain ⟨f, loop, args⟩ := @loop_front front ('%' :: c :: s) (.start (front.args ++ .int value :: ap)) _ rfl
  have stopped : convert f c s = .error .overread := by
    simp only [convert_other letter, found, args, vaArg, List.length_nil, Nat.sub_zero, List.isEmpty_nil,
      if_true]
    rw [if_pos (by omega)]
  have looped : formatLoop ('%' :: c :: s) 0 f = .error .overread := by
    rw [formatLoop, if_pos ⟨rfl, List.cons_ne_nil c s⟩]
    simp only [List.headD_cons, List.tail_cons, stopped]
    rfl
  simp only [redisvFormatCommand, loop, looped, bind, Except.bind]

-- Behind a blank and another directive.
theorem cut_directive_width :
    redisvFormatCommand (Front.spell [some (.string ['k']), none] ++ '%' :: '-' :: ['5'])
      (Front.args [some (.string ['k']), none] ++ .int 3 :: []) = .error .overread :=
  cut_directive [some (.string ['k']), none] rfl (by decide) 3 []

end Hiredis

namespace RedisVfs

open CString Hiredis

theorem site_sent {site : CallSite} (inRange : site.InRange) :
    redisvFormatCommand site.format site.args =
        .ok ((Resp.request (argv site.command)).wire, (Resp.request (argv site.command)).wire.length) ∧
      ∀ (command : Redis.Command Key Field) (more more' : Text),
        (Resp.request (argv command)).wire ++ more = (Resp.request (argv site.command)).wire ++ more' →
          command = site.command ∧ more = more' := by
  refine ⟨?_, fun command more more' same => ?_⟩
  · have sent := format_layout site.layout []
    rwa [List.append_nil, site.layout_spell, site.layout_args, site.layout_argv inRange] at sent
  · obtain ⟨words, rest⟩ := Resp.request_cut same
    exact ⟨argv_injective words, rest⟩

theorem site_sent_removal :
    redisvFormatCommand (CallSite.removeFile 3 (-1)).format (CallSite.removeFile 3 (-1)).args =
        .ok ((Resp.request (argv (CallSite.removeFile 3 (-1)).command)).wire,
          (Resp.request (argv (CallSite.removeFile 3 (-1)).command)).wire.length) ∧
      ∀ (command : Redis.Command Key Field) (more more' : Text),
        (Resp.request (argv command)).wire ++ more =
            (Resp.request (argv (CallSite.removeFile 3 (-1)).command)).wire ++ more' →
          command = (CallSite.removeFile 3 (-1)).command ∧ more = more' :=
  @site_sent (.removeFile 3 (-1)) ⟨⟨by decide, by decide⟩, by decide, by decide⟩

end RedisVfs

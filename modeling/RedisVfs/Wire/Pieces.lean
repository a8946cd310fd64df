import RedisVfs.Wire.Values

set_option autoImplicit false

namespace Hiredis

open CString Resp

def takeReplies : Nat → RedisReader → Option (List RedisReply × RedisReader)
  | 0, r => some ([], r)
  | turns + 1, r =>
      match redisReaderGetReply r with
      | none => none
      | some (_, none, r') => some ([], r')
      | some (_, some reply, r') =>
          (takeReplies turns r').map fun taken => (reply :: taken.1, taken.2)

def receive (r : RedisReader) : List Text → Option (List RedisReply × RedisReader)
  | [] => some ([], r)
  | piece :: pieces =>
      (takeReplies (r.rest.length + piece.length + 1) (redisReaderFeed r piece).2).bind fun first =>
        (receive first.2 pieces).map fun later => (first.1 ++ later.1, later.2)

def Mood.Busy : Mood → Prop
  | .waiting rstack _ => ∃ cur below, rstack = cur :: below ∧ (cur.type ≠ none ∨ below ≠ [])
  | .failed _ => True
  | .stray => True

theorem moved_below {rstack below : List ReadTask} {cur : ReadTask}
    (moved : moveToNextTask rstack = some (cur :: below)) : below ≠ [] := by
  fun_induction moveToNextTask rstack with
  | case1 => cases moved
  | case2 => cases moved
  | case3 => cases moved
  | case4 _ _ _ _ _ ih => exact ih moved
  | case5 =>
    obtain ⟨-, rfl⟩ := by simpa using moved
    simp
  | case6 => cases moved

def Mood.Tells (after : Mood) (said : List RedisReply) : Prop :=
  said = [] ∧ after.Busy ∨ ∃ reply, said = [reply] ∧ after = .idle

theorem place?_tells (rstack : List ReadTask) (root : Option RedisReply) (obj : RedisReply) :
    (place? rstack root obj).1.Tells (place? rstack root obj).2 := by
  unfold place?
  split
  next reply rstack' written moved =>
    cases rstack' with
    | nil => exact .inr ⟨reply, rfl, rfl⟩
    | cons cur below => exact .inl ⟨rfl, cur, below, rfl, .inr (moved_below moved)⟩
  next => exact .inl ⟨rfl, trivial⟩

theorem handle_tells (cur : ReadTask) (below : List ReadTask) (root : Option RedisReply) (found : Item) :
    (handle cur below root found).1.Tells (handle cur below root found).2 := by
  cases found with
  | object obj => exact place?_tells _ _ _
  | opened elements =>
    unfold handle
    simp only
    split
    next => exact .inl ⟨rfl, trivial⟩
    next => exact .inl ⟨rfl, _, _, rfl, .inr (by simp)⟩

theorem typed_busy (cur : ReadTask) (below : List ReadTask) (root : Option RedisReply) (byte : Char) :
    (typed cur below root byte).Busy := by
  unfold typed
  split
  next => trivial
  next =>
    split
    next => trivial
    next => exact ⟨_, _, rfl, .inl nofun⟩

theorem bite_tells {mood after : Mood} {text : Text} {taken : Nat} {said : List RedisReply}
    (bitten : bite mood text = some (taken, after, said)) : after.Tells said := by
  unfold bite at bitten
  split at bitten
  next => simp at bitten
  next =>
    split at bitten
    next =>
      obtain ⟨byte, first, same⟩ := Option.map_eq_some_iff.mp bitten
      obtain ⟨-, rfl, rfl⟩ := by simpa using same
      exact .inl ⟨rfl, typed_busy _ _ _ _⟩
    next =>
      obtain ⟨read, found, same⟩ := Option.map_eq_some_iff.mp bitten
      obtain ⟨-, handled⟩ := Prod.mk.inj same
      have tells : (after, said).1.Tells (after, said).2 := handled ▸ handle_tells _ _ _ _
      exact tells
  all_goals
    obtain ⟨byte, first, same⟩ := Option.map_eq_some_iff.mp bitten
    obtain ⟨-, rfl, rfl⟩ := by simpa using same
    exact .inl ⟨rfl, trivial⟩

theorem replies_le (mood : Mood) (text : Text) : (eater.run mood text).1.length ≤ text.length := by
  refine Eater.run_said_le (fun bitten => ?_) mood text
  have positive := (bite_takes bitten).1
  rcases bite_tells bitten with ⟨rfl, -⟩ | ⟨reply, rfl, -⟩
  · exact Nat.zero_le _
  · exact positive

def Takes (r : RedisReader) : Option (List RedisReply × RedisReader) → Prop
  | some (replies, r') => eater.run r.mood r.rest = (replies, r'.mood, r'.rest) ∧ r'.Holds
  | none => (eater.run r.mood r.rest).2.1 = .stray

theorem takes_replies {turns : Nat} : ∀ {r : RedisReader}, r.Holds →
    (eater.run r.mood r.rest).1.length < turns → Takes r (takeReplies turns r) := by
  induction turns with
  | zero => exact fun _ enough => absurd enough (Nat.not_lt_zero _)
  | succ turns ih =>
    intro r holds enough
    have answers := answers_getReply holds
    unfold takeReplies
    cases got : redisReaderGetReply r with
    | none =>
      rw [got] at answers
      have stray : eater.run r.mood r.rest = ([], .stray, []) := by
        have leads : eater.Leads r.mood r.rest [] .stray [] := answers
        rw [leads, run_stray]; rfl
      exact congrArg (fun run => run.2.1) stray
    | some got' =>
      obtain ⟨status, reply, r'⟩ := got'
      rw [got] at answers
      obtain ⟨leads, holds', hungry, -⟩ := answers
      cases reply with
      | none =>
        refine ⟨?_, holds'⟩
        have stopped : eater.run r'.mood r'.rest = ([], r'.mood, r'.rest) := Eater.run_none (hungry rfl)
        rw [leads, stopped]; rfl
      | some reply =>
        have run : eater.run r.mood r.rest =
            (reply :: (eater.run r'.mood r'.rest).1, (eater.run r'.mood r'.rest).2) := leads
        have later := ih holds' (by rw [run, List.length_cons] at enough; omega)
        simp only
        cases taken : takeReplies turns r' with
        | none =>
          rw [taken] at later
          change (eater.run r.mood r.rest).2.1 = .stray
          rw [run]
          exact later
        | some taken' =>
          rw [taken] at later
          refine ⟨?_, later.2⟩
          rw [run, later.1]

theorem mood_feed (r : RedisReader) (piece : Text) : (redisReaderFeed r piece).2.mood = r.mood := by
  unfold redisReaderFeed
  split <;> rfl

theorem holds_feed {r : RedisReader} (holds : r.Holds) (piece : Text) :
    (redisReaderFeed r piece).2.Holds := by
  unfold redisReaderFeed
  split
  next => exact holds
  next fine =>
    have inside := holds.inside
    refine ⟨?_, holds.stacked, fun failed => absurd failed fine, holds.idle⟩
    simp only [List.length_append]
    omega

theorem rest_feed {r : RedisReader} (holds : r.Holds) (fine : r.err = none) (piece : Text) :
    (redisReaderFeed r piece).2.rest = r.rest ++ piece := by
  simp [redisReaderFeed, fine, RedisReader.rest, List.drop_append_of_le_length holds.inside]

-- A reader that has failed drops what comes; that is what the failed machine does with it.
theorem run_feed {r : RedisReader} (holds : r.Holds) (piece : Text) :
    eater.run (redisReaderFeed r piece).2.mood (redisReaderFeed r piece).2.rest =
      eater.run r.mood (r.rest ++ piece) := by
  rw [mood_feed]
  cases failed : r.err with
  | none => rw [rest_feed holds failed]
  | some err =>
    have mood : r.mood = .failed err := by simp [RedisReader.mood, failed]
    rw [mood, run_failed, run_failed]

theorem takes_piece {r : RedisReader} (holds : r.Holds) (piece : Text) :
    match takeReplies (r.rest.length + piece.length + 1) (redisReaderFeed r piece).2 with
    | some (replies, r') => eater.run r.mood (r.rest ++ piece) = (replies, r'.mood, r'.rest) ∧ r'.Holds
    | none => (eater.run r.mood (r.rest ++ piece)).2.1 = .stray := by
  have few : (eater.run (redisReaderFeed r piece).2.mood (redisReaderFeed r piece).2.rest).1.length <
      r.rest.length + piece.length + 1 := by
    rw [run_feed holds]
    have bound := replies_le r.mood (r.rest ++ piece)
    rw [List.length_append] at bound
    omega
  have takes := takes_replies (holds_feed holds piece) few
  cases taken : takeReplies (r.rest.length + piece.length + 1) (redisReaderFeed r piece).2 with
  | none => rw [taken] at takes; simpa only [Takes, run_feed holds] using takes
  | some taken' => rw [taken] at takes; simpa only [Takes, run_feed holds] using takes

theorem receive_spec {pieces : List Text} : ∀ {r : RedisReader}, r.Holds → bite r.mood r.rest = none →
    match receive r pieces with
    | some (replies, r') =>
        eater.run r.mood (r.rest ++ pieces.flatten) = (replies, r'.mood, r'.rest) ∧ r'.Holds
    | none => (eater.run r.mood (r.rest ++ pieces.flatten)).2.1 = .stray := by
  induction pieces with
  | nil =>
    intro r holds hungry
    have stopped : eater.run r.mood r.rest = ([], r.mood, r.rest) := Eater.run_none hungry
    exact ⟨by rw [List.flatten_nil, List.append_nil, stopped], holds⟩
  | cons piece pieces ih =>
    intro r holds _
    have takes := takes_piece holds piece
    have cut := @Eater.run_append _ _ _ eater r.mood (r.rest ++ piece) pieces.flatten
    unfold receive
    rw [List.flatten_cons, ← List.append_assoc, cut]
    cases taken : takeReplies (r.rest.length + piece.length + 1) (redisReaderFeed r piece).2 with
    | none =>
      rw [taken] at takes
      simp only [Option.bind_none]
      rw [takes, run_stray]
    | some first =>
      rw [taken] at takes
      obtain ⟨run, holds'⟩ := takes
      have hungry' := @Eater.run_hungry _ _ _ eater r.mood (r.rest ++ piece)
      rw [run] at hungry' ⊢
      have later := ih holds' hungry'
      simp only [Option.bind_some]
      cases rest : receive first.2 pieces with
      | none =>
        rw [rest] at later
        exact later
      | some rest' =>
        rw [rest] at later
        refine ⟨?_, later.2⟩
        simp only [later.1]

theorem receive_created (pieces : List Text) :
    match receive redisReaderCreate pieces with
    | some (replies, r') => eater.run .idle pieces.flatten = (replies, r'.mood, r'.rest) ∧ r'.Holds
    | none => (eater.run .idle pieces.flatten).2.1 = .stray :=
  receive_spec holds_create (bite_nil _)

theorem mood_ne_stray (r : RedisReader) : r.mood ≠ .stray := by
  unfold RedisReader.mood
  split
  next => nofun
  next =>
    split
    next => nofun
    next => nofun

-- What has been told, and the state that the reader is left in: its error or its stack and the reply in the
-- making, and what of the text it has not used.
def seen (received : Option (List RedisReply × RedisReader)) : Option (List RedisReply × Mood × Text) :=
  received.map fun taken => (taken.1, taken.2.mood, taken.2.rest)

theorem seen_receive (pieces : List Text) :
    seen (receive redisReaderCreate pieces) =
      match eater.run .idle pieces.flatten with
      | (_, .stray, _) => none
      | run => some run := by
  have spec := receive_created pieces
  cases got : receive redisReaderCreate pieces with
  | none =>
    rw [got] at spec
    generalize eater.run .idle pieces.flatten = run at spec
    obtain ⟨replies, mood, rest⟩ := run
    obtain rfl : mood = .stray := spec
    rfl
  | some taken =>
    rw [got] at spec
    rw [spec.1, seen, Option.map_some]
    split
    next same => exact absurd (Prod.mk.inj (Prod.mk.inj same).2).1 (mood_ne_stray _)
    next => rfl

def Mood.err : Mood → Option (ErrorType × Text)
  | .failed err => some err
  | _ => none

theorem mood_err (r : RedisReader) : r.mood.err = r.err := by
  unfold RedisReader.mood
  cases r.err with
  | none =>
    simp only
    split <;> rfl
  | some err => rfl

theorem leads_whole {value : Value} (fits : Fits 8 value) (more : Text) :
    eater.Leads .idle (value.wire ++ more) [reply value] .idle more :=
  leads_value fits rfl (by decide) more

theorem run_whole {value : Value} (fits : Fits 8 value) :
    eater.run .idle value.wire = ([reply value], .idle, []) := by
  have leads := leads_whole fits []
  rw [List.append_nil] at leads
  have stopped : eater.run .idle [] = ([], .idle, []) := Eater.run_none (bite_nil .idle)
  rw [leads, stopped]
  rfl

theorem idle_not_busy : ¬ Mood.idle.Busy := by
  rintro ⟨cur, below, same, open_⟩
  obtain ⟨rfl, rfl⟩ := List.cons.inj same
  simp [rootTask] at open_

theorem run_busy (mood : Mood) (text : Text) :
    (eater.run mood text).2.1 = mood ∨ (eater.run mood text).2.1 = .idle ∨ (eater.run mood text).2.1.Busy := by
  fun_induction Eater.run eater mood text with
  | case1 mood text hungry => exact .inl rfl
  | case2 mood text taken after said bitten room later ih =>
    rcases ih with same | done
    · rcases bite_tells bitten with ⟨-, busy⟩ | ⟨reply, -, idle⟩
      · exact .inr (.inr (same ▸ busy))
      · exact .inr (.inl (same.trans idle))
    · exact .inr done

theorem run_quiet {mood : Mood} {text : Text} (quiet : (eater.run mood text).1 = []) :
    (eater.run mood text).2.1 = mood ∧ (eater.run mood text).2.2 = text ∨ (eater.run mood text).2.1.Busy := by
  fun_induction Eater.run eater mood text with
  | case1 mood text hungry => exact .inl ⟨rfl, rfl⟩
  | case2 mood text taken after said bitten room later ih =>
    obtain ⟨silent, quiet⟩ := List.append_eq_nil_iff.mp quiet
    rcases bite_tells bitten with ⟨-, busy⟩ | ⟨reply, rfl, -⟩
    · rcases ih quiet with ⟨same, -⟩ | busy'
      · exact .inr (same ▸ busy)
      · exact .inr busy'
    · cases silent

-- No reply is told before its last character has come.
theorem run_part {value : Value} (fits : Fits 8 value) {front back : Text}
    (split : value.wire = front ++ back) (more : back ≠ []) :
    (eater.run .idle front).1 = [] ∧ ∃ rstack root, (eater.run .idle front).2.1 = .waiting rstack root := by
  have whole := run_whole fits
  have cut := @Eater.run_append _ _ _ eater .idle front back
  rw [← split, whole] at cut
  have hungry := @Eater.run_hungry _ _ _ eater .idle front
  have kinds := run_busy .idle front
  generalize eater.run .idle front = run at cut hungry kinds
  obtain ⟨said, mood, rest⟩ := run
  obtain ⟨told, after⟩ := Prod.mk.inj cut
  have final : (eater.run mood (rest ++ back)).2.1 = .idle := by rw [← after]
  have left : rest ++ back ≠ [] := by simp [more]
  refine ⟨show said = [] from ?_, ?_⟩
  · by_contra loud
    -- The rest would lead from one idle state to another without a word.
    have quiet : (eater.run mood (rest ++ back)).1 = [] := by
      have length := congrArg List.length told
      simp only [List.length_singleton, List.length_append] at length
      have some_ := List.length_pos_iff.mpr loud
      exact List.length_eq_zero_iff.mp (by omega)
    rcases run_quiet quiet with ⟨same, all⟩ | busy
    · have end_ : (eater.run mood (rest ++ back)).2.2 = [] := by rw [← after]
      exact left (all.symm.trans end_)
    · exact idle_not_busy (final ▸ busy)
  · cases mood with
    | waiting rstack root => exact ⟨rstack, root, rfl⟩
    | failed err => rw [run_failed] at final; cases final
    | stray => rw [run_stray] at final; cases final

end Hiredis

import RedisVfs.Wire.Items

set_option autoImplicit false

namespace Hiredis

open CString

theorem run_failed (err : ErrorType × Text) (text : Text) :
    eater.run (.failed err) text = ([], .failed err, []) := by
  induction text with
  | nil => exact Eater.run_none rfl
  | cons c text ih =>
    have bitten : eater.bite (.failed err) (c :: text) = some (1, .failed err, []) := rfl
    rw [Eater.run_some bitten, List.drop_one, List.tail_cons, ih]
    rfl

theorem run_stray (text : Text) : eater.run .stray text = ([], .stray, []) := by
  induction text with
  | nil => exact Eater.run_none rfl
  | cons c text ih =>
    have bitten : eater.bite .stray (c :: text) = some (1, .stray, []) := rfl
    rw [Eater.run_some bitten, List.drop_one, List.tail_cons, ih]
    rfl

theorem leads_failed (err : ErrorType × Text) (text rest : Text) :
    eater.Leads (.failed err) text [] (.failed err) rest := by
  unfold Eater.Leads
  rw [run_failed, run_failed]
  rfl

theorem leads_stray (text rest : Text) : eater.Leads .stray text [] .stray rest := by
  unfold Eater.Leads
  rw [run_stray, run_stray]
  rfl

-- The stacks that the reader comes to: an array is never the ninth task.
def Stacked (rstack : List ReadTask) : Prop :=
  rstack.length ≤ RSTACK_SIZE ∧ ∀ cur ∈ rstack.head?,
    cur.type ≠ some .REDIS_REPLY_NIL ∧
      (cur.type = some .REDIS_REPLY_ARRAY → rstack.length < RSTACK_SIZE)

theorem stacked_fresh {elements idx : Int} {below : List ReadTask}
    (room : below.length < RSTACK_SIZE) : Stacked ({ type := none, elements, idx } :: below) := by
  refine ⟨room, fun cur first => ?_⟩
  obtain rfl : ({ type := none, elements, idx } : ReadTask) = cur := by simpa using first
  exact ⟨nofun, nofun⟩

theorem stacked_typed {cur : ReadTask} {below : List ReadTask} {byte : Char} {type : ReplyType}
    (stacked : Stacked (cur :: below)) (isType : replyType byte = some type)
    (fits : ¬ (type = .REDIS_REPLY_ARRAY ∧ (cur :: below).length = RSTACK_SIZE)) :
    Stacked ({ cur with type := some type } :: below) := by
  have bound : (cur :: below).length ≤ RSTACK_SIZE := stacked.1
  refine ⟨bound, fun top isTop => ?_⟩
  obtain rfl : ({ cur with type := some type } : ReadTask) = top := by simpa using isTop
  refine ⟨?_, fun array => lt_of_le_of_ne bound fun full => fits ⟨by simpa using array, full⟩⟩
  rintro ⟨rfl⟩
  revert isType
  unfold replyType
  split_ifs <;> simp

theorem stacked_moved {rstack rstack' : List ReadTask} (room : rstack.length ≤ RSTACK_SIZE)
    (moved : moveToNextTask rstack = some rstack') : Stacked rstack' := by
  fun_induction moveToNextTask rstack with
  | case1 => cases moved; exact ⟨Nat.zero_le _, nofun⟩
  | case2 => cases moved; exact ⟨Nat.zero_le _, nofun⟩
  | case3 => cases moved
  | case4 cur prv below array last ih => exact ih (by simp only [List.length_cons] at room ⊢; omega) moved
  | case5 cur prv below array last inside =>
    cases moved
    exact stacked_fresh (by simp only [List.length_cons] at room ⊢; omega)
  | case6 => cases moved

structure RedisReader.Holds (r : RedisReader) : Prop where
  inside : r.pos ≤ r.buf.length
  stacked : Stacked r.rstack
  failed : r.err.isSome → r.buf = []
  idle : r.rstack = [] → r.reply = none

def RedisReader.mood (r : RedisReader) : Mood :=
  match r.err with
  | some err => .failed err
  | none => if r.rstack.isEmpty then .idle else .waiting r.rstack r.reply

def RedisReader.after (r : RedisReader) : Mood × List RedisReply :=
  match r.err with
  | some err => (.failed err, [])
  | none => settle r.reply r.rstack

theorem rest_length (r : RedisReader) : r.rest.length = r.buf.length - r.pos := List.length_drop

theorem rest_advance (r : RedisReader) (taken : Nat) :
    ({ r with pos := r.pos + taken } : RedisReader).rest = r.rest.drop taken := by
  simp [RedisReader.rest, List.drop_drop]

def RedisReader.accept (r : RedisReader) (cur : ReadTask) (below : List ReadTask) : Item → Processed
  | .object obj => r.emit obj
  | .opened elements =>
      match (createArrayObject elements).write (place r.rstack) r.reply with
      | none => .stray
      | some reply =>
          .REDIS_OK { r with
            reply := some reply
            rstack := { type := none, elements := -1, idx := 0 } :: { cur with elements } :: below }

theorem processTyped_eq {r : RedisReader} {cur : ReadTask} {below : List ReadTask} {type : ReplyType}
    (stack : r.rstack = cur :: below) (stacked : Stacked r.rstack) (inside : r.pos ≤ r.buf.length)
    (known : cur.type = some type) :
    processTyped r =
      match item type r.rest with
      | none => .REDIS_ERR r
      | some (taken, found) =>
          ({ r with pos := r.pos + taken } : RedisReader).accept cur below found := by
  obtain ⟨notNil, array⟩ := stacked.2 cur (by simp [stack])
  unfold processTyped item
  split
  next empty => simp [stack] at empty
  next cur' below' same =>
    obtain ⟨rfl, rfl⟩ := List.cons.inj (stack.symm.trans same)
    simp only [known]
    cases type with
    | REDIS_REPLY_NIL => exact absurd known notNil
    | REDIS_REPLY_STRING =>
      simp only [processBulkItem]
      cases seekNewline r.rest with
      | none => rfl
      | some s =>
        have fits : r.pos + (s + 2 + ((readLongLong r.rest).toNat + 2)) ≤ r.buf.length ↔
            s + 2 + ((readLongLong r.rest).toNat + 2) ≤ r.rest.length := by
          rw [rest_length]; omega
        simp only [Option.bind_some, fits]
        split
        next => rfl
        next => split <;> rfl
    | REDIS_REPLY_ARRAY =>
      simp only [processMultiBulkItem, if_neg (array known).ne, readLine, counted]
      cases seekNewline r.rest with
      | none => rfl
      | some s =>
        simp only [Option.map_some, Option.bind_some]
        split
        next => rfl
        next => split <;> rfl
    | _ =>
      simp only [processLineItem, readLine]
      cases seekNewline r.rest <;> rfl

def Waits (r r' : RedisReader) : Prop :=
  eater.Leads (.waiting r.rstack r.reply) r.rest [] r'.mood r'.rest ∧
    bite r'.mood r'.rest = none ∧ r'.Holds ∧ (r'.err = none → r'.rstack ≠ [])

def Follows (r : RedisReader) : Processed → Prop
  | .REDIS_OK r' =>
      eater.Leads (.waiting r.rstack r.reply) r.rest r'.after.2 r'.after.1 r'.rest ∧
        r'.err = none ∧ r'.reply.isSome ∧ r'.rest.length < r.rest.length ∧
          r'.pos ≤ r'.buf.length ∧ Stacked r'.rstack
  | .REDIS_ERR r' => Waits r r'
  | .stray => eater.Leads (.waiting r.rstack r.reply) r.rest [] .stray []

theorem accept_spec {r : RedisReader} {cur : ReadTask} {below : List ReadTask} {found : Item}
    (known : r.err = none) (stack : r.rstack = cur :: below) (room : r.rstack.length ≤ RSTACK_SIZE)
    (array : ∀ elements, found = .opened elements → r.rstack.length < RSTACK_SIZE) :
    match r.accept cur below found with
    | .REDIS_OK r' =>
        handle cur below r.reply found = r'.after ∧ r'.err = none ∧ r'.reply.isSome ∧
          r'.buf = r.buf ∧ r'.pos = r.pos ∧ Stacked r'.rstack
    | .REDIS_ERR _ => False
    | .stray => handle cur below r.reply found = (.stray, []) := by
  cases found with
  | object obj =>
    simp only [RedisReader.accept, RedisReader.emit, handle, place?, ← stack]
    cases obj.write (place r.rstack) r.reply with
    | none => rfl
    | some reply =>
      cases moved : moveToNextTask r.rstack with
      | none => rfl
      | some rstack =>
        refine ⟨?_, known, rfl, rfl, rfl, stacked_moved room moved⟩
        simp [RedisReader.after, known]
  | opened elements =>
    simp only [RedisReader.accept, handle, ← stack]
    cases (createArrayObject elements).write (place r.rstack) r.reply with
    | none => rfl
    | some reply =>
      have inner := array elements rfl
      refine ⟨?_, known, rfl, rfl, rfl, stacked_fresh ?_⟩
      · simp [RedisReader.after, known, settle]
      · rw [stack] at inner
        simpa using inner

theorem follows_typed {r : RedisReader} {cur : ReadTask} {below : List ReadTask} {type : ReplyType}
    (known : r.err = none) (stack : r.rstack = cur :: below) (stacked : Stacked r.rstack)
    (inside : r.pos ≤ r.buf.length) (set : cur.type = some type) : Follows r (processTyped r) := by
  have bites : bite (.waiting r.rstack r.reply) r.rest =
      (item type r.rest).map fun read => (read.1, handle cur below r.reply read.2) := by
    rw [stack]; simp [bite, set]
  rw [processTyped_eq stack stacked inside set]
  cases read : item type r.rest with
  | none =>
    have mood : r.mood = .waiting r.rstack r.reply := by simp [RedisReader.mood, known, stack]
    refine ⟨mood ▸ .refl _ _, ?_, ⟨inside, stacked, by simp [known], by simp [stack]⟩, by simp [stack]⟩
    rw [mood, bites, read, Option.map_none]
  | some read' =>
    obtain ⟨taken, found⟩ := read'
    have takes := item_takes read
    rw [read, Option.map_some] at bites
    have leads : eater.Leads (.waiting r.rstack r.reply) r.rest (handle cur below r.reply found).2
        (handle cur below r.reply found).1 (r.rest.drop taken) := leads_bite bites
    have rest : ({ r with pos := r.pos + taken } : RedisReader).rest = r.rest.drop taken :=
      rest_advance r taken
    have spec := @accept_spec { r with pos := r.pos + taken } cur below found known stack
      stacked.1 fun elements opened => by
        subst opened
        obtain rfl := array_of_opened read
        exact (stacked.2 cur (by simp [stack])).2 set
    change Follows r (({ r with pos := r.pos + taken } : RedisReader).accept cur below found)
    generalize ({ r with pos := r.pos + taken } : RedisReader).accept cur below found = accepted at spec
    cases accepted with
    | REDIS_OK r' =>
      obtain ⟨handled, known', made, buf, pos, stacked'⟩ := spec
      have left : r'.rest = r.rest.drop taken := by
        rw [← rest]; unfold RedisReader.rest; rw [buf, pos]
      refine ⟨?_, known', made, ?_, ?_, stacked'⟩
      · rw [left, ← handled]
        exact leads
      · rw [left, List.length_drop]; omega
      · rw [buf, pos]
        have length := rest_length r
        simp only
        omega
    | REDIS_ERR r' => exact spec.elim
    | stray =>
      have gone : handle cur below r.reply found = (.stray, []) := spec
      rw [gone] at leads
      exact leads.trans (leads_stray _ _)

theorem holds_error (r : RedisReader) (type : ErrorType) (str : Text) :
    (__redisReaderSetError r type str).Holds :=
  ⟨Nat.zero_le _, ⟨Nat.zero_le _, nofun⟩, fun _ => rfl, fun _ => rfl⟩

theorem Follows.of_leads {r₀ r : RedisReader}
    (leads : eater.Leads (.waiting r₀.rstack r₀.reply) r₀.rest [] (.waiting r.rstack r.reply) r.rest)
    (shorter : r.rest.length ≤ r₀.rest.length) {processed : Processed} (follows : Follows r processed) :
    Follows r₀ processed := by
  cases processed with
  | REDIS_OK r' =>
    obtain ⟨later, known, made, short, inside, stacked⟩ := follows
    exact ⟨leads.trans later, known, made, by omega, inside, stacked⟩
  | REDIS_ERR r' => exact ⟨leads.trans follows.1, follows.2⟩
  | stray => exact leads.trans follows

theorem follows_failed {r r' : RedisReader} {err : ErrorType × Text} {text : Text}
    (leads : eater.Leads (.waiting r.rstack r.reply) r.rest [] (.failed err) text)
    (err' : r'.err = some err) (rest : r'.rest = []) (holds : r'.Holds) : Follows r (.REDIS_ERR r') := by
  have mood : r'.mood = .failed err := by simp [RedisReader.mood, err']
  refine ⟨?_, ?_, holds, by simp [err']⟩
  · rw [mood, rest]
    exact leads.trans (leads_failed err text [])
  · rw [mood, rest]; rfl

theorem follows_item {r : RedisReader} {cur : ReadTask} {below : List ReadTask}
    (known : r.err = none) (stack : r.rstack = cur :: below) (stacked : Stacked r.rstack)
    (inside : r.pos ≤ r.buf.length) : Follows r (processItem r) := by
  unfold processItem
  split
  next empty => simp [stack] at empty
  next cur' below' same =>
    obtain ⟨rfl, rfl⟩ := List.cons.inj (stack.symm.trans same)
    split
    next unset =>
      have bites : bite (.waiting r.rstack r.reply) r.rest =
          r.rest.head?.map fun byte => (1, typed cur below r.reply byte, []) := by
        rw [stack]; simp [bite, unset]
      split
      next empty =>
        have mood : r.mood = .waiting r.rstack r.reply := by simp [RedisReader.mood, known, stack]
        refine ⟨mood ▸ .refl _ _, ?_, ⟨inside, stacked, by simp [known], by simp [stack]⟩, by simp [stack]⟩
        rw [mood, bites, empty]; rfl
      next byte text first =>
        rw [first, List.head?_cons, Option.map_some, ← first] at bites
        have leads : eater.Leads (.waiting r.rstack r.reply) r.rest [] (typed cur below r.reply byte)
            (r.rest.drop 1) := leads_bite bites
        split
        next unknown =>
          simp only [typed, unknown, protocolError] at leads
          exact follows_failed leads rfl rfl (holds_error _ _ _)
        next type isType =>
          simp only [typed, isType] at leads
          split at leads
          next deep =>
            obtain ⟨rfl, full⟩ := deep
            have refused : processTyped { r with
                pos := r.pos + 1
                rstack := { cur with type := some .REDIS_REPLY_ARRAY } :: below } =
                .REDIS_ERR (__redisReaderSetError { r with
                  pos := r.pos + 1
                  rstack := { cur with type := some .REDIS_REPLY_ARRAY } :: below } .REDIS_ERR_PROTOCOL
                    "No support for nested multi bulk replies with depth > 7".toList) :=
              if_pos full
            rw [refused]
            exact follows_failed leads rfl rfl (holds_error _ _ _)
          next fits =>
            have stacked' : Stacked ({ cur with type := some type } :: below) :=
              stacked_typed (stack ▸ stacked) isType fits
            have length := rest_length r
            have some_ : r.rest.length = text.length + 1 := by rw [first]; rfl
            have rest : ({ r with
                pos := r.pos + 1
                rstack := { cur with type := some type } :: below } : RedisReader).rest = r.rest.drop 1 :=
              rest_advance r 1
            refine (follows_typed (r := { r with
              pos := r.pos + 1
              rstack := { cur with type := some type } :: below }) known rfl stacked' ?_ rfl).of_leads ?_ ?_
            · simp only; omega
            · rw [rest]; exact leads
            · rw [rest, List.length_drop]; omega
    next set =>
      obtain ⟨type, set⟩ := Option.ne_none_iff_exists'.mp set
      exact follows_typed known stack stacked inside set

def Drives (r : RedisReader) : Option RedisReader → Prop
  | some r' =>
      (∃ reply, eater.Leads (.waiting r.rstack r.reply) r.rest [reply] .idle r'.rest ∧
        r'.reply = some reply ∧ r'.err = none ∧ r'.rstack = [] ∧ r'.pos ≤ r'.buf.length) ∨ Waits r r'
  | none => eater.Leads (.waiting r.rstack r.reply) r.rest [] .stray []

theorem Drives.of_leads {r₀ r : RedisReader}
    (leads : eater.Leads (.waiting r₀.rstack r₀.reply) r₀.rest [] (.waiting r.rstack r.reply) r.rest)
    {left : Option RedisReader} (drives : Drives r left) : Drives r₀ left := by
  cases left with
  | none => exact leads.trans drives
  | some r' =>
    rcases drives with ⟨reply, later, rest⟩ | ⟨later, rest⟩
    · exact .inl ⟨reply, leads.trans later, rest⟩
    · exact .inr ⟨leads.trans later, rest⟩

theorem processItems_empty (turns : Nat) {r : RedisReader} (empty : r.rstack = []) :
    processItems turns r = some r := by
  cases turns with
  | zero => rfl
  | succ turns => simp [processItems, empty]

theorem drives_items {turns : Nat} : ∀ {r : RedisReader}, r.err = none → r.rstack ≠ [] →
    Stacked r.rstack → r.pos ≤ r.buf.length → r.rest.length < turns → Drives r (processItems turns r) := by
  induction turns with
  | zero => exact fun _ _ _ _ enough => absurd enough (Nat.not_lt_zero _)
  | succ turns ih =>
    intro r known tasks stacked inside enough
    obtain ⟨cur, below, stack⟩ := List.exists_cons_of_ne_nil tasks
    have follows := follows_item known stack stacked inside
    have step : processItems (turns + 1) r =
        match processItem r with
        | .REDIS_OK r' => processItems turns r'
        | .REDIS_ERR r' => some r'
        | .stray => none := by
      rw [processItems]
      exact if_neg (by simp [tasks])
    rw [step]
    generalize processItem r = processed at follows
    cases processed with
    | REDIS_OK r' =>
      obtain ⟨leads, known', made, shorter, inside', stacked'⟩ := follows
      have after : r'.after = settle r'.reply r'.rstack := by simp [RedisReader.after, known']
      rw [after] at leads
      by_cases done : r'.rstack = []
      · obtain ⟨reply, isReply⟩ := Option.isSome_iff_exists.mp made
        rw [settle, done, isReply] at leads
        change Drives r (processItems turns r')
        rw [processItems_empty turns done]
        exact .inl ⟨reply, leads, isReply, known', done, inside'⟩
      · rw [settle, if_neg (by simp [done])] at leads
        exact (ih known' done stacked' inside' (by omega)).of_leads leads
    | REDIS_ERR r' => exact .inr follows
    | stray => exact follows

theorem sdsrange_rest (s : Text) (start : Nat) : sdsrange s start (-1) = s.drop start := by
  by_cases empty : s = []
  · simp [empty, sdsrange]
  · have positive : 0 < s.length := List.length_pos_iff.mpr empty
    have stop : max ((s.length : Int) + -1) 0 = s.length - 1 := by omega
    simp only [sdsrange, if_neg (show ¬ (s.length : Int) = 0 by omega),
      if_neg (show ¬ (start : Int) < 0 by omega), if_pos (show (-1 : Int) < 0 by decide), stop]
    split
    next beyond => rw [List.drop_of_length_le (by omega)]
    next =>
      have count : (min ((s.length : Int) - 1) (s.length - 1) - start + 1).toNat = s.length - start := by
        omega
      rw [count, Int.toNat_natCast, ← List.length_drop, List.take_length]

theorem holds_create : redisReaderCreate.Holds :=
  ⟨Nat.le_refl _, ⟨Nat.zero_le _, nofun⟩, fun _ => rfl, fun _ => rfl⟩

theorem discard_rest (r : RedisReader) : r.discard.rest = r.rest := by
  unfold RedisReader.discard
  split
  next => simp [RedisReader.rest, sdsrange_rest]
  next => rfl

theorem discard_inside {r : RedisReader} (inside : r.pos ≤ r.buf.length) :
    r.discard.pos ≤ r.discard.buf.length := by
  unfold RedisReader.discard
  split
  next => exact Nat.zero_le _
  next => exact inside

@[simp] theorem discard_err (r : RedisReader) : r.discard.err = r.err := by
  unfold RedisReader.discard; split <;> rfl

@[simp] theorem discard_rstack (r : RedisReader) : r.discard.rstack = r.rstack := by
  unfold RedisReader.discard; split <;> rfl

@[simp] theorem discard_reply (r : RedisReader) : r.discard.reply = r.reply := by
  unfold RedisReader.discard; split <;> rfl

theorem bite_nil (mood : Mood) : bite mood [] = none := by
  unfold bite
  split
  next => rfl
  next => split <;> rfl
  all_goals rfl

def Answers (r : RedisReader) : Option (Status × Option RedisReply × RedisReader) → Prop
  | some (status, reply, r') =>
      eater.Leads r.mood r.rest reply.toList r'.mood r'.rest ∧ r'.Holds ∧
        (reply = none → bite r'.mood r'.rest = none) ∧ (status = .REDIS_ERR ↔ r'.err.isSome)
  | none => eater.Leads r.mood r.rest [] .stray []

theorem begun_spec {r r₁ : RedisReader} (holds : r.Holds) (known : r.err = none)
    (begun : (if r.rstack.isEmpty then { r with rstack := [rootTask] } else r) = r₁) :
    r₁.rstack ≠ [] ∧ Stacked r₁.rstack ∧ r₁.err = none ∧ r₁.pos ≤ r₁.buf.length ∧ r₁.rest = r.rest ∧
      r.mood = .waiting r₁.rstack r₁.reply := by
  subst begun
  by_cases empty : r.rstack = []
  · have reply := holds.idle empty
    simp only [empty, List.isEmpty_nil, if_true]
    refine ⟨by simp, stacked_fresh (by decide), known, holds.inside, rfl, ?_⟩
    simp [RedisReader.mood, known, empty, reply, Mood.idle]
  · rw [if_neg (by simpa using empty)]
    exact ⟨empty, holds.stacked, known, holds.inside, rfl, by simp [RedisReader.mood, known, empty]⟩

theorem discard_mood (r : RedisReader) : r.discard.mood = r.mood := by simp [RedisReader.mood]

theorem RedisReader.Holds.discard {r : RedisReader} (holds : r.Holds) : r.discard.Holds where
  inside := discard_inside holds.inside
  stacked := by simpa using holds.stacked
  failed := fun failed => by
    have buf := holds.failed (by simpa using failed)
    unfold RedisReader.discard
    split
    next => simp [buf, sdsrange]
    next => exact buf
  idle := by simpa using holds.idle

theorem answers_getReply {r : RedisReader} (holds : r.Holds) : Answers r (redisReaderGetReply r) := by
  unfold redisReaderGetReply
  split
  next failed =>
    have rest : r.rest = [] := by simp [RedisReader.rest, holds.failed failed]
    refine ⟨.refl _ _, holds, fun _ => ?_, by simp [failed]⟩
    rw [rest, bite_nil]
  next fine =>
    have known : r.err = none := by simpa using fine
    split
    next empty =>
      have rest : r.rest = [] := by simp [RedisReader.rest, List.length_eq_zero_iff.mp empty]
      refine ⟨.refl _ _, holds, fun _ => ?_, by simp [known]⟩
      rw [rest, bite_nil]
    next =>
      generalize begun : (if r.rstack.isEmpty then { r with rstack := [rootTask] } else r) = r₁
      obtain ⟨tasks, stacked, known₁, inside, rest, mood⟩ := begun_spec holds known begun
      have drives := drives_items known₁ tasks stacked inside (Nat.lt_add_one _)
      simp only
      unfold Answers
      rw [mood, ← rest]
      generalize processItems (r₁.rest.length + 1) r₁ = left at drives
      cases left with
      | none => exact drives
      | some r₂ =>
        rcases drives with ⟨reply, leads, isReply, known₂, done, inside₂⟩ | ⟨leads, hungry, holds₂, more⟩
        · simp only [known₂, done, isReply, Option.isSome_none, Bool.false_eq_true, if_false,
            List.isEmpty_nil, if_true]
          have mood₂ : ({ r₂.discard with reply := none } : RedisReader).mood = .idle := by
            simp [RedisReader.mood, known₂, done]
          have rest₂ : ({ r₂.discard with reply := none } : RedisReader).rest = r₂.rest := discard_rest r₂
          refine ⟨?_, ⟨discard_inside inside₂, ?_, by simp [known₂], fun _ => rfl⟩, nofun, by simp [known₂]⟩
          · rw [mood₂, rest₂]; exact leads
          · simp only [discard_rstack, done]
            exact ⟨Nat.zero_le _, nofun⟩
        · by_cases failed : r₂.err.isSome
          · simp only [if_pos failed]
            exact ⟨leads, holds₂, fun _ => hungry, by simp [failed]⟩
          · have known₂ : r₂.err = none := by simpa using failed
            have tasks₂ : ¬ r₂.rstack.isEmpty := by simpa using more known₂
            simp only [if_neg failed, if_neg tasks₂]
            refine ⟨?_, holds₂.discard, fun _ => ?_, by simp [known₂]⟩
            · rw [discard_mood, discard_rest]; exact leads
            · rw [discard_mood, discard_rest]; exact hungry

end Hiredis

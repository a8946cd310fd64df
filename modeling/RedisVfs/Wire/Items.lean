import RedisVfs.Shared.Eater
import RedisVfs.Source.Reader

set_option autoImplicit false

namespace Hiredis

open CString

theorem seekNewline_cons {c : Char} {s : Text} (other : ¬ (c = '\r' ∧ s.head? = some '\n')) :
    seekNewline (c :: s) = (seekNewline s).map (· + 1) := by
  rw [seekNewline.eq_def]
  split
  next same =>
    obtain ⟨rfl, rfl⟩ := List.cons.inj same
    simp at other
  next same => rw [(List.cons.inj same).2]
  next same => simp at same

theorem seekNewline_append {s : Text} {len : Nat} (found : seekNewline s = some len) (more : Text) :
    seekNewline (s ++ more) = some len ∧ len + 2 ≤ s.length ∧ '\r' ∈ s := by
  induction s generalizing len with
  | nil => simp [seekNewline] at found
  | cons c s ih =>
    by_cases here : c = '\r' ∧ s.head? = some '\n'
    · obtain ⟨rfl, next⟩ := here
      obtain ⟨s, rfl⟩ : ∃ s', s = '\n' :: s' := by
        cases s with
        | nil => simp at next
        | cons c s => exact ⟨s, by simpa using next⟩
      obtain rfl : 0 = len := by simpa [seekNewline] using found
      simp [seekNewline]
    · rw [seekNewline_cons here] at found
      obtain ⟨later, tail, rfl⟩ := Option.map_eq_some_iff.mp found
      obtain ⟨same, room, member⟩ := ih tail
      have here' : ¬ (c = '\r' ∧ (s ++ more).head? = some '\n') := by
        cases s with
        | nil => simp at member
        | cons c s => simpa using here
      refine ⟨?_, ?_, List.mem_cons_of_mem _ member⟩
      · rw [List.cons_append, seekNewline_cons here', same]; rfl
      · simp only [List.length_cons]; omega

theorem readDigits_append {s : Text} (ends : '\r' ∈ s) (v : Int) (more : Text) :
    readDigits v (s ++ more) = readDigits v s := by
  induction s generalizing v with
  | nil => simp at ends
  | cons c s ih =>
    simp only [List.cons_append, readDigits]
    split
    next => rfl
    next other =>
      rw [ih (List.mem_of_ne_of_mem (Ne.symm other) ends)]

theorem readLongLong_append {s : Text} (ends : '\r' ∈ s) (more : Text) :
    readLongLong (s ++ more) = readLongLong s := by
  cases s with
  | nil => simp at ends
  | cons c s =>
    have tail (other : c ≠ '\r') (v : Int) : readDigits v (s ++ more) = readDigits v s :=
      readDigits_append (List.mem_of_ne_of_mem (Ne.symm other) ends) v more
    have whole : readDigits 0 (c :: s ++ more) = readDigits 0 (c :: s) := readDigits_append ends 0 more
    unfold readLongLong
    by_cases minus : c = '-'
    · subst minus
      simp only [List.cons_append, tail (by decide)]
    · by_cases plus : c = '+'
      · subst plus
        simp only [List.cons_append, tail (by decide)]
      · split <;> split <;> simp_all

inductive Item where
  | object (r : RedisReply)
  | opened (elements : Int)

def counted (count : Int) : Item :=
  if count = -1 then .object .nil
  else if count > 0 then .opened (toInt count)
  else .object (createArrayObject (toInt count))

def item (type : ReplyType) (text : Text) : Option (Nat × Item) :=
  (seekNewline text).bind fun len =>
    match type with
    | .REDIS_REPLY_INTEGER => some (len + 2, .object (.integer (readLongLong text)))
    | .REDIS_REPLY_STRING =>
        let length := readLongLong text
        if length < 0 then some (len + 2, .object .nil)
        else if len + 2 + (length.toNat + 2) ≤ text.length then
          some (len + 2 + (length.toNat + 2),
            .object (createStringObject .REDIS_REPLY_STRING ((text.drop (len + 2)).take length.toNat)))
        else none
    | .REDIS_REPLY_ARRAY => some (len + 2, counted (readLongLong text))
    | type => some (len + 2, .object (createStringObject type (text.take len)))

theorem item_takes {type : ReplyType} {text : Text} {taken : Nat} {found : Item}
    (read : item type text = some (taken, found)) : 0 < taken ∧ taken ≤ text.length := by
  obtain ⟨len, line, read⟩ := Option.bind_eq_some_iff.mp read
  have room := (seekNewline_append line []).2.1
  cases type <;> simp only [Option.some.injEq, Prod.mk.injEq] at read
  case REDIS_REPLY_STRING =>
    split at read
    · obtain ⟨rfl, -⟩ := by simpa using read
      omega
    · split at read
      · obtain ⟨rfl, -⟩ := by simpa using read
        omega
      · simp at read
  all_goals
    obtain ⟨rfl, -⟩ := read
    omega

theorem item_append {type : ReplyType} {text : Text} {read : Nat × Item}
    (found : item type text = some read) (more : Text) : item type (text ++ more) = some read := by
  obtain ⟨len, line, found⟩ := Option.bind_eq_some_iff.mp found
  obtain ⟨line', room, ends⟩ := seekNewline_append line more
  unfold item
  rw [line', Option.bind_some, readLongLong_append ends]
  cases type
  case REDIS_REPLY_STRING =>
    simp only at found ⊢
    split at found
    next negative => rw [if_pos negative, found]
    next positive =>
      rw [if_neg positive]
      split at found
      next fits =>
        have enough : (readLongLong text).toNat ≤ (text.drop (len + 2)).length := by
          rw [List.length_drop]; omega
        rw [if_pos (by rw [List.length_append]; omega),
          List.drop_append_of_le_length (by omega), List.take_append_of_le_length enough, found]
      next => simp at found
  case REDIS_REPLY_INTEGER => exact found
  case REDIS_REPLY_ARRAY => exact found
  all_goals
    rw [List.take_append_of_le_length (by omega)]
    exact found

theorem array_of_opened {type : ReplyType} {text : Text} {taken : Nat} {elements : Int}
    (found : item type text = some (taken, .opened elements)) : type = .REDIS_REPLY_ARRAY := by
  obtain ⟨len, line, found⟩ := Option.bind_eq_some_iff.mp found
  cases type
  case REDIS_REPLY_ARRAY => rfl
  case REDIS_REPLY_STRING =>
    simp only at found
    split at found
    · simp at found
    · split at found <;> simp at found
  all_goals simp at found

-- What a reader knows when it waits for more, or that it has come to an end.
inductive Mood where
  | waiting (rstack : List ReadTask) (reply : Option RedisReply)
  | failed (err : ErrorType × Text)
  | stray

def Mood.idle : Mood := .waiting [rootTask] none

def settle (reply : Option RedisReply) (rstack : List ReadTask) : Mood × List RedisReply :=
  if rstack.isEmpty then (.idle, reply.toList) else (.waiting rstack reply, [])

def place? (rstack : List ReadTask) (reply : Option RedisReply) (obj : RedisReply) :
    Mood × List RedisReply :=
  match obj.write (place rstack) reply, moveToNextTask rstack with
  | some reply, some rstack => settle reply rstack
  | _, _ => (.stray, [])

def handle (cur : ReadTask) (below : List ReadTask) (reply : Option RedisReply) :
    Item → Mood × List RedisReply
  | .object obj => place? (cur :: below) reply obj
  | .opened elements =>
      match (createArrayObject elements).write (place (cur :: below)) reply with
      | none => (.stray, [])
      | some reply =>
          (.waiting ({ type := none, elements := -1, idx := 0 } :: { cur with elements } :: below) reply, [])

def protocolError (message : Text) : Mood := .failed (.REDIS_ERR_PROTOCOL, message.take (ERRSTR_SIZE - 1))

def typed (cur : ReadTask) (below : List ReadTask) (reply : Option RedisReply) (byte : Char) : Mood :=
  match replyType byte with
  | none => protocolError ("Protocol error, got ".toList ++ chrtos byte ++ " as reply type byte".toList)
  | some type =>
      if type = .REDIS_REPLY_ARRAY ∧ (cur :: below).length = RSTACK_SIZE then
        protocolError "No support for nested multi bulk replies with depth > 7".toList
      else .waiting ({ cur with type := some type } :: below) reply

def bite : Mood → Text → Option (Nat × Mood × List RedisReply)
  | .waiting [] _, _ => none
  | .waiting (cur :: below) reply, text =>
      match cur.type with
      | none => text.head?.map fun byte => (1, typed cur below reply byte, [])
      | some type => (item type text).map fun read => (read.1, handle cur below reply read.2)
  | .failed err, text => text.head?.map fun _ => (1, .failed err, [])
  | .stray, text => text.head?.map fun _ => (1, .stray, [])

theorem head_append {c : Char} {text : Text} (first : text.head? = some c) (more : Text) :
    (text ++ more).head? = some c := by
  rw [List.head?_append, first, Option.some_or]

theorem one_le_length {c : Char} {text : Text} (first : text.head? = some c) : 1 ≤ text.length :=
  List.length_pos_iff.mpr fun empty => by simp [empty] at first

theorem bite_takes {mood after : Mood} {text : Text} {taken : Nat} {said : List RedisReply}
    (bitten : bite mood text = some (taken, after, said)) : 0 < taken ∧ taken ≤ text.length := by
  unfold bite at bitten
  split at bitten
  next => simp at bitten
  next =>
    split at bitten
    next =>
      obtain ⟨byte, first, same⟩ := Option.map_eq_some_iff.mp bitten
      obtain ⟨rfl, -⟩ := Prod.mk.inj same
      exact ⟨Nat.one_pos, one_le_length first⟩
    next =>
      obtain ⟨read, found, same⟩ := Option.map_eq_some_iff.mp bitten
      obtain ⟨rfl, -⟩ := Prod.mk.inj same
      exact item_takes found
  all_goals
    obtain ⟨byte, first, same⟩ := Option.map_eq_some_iff.mp bitten
    obtain ⟨rfl, -⟩ := Prod.mk.inj same
    exact ⟨Nat.one_pos, one_le_length first⟩

theorem bite_append {mood : Mood} {text : Text} {bitten : Nat × Mood × List RedisReply}
    (found : bite mood text = some bitten) (more : Text) : bite mood (text ++ more) = some bitten := by
  unfold bite at found ⊢
  split at found
  next => simp at found
  next =>
    split at found
    next =>
      obtain ⟨byte, first, same⟩ := Option.map_eq_some_iff.mp found
      rw [head_append first, Option.map_some, same]
    next =>
      obtain ⟨read, found, same⟩ := Option.map_eq_some_iff.mp found
      rw [item_append found, Option.map_some, same]
  all_goals
    obtain ⟨byte, first, same⟩ := Option.map_eq_some_iff.mp found
    rw [head_append first, Option.map_some, same]

def eater : Eater Char Mood RedisReply where
  bite := bite
  takes := bite_takes
  steady := bite_append

theorem leads_bite {mood after : Mood} {text : Text} {taken : Nat} {said : List RedisReply}
    (bitten : bite mood text = some (taken, after, said)) :
    eater.Leads mood text said after (text.drop taken) := .bite bitten

end Hiredis

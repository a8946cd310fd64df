import Mathlib.Data.List.Infix
import RedisVfs.Wire.Pieces

set_option autoImplicit false

namespace Hiredis

open CString Resp

inductive Nested : Nat → Value → Prop
  | bulk (room : Nat) (text : Text) : Nested room (.bulk text)
  | simple (room : Nat) (text : Text) : Nested room (.simple text)
  | error (room : Nat) (text : Text) : Nested room (.error text)
  | integer (room : Nat) (value : Int) : Nested room (.integer value)
  | nil (room : Nat) : Nested room .nil
  | array {room : Nat} {items : List Value} (each : ∀ item ∈ items, Nested room item) :
      Nested (room + 1) (.array items)

-- A reply in the making: each array on the way to the task has its first items, as many as the index of
-- the task in it says, and NULL behind them.
inductive Built : List ReadTask → Option RedisReply → Prop
  | root (cur : ReadTask) : Built [cur] none
  | slot {child cur : ReadTask} {below : List ReadTask} {root : Option RedisReply} {begun : RedisReply}
      {done : List Value} {total : Nat} (outer : Built (cur :: below) root)
      (array : cur.type = some .REDIS_REPLY_ARRAY) (count : cur.elements = total)
      (open_ : done.length < total) (here : child.idx = done.length)
      (nested : ∀ value ∈ done, Nested (RSTACK_SIZE - (below.length + 2)) value)
      (written : (RedisReply.array total (replies done ++ List.replicate (total - done.length) none)).write
        (place (cur :: below)) root = some begun) : Built (child :: cur :: below) (some begun)

theorem Built.task {cur cur' : ReadTask} {below : List ReadTask} {root : Option RedisReply}
    (built : Built (cur :: below) root) (same : cur'.idx = cur.idx) : Built (cur' :: below) root := by
  cases built with
  | root => exact .root cur'
  | slot outer array count open_ here nested written =>
    exact .slot outer array count open_ (same.trans here) nested written

theorem replies_length (items : List Value) : (replies items).length = items.length := by
  rw [replies_eq_map, List.length_map]

theorem replies_concat (items : List Value) (item : Value) :
    replies (items ++ [item]) = replies items ++ [some (reply item)] := by
  simp [replies_eq_map]

theorem replicate_open {n total : Nat} (open_ : n < total) :
    List.replicate (total - n) (none : Option RedisReply) =
      none :: List.replicate (total - (n + 1)) none := by
  have more : total - n = total - (n + 1) + 1 := by omega
  rw [more, List.replicate_succ]

theorem Built.write {rstack : List ReadTask} {root : Option RedisReply} (built : Built rstack root)
    (obj : RedisReply) : (obj.write (place rstack) root).isSome := by
  cases built with
  | root cur => rfl
  | @slot child cur below root begun done total outer array count open_ here nested written =>
    rw [replicate_open open_] at written
    rw [write_slot written (by rw [here, replies_length]),
      write_isSome _ _ _ (.array total (replies done ++ none :: List.replicate (total - (done.length + 1)) none)),
      written, Option.isSome_some]

def Mood.Goes (mood : Mood) (said : List RedisReply) : Prop :=
  (∃ value, Nested 8 value ∧ said = [reply value] ∧ mood = .idle) ∨
    ∃ cur below root, mood = .waiting (cur :: below) root ∧ said = [] ∧ cur.type = none ∧
      Built (cur :: below) root ∧ (cur :: below).length ≤ RSTACK_SIZE

theorem Built.goes {rstack : List ReadTask} {root : Option RedisReply} (built : Built rstack root)
    (bound : rstack.length ≤ RSTACK_SIZE) :
    ∀ {value : Value}, Nested (RSTACK_SIZE - rstack.length) value →
      (place? rstack root (reply value)).1.Goes (place? rstack root (reply value)).2 := by
  induction built with
  | root cur =>
    intro value nested
    exact .inl ⟨value, nested, rfl, rfl⟩
  | @slot child cur below root begun done total outer array count open_ here nested written ih =>
    intro value fits
    rw [replicate_open open_] at written
    have here' : child.idx = (replies done).length := by rw [here, replies_length]
    have all : ∀ item ∈ done ++ [value], Nested (RSTACK_SIZE - (below.length + 2)) item := by
      intro item member
      rcases List.mem_append.mp member with earlier | last
      · exact nested item earlier
      · obtain rfl := List.mem_singleton.mp last
        exact fits
    by_cases last : done.length + 1 = total
    · rw [place?_last array count written here' (by rw [replies_length]; exact last)]
      have none_left : total - (done.length + 1) = 0 := by omega
      have whole : (RedisReply.array total (replies done ++ some (reply value) ::
          List.replicate (total - (done.length + 1)) none)) = reply (.array (done ++ [value])) := by
        rw [none_left, reply, replies_concat, List.length_append, List.length_singleton, last]
        rfl
      rw [whole]
      apply ih (Nat.le_of_succ_le bound)
      have room : RSTACK_SIZE - (cur :: below).length = RSTACK_SIZE - (below.length + 2) + 1 := by
        simp only [List.length_cons] at bound ⊢
        omega
      rw [room]
      exact .array all
    · obtain ⟨begun', written', next⟩ := place?_next array count written here'
        (by rw [replies_length]; omega) (reply value)
      rw [next]
      refine .inr ⟨_, _, _, rfl, rfl, rfl,
        @Built.slot _ _ _ _ _ (done ++ [value]) _ outer array count ?_ ?_ ?_ ?_, bound⟩
      · simp only [List.length_append, List.length_singleton]; omega
      · simp [replies_length]
      · exact all
      · rw [replies_concat, List.length_append, List.append_assoc]
        exact written'

def Mood.count? : Mood → Text → Option Int
  | .waiting (cur :: _) _, text =>
      if cur.type = some .REDIS_REPLY_ARRAY then some (readLongLong text) else none
  | _, _ => none

-- A number of elements that an `int` can hold, or the -1 of a nil.
def CountFits (mood : Mood) (text : Text) : Prop :=
  ∀ count ∈ mood.count? text, -1 ≤ count ∧ count < 2 ^ 31

instance (mood : Mood) (text : Text) : Decidable (CountFits mood text) :=
  inferInstanceAs (Decidable (∀ _ ∈ _, _))

-- Each head of an array that the reader comes to in the text has such a number.
def CountsFit (text : Text) : Prop :=
  ∀ point ∈ eater.points text.length .idle text, CountFits point.1 point.2

instance (text : Text) : Decidable (CountsFit text) := inferInstanceAs (Decidable (∀ _ ∈ _, _))

def Mood.Sound : Mood → Prop
  | .waiting rstack root => Built rstack root ∧ Stacked rstack
  | .failed _ => True
  | .stray => False

theorem sound_idle : Mood.idle.Sound := ⟨.root rootTask, stacked_fresh (by decide)⟩

theorem Mood.Goes.sound {mood : Mood} {said : List RedisReply} (goes : mood.Goes said) :
    mood.Sound ∧ ∀ r ∈ said, ∃ value, Nested 8 value ∧ r = reply value := by
  rcases goes with ⟨value, nested, rfl, rfl⟩ | ⟨cur, below, root, rfl, rfl, fresh, built, room⟩
  · exact ⟨sound_idle, fun r member => ⟨value, nested, by simpa using member⟩⟩
  · refine ⟨⟨built, room, fun top first => ?_⟩, nofun⟩
    obtain rfl : cur = top := by simpa using first
    rw [fresh]
    exact ⟨nofun, nofun⟩

section Sound

variable {cur : ReadTask} {below : List ReadTask} {root : Option RedisReply} {text : Text}

theorem sound_typed (sound : (Mood.waiting (cur :: below) root).Sound) (byte : Char) :
    (typed cur below root byte).Sound := by
  obtain ⟨built, stacked⟩ := sound
  unfold typed
  split
  next => trivial
  next type isType =>
    split
    next => trivial
    next fits => exact ⟨built.task rfl, stacked_typed stacked isType fits⟩

theorem object_value {type : ReplyType} {room taken : Nat} {obj : RedisReply}
    (notNil : type ≠ .REDIS_REPLY_NIL)
    (deep : type = .REDIS_REPLY_ARRAY → 0 < room ∧ -1 ≤ readLongLong text)
    (read : item type text = some (taken, .object obj)) :
    ∃ value, Nested room value ∧ obj = reply value := by
  obtain ⟨len, -, read⟩ := Option.bind_eq_some_iff.mp read
  cases type with
  | REDIS_REPLY_NIL => exact absurd rfl notNil
  | REDIS_REPLY_STRING =>
    simp only at read
    split_ifs at read
    · obtain ⟨-, rfl⟩ := by simpa using read
      exact ⟨.nil, .nil room, rfl⟩
    · obtain ⟨-, rfl⟩ := by simpa using read
      exact ⟨.bulk _, .bulk room _, rfl⟩
  | REDIS_REPLY_INTEGER =>
    obtain ⟨-, rfl⟩ := by simpa using read
    exact ⟨.integer _, .integer room _, rfl⟩
  | REDIS_REPLY_STATUS =>
    obtain ⟨-, rfl⟩ := by simpa using read
    exact ⟨.simple _, .simple room _, rfl⟩
  | REDIS_REPLY_ERROR =>
    obtain ⟨-, rfl⟩ := by simpa using read
    exact ⟨.error _, .error room _, rfl⟩
  | REDIS_REPLY_ARRAY =>
    obtain ⟨-, same⟩ := by simpa using read
    obtain ⟨positive, low⟩ := deep rfl
    obtain ⟨room, rfl⟩ := Nat.exists_eq_succ_of_ne_zero positive.ne'
    unfold counted at same
    split_ifs at same with nil more
    · obtain rfl := by simpa using same
      exact ⟨.nil, .nil _, rfl⟩
    · have zero : readLongLong text = 0 := by omega
      rw [zero] at same
      obtain rfl := by simpa using same
      exact ⟨.array [], .array (by simp), rfl⟩

theorem sound_opened (built : Built (cur :: below) root) (array : cur.type = some .REDIS_REPLY_ARRAY)
    (room : (cur :: below).length < RSTACK_SIZE) {total : Nat} (some_ : 0 < total) (few : total < 2 ^ 31) :
    (handle cur below root (.opened total)).1.Sound ∧ (handle cur below root (.opened total)).2 = [] := by
  have made : createArrayObject total = .array total (replies [] ++ List.replicate (total - 0) none) := by
    rw [createArrayObject, unsigned_count few, Int.toNat_natCast, Nat.sub_zero]
    rfl
  obtain ⟨begun, written⟩ := Option.isSome_iff_exists.mp (built.write (createArrayObject total))
  have opened : handle cur below root (.opened total) =
      (.waiting ({ type := none, elements := -1, idx := 0 } :: { cur with elements := total } :: below)
        (some begun), []) := by
    simp only [handle, written]
  rw [opened]
  refine ⟨⟨?_, stacked_fresh (by simpa using room)⟩, rfl⟩
  refine @Built.slot _ _ _ _ _ [] total (built.task rfl) array rfl some_ rfl (List.forall_mem_nil _) ?_
  rw [@place_task cur { cur with elements := (total : Int) } rfl, ← written, made]
  rfl

theorem sound_item (sound : (Mood.waiting (cur :: below) root).Sound)
    (fits : CountFits (.waiting (cur :: below) root) text) {type : ReplyType} (known : cur.type = some type)
    {taken : Nat} {found : Item} (read : item type text = some (taken, found)) :
    (handle cur below root found).1.Sound ∧
      ∀ r ∈ (handle cur below root found).2, ∃ value, Nested 8 value ∧ r = reply value := by
  obtain ⟨built, stacked⟩ := sound
  obtain ⟨notNil, shallow⟩ := stacked.2 cur rfl
  have counts (array : type = .REDIS_REPLY_ARRAY) : -1 ≤ readLongLong text ∧ readLongLong text < 2 ^ 31 :=
    fits _ (if_pos (known.trans (array ▸ rfl)))
  have inner (array : type = .REDIS_REPLY_ARRAY) : (cur :: below).length < RSTACK_SIZE :=
    shallow (known.trans (array ▸ rfl))
  cases found with
  | object obj =>
    obtain ⟨value, nested, rfl⟩ := @object_value text type (RSTACK_SIZE - (cur :: below).length) _ _
      (fun same => notNil (known.trans (same ▸ rfl)))
      (fun array => ⟨Nat.sub_pos_of_lt (inner array), (counts array).1⟩) read
    exact (built.goes stacked.1 nested).sound
  | opened elements =>
    obtain rfl := array_of_opened read
    obtain ⟨len, -, read⟩ := Option.bind_eq_some_iff.mp read
    obtain ⟨-, opened⟩ := by simpa using read
    have high := (counts rfl).2
    unfold counted at opened
    split_ifs at opened with nil more
    obtain rfl := by simpa using opened
    obtain ⟨total, count⟩ := Int.eq_ofNat_of_zero_le more.le
    rw [count] at more high ⊢
    rw [toInt_of_le (by omega)]
    obtain ⟨sound, silent⟩ := sound_opened built known (inner rfl) (Int.natCast_pos.mp more) (by omega)
    exact ⟨sound, by rw [silent]; nofun⟩

end Sound

theorem sound_bite {mood after : Mood} {text : Text} {taken : Nat} {said : List RedisReply}
    (sound : mood.Sound) (fits : CountFits mood text) (bitten : bite mood text = some (taken, after, said)) :
    after.Sound ∧ ∀ r ∈ said, ∃ value, Nested 8 value ∧ r = reply value := by
  unfold bite at bitten
  split at bitten
  next => simp at bitten
  next cur below root =>
    split at bitten
    next unset =>
      obtain ⟨byte, first, same⟩ := Option.map_eq_some_iff.mp bitten
      obtain ⟨rfl, rfl, rfl⟩ := by simpa using same
      exact ⟨sound_typed sound byte, nofun⟩
    next type known =>
      obtain ⟨⟨taken, found⟩, read, same⟩ := Option.map_eq_some_iff.mp bitten
      obtain ⟨rfl, handled⟩ := Prod.mk.inj same
      obtain ⟨rfl, rfl⟩ := Prod.mk.inj handled
      exact sound_item sound fits known read
  next =>
    obtain ⟨byte, first, same⟩ := Option.map_eq_some_iff.mp bitten
    obtain ⟨rfl, rfl, rfl⟩ := by simpa using same
    exact ⟨trivial, nofun⟩
  next => exact sound.elim

theorem sound_run {text : Text} (fit : CountsFit text) :
    (eater.run .idle text).2.1.Sound ∧
      ∀ r ∈ (eater.run .idle text).1, ∃ value, Nested 8 value ∧ r = reply value :=
  @Eater.run_induction _ _ _ eater Mood.Sound _ CountFits sound_bite .idle text _ le_rfl sound_idle fit

end Hiredis

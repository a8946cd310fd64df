import RedisVfs.Shared.Resp
import RedisVfs.Wire.Replies

set_option autoImplicit false

namespace Hiredis

open CString Resp

-- The values that the client can take: arrays in as many others at most, and numbers in range.
inductive Fits : Nat → Value → Prop
  | bulk {room : Nat} {text : Text} (short : (text.length : Int) ≤ LONG_MAX) : Fits room (.bulk text)
  | simple {room : Nat} {text : Text} (line : ¬ crlf <:+: text) : Fits room (.simple text)
  | error {room : Nat} {text : Text} (line : ¬ crlf <:+: text) : Fits room (.error text)
  | integer {room : Nat} {value : Int} (low : -LONG_MAX ≤ value) (high : value ≤ LONG_MAX) :
      Fits room (.integer value)
  | nil {room : Nat} : Fits room .nil
  | nilArray {room : Nat} : Fits (room + 1) .nilArray
  | array {room : Nat} {items : List Value} (few : items.length < 2 ^ 31)
      (each : ∀ item ∈ items, Fits room item) : Fits (room + 1) (.array items)

mutual

def reply : Value → RedisReply
  | .bulk text => .string text
  | .simple text => .status text
  | .error text => .error text
  | .integer value => .integer value
  | .nil => .nil
  | .nilArray => .nil
  | .array items => .array items.length (replies items)

def replies : List Value → List (Option RedisReply)
  | [] => []
  | item :: items => some (reply item) :: replies items

end

theorem replies_eq_map (items : List Value) : replies items = items.map fun item => some (reply item) := by
  induction items with
  | nil => rfl
  | cons item items ih => rw [replies, ih, List.map_cons]

theorem seekNewline_line {text : Text} (line : ¬ crlf <:+: text) (more : Text) :
    seekNewline (text ++ crlf ++ more) = some text.length := by
  induction text with
  | nil => rfl
  | cons c text ih =>
    have later : ¬ crlf <:+: text := fun inner => line (inner.trans (List.suffix_cons c text).isInfix)
    have other : ¬ (c = '\r' ∧ (text ++ crlf ++ more).head? = some '\n') := by
      rintro ⟨rfl, next⟩
      cases text with
      | nil => simp [crlf] at next
      | cons d text =>
        obtain rfl : d = '\n' := by simpa using next
        exact line (List.prefix_append crlf text).isInfix
    rw [List.cons_append, List.cons_append, seekNewline_cons other, ih later]
    rfl

theorem line_of_no_return {text : Text} (free : '\r' ∉ text) : ¬ crlf <:+: text :=
  fun inner => free (inner.subset (by simp [crlf]))

theorem printLd_no_return (value : Int) : '\r' ∉ printLd value := by
  have digits (n : Nat) : '\r' ∉ decimal n := fun member =>
    absurd (decimal_digits n _ member) (by decide)
  unfold printLd
  split <;> simp [digits]

theorem wrapLong_of_le {value : Int} (low : LONG_MIN ≤ value) (high : value ≤ LONG_MAX) :
    wrapLong value = value := by
  unfold wrapLong LONG_MIN LONG_MAX at *
  omega

theorem le_ofDigitChars (digits : Text) (n : Nat) : n ≤ Nat.ofDigitChars 10 digits n := by
  induction digits generalizing n with
  | nil => simp
  | cons c digits ih =>
    rw [Nat.ofDigitChars_cons]
    exact le_trans (by omega) (ih _)

theorem readDigits_line {digits : Text} (all : ∀ c ∈ digits, c.isDigit = true) (more : Text) :
    ∀ {n : Nat}, (Nat.ofDigitChars 10 digits n : Int) ≤ LONG_MAX →
      readDigits n (digits ++ '\r' :: more) = some (Nat.ofDigitChars 10 digits n : Nat) := by
  induction digits with
  | nil => intro n _; simp [readDigits]
  | cons c digits ih =>
    intro n high
    have digit := all c List.mem_cons_self
    have notReturn : c ≠ '\r' := by rintro rfl; revert digit; decide
    have low : '0'.toNat ≤ c.toNat := by
      simp only [Char.isDigit, Bool.and_eq_true, decide_eq_true_eq] at digit
      exact digit.1
    rw [Nat.ofDigitChars_cons] at high ⊢
    have bound := le_ofDigitChars digits (10 * n + (c.toNat - '0'.toNat))
    have value : wrapLong ((n : Int) * 10 + ((c.toNat : Int) - '0'.toNat)) =
        (10 * n + (c.toNat - '0'.toNat) : Nat) := by
      rw [wrapLong_of_le] <;> unfold LONG_MIN LONG_MAX at * <;> omega
    have later := ih (fun d member => all d (List.mem_cons_of_mem _ member)) high
    rw [List.cons_append, readDigits, if_neg notReturn, if_pos digit, value, later]

theorem readLongLong_printLd {value : Int} (low : -LONG_MAX ≤ value) (high : value ≤ LONG_MAX)
    (more : Text) : readLongLong (printLd value ++ crlf ++ more) = value := by
  have digits {n : Nat} (bound : (n : Int) ≤ LONG_MAX) :
      readDigits 0 (decimal n ++ crlf ++ more) = some (n : Int) := by
    have read := readDigits_line (decimal_digits n) ('\n' :: more) (n := 0)
      (by rwa [decimal, Nat.ofDigitChars_ten_toDigits])
    rw [decimal, Nat.ofDigitChars_ten_toDigits] at read
    simpa [crlf, decimal] using read
  unfold printLd
  split
  next negative =>
    have minus : readLongLong ('-' :: decimal (-value).toNat ++ crlf ++ more) =
        ((readDigits 0 (decimal (-value).toNat ++ crlf ++ more)).map fun v => wrapLong (-1 * v)).getD (-1) :=
      rfl
    rw [minus, digits (by omega), Option.map_some, Option.getD_some, wrapLong_of_le] <;>
      unfold LONG_MIN LONG_MAX at * <;> omega
  next positive =>
    cases text : decimal value.toNat with
    | nil => exact absurd text Nat.toDigits_ne_nil
    | cons c rest =>
      obtain ⟨-, notMinus, notPlus⟩ := digit_not_sign (decimal_digits value.toNat c (by simp [text]))
      have plain : readLongLong (c :: rest ++ crlf ++ more) =
          (readDigits 0 (c :: rest ++ crlf ++ more)).getD (-1) := by
        unfold readLongLong
        split
        next same => exact absurd (List.cons.inj same).1 notMinus
        next same => exact absurd (List.cons.inj same).1 notPlus
        next => rfl
      rw [plain, ← text, digits (by omega), Option.getD_some]
      omega

theorem header_line (value : Int) (more : Text) :
    seekNewline (printLd value ++ crlf ++ more) = some (printLd value).length :=
  seekNewline_line (line_of_no_return (printLd_no_return value)) more

theorem length_crlf (text : Text) : (text ++ crlf).length = text.length + 2 := by simp [crlf]

theorem item_array {count : Int} (low : -LONG_MAX ≤ count) (high : count ≤ LONG_MAX) (more : Text) :
    item .REDIS_REPLY_ARRAY (printLd count ++ crlf ++ more) =
      some ((printLd count ++ crlf).length, counted count) := by
  rw [item, header_line, Option.bind_some, readLongLong_printLd low high, length_crlf]

theorem item_integer {value : Int} (low : -LONG_MAX ≤ value) (high : value ≤ LONG_MAX) (more : Text) :
    item .REDIS_REPLY_INTEGER (printLd value ++ crlf ++ more) =
      some ((printLd value ++ crlf).length, .object (.integer value)) := by
  rw [item, header_line, Option.bind_some, readLongLong_printLd low high, length_crlf]

theorem item_nil (more : Text) :
    item .REDIS_REPLY_STRING (printLd (-1) ++ crlf ++ more) =
      some ((printLd (-1) ++ crlf).length, .object .nil) := by
  rw [item, header_line, Option.bind_some, readLongLong_printLd (by decide) (by decide), length_crlf]
  rfl

theorem item_bulk {text : Text} (short : (text.length : Int) ≤ LONG_MAX) (more : Text) :
    item .REDIS_REPLY_STRING (printLd text.length ++ crlf ++ (text ++ crlf ++ more)) =
      some ((printLd text.length ++ crlf ++ (text ++ crlf)).length, .object (.string text)) := by
  have behind : (printLd text.length ++ crlf ++ (text ++ crlf ++ more)).drop
      ((printLd text.length).length + 2) = text ++ crlf ++ more := by
    rw [List.drop_left' (length_crlf _)]
  have room : (printLd text.length).length + 2 + (text.length + 2) ≤
      (printLd text.length ++ crlf ++ (text ++ crlf ++ more)).length := by
    simp only [List.length_append, crlf, List.length_cons, List.length_nil]
    omega
  have taken : (text ++ crlf ++ more).take text.length = text := by
    rw [List.append_assoc, List.take_left]
  rw [item, header_line, Option.bind_some, readLongLong_printLd (by unfold LONG_MAX; omega) short]
  simp only [Int.toNat_natCast, if_neg (show ¬ (text.length : Int) < 0 by omega), behind, taken, room,
    if_true, createStringObject]
  rw [List.length_append, length_crlf, length_crlf]

theorem item_line {text : Text} (line : ¬ crlf <:+: text) {type : ReplyType}
    (status : type = .REDIS_REPLY_STATUS ∨ type = .REDIS_REPLY_ERROR) (more : Text) :
    item type (text ++ crlf ++ more) =
      some ((text ++ crlf).length, .object (createStringObject type text)) := by
  have taken : (text ++ crlf ++ more).take text.length = text := by
    rw [List.append_assoc, List.take_left]
  rw [item, seekNewline_line line, Option.bind_some, taken, length_crlf]
  rcases status with rfl | rfl <;> rfl

theorem write_isSome (path : List Int) (slot : Option RedisReply) (a b : RedisReply) :
    (a.write path slot).isSome = (b.write path slot).isSome := by
  induction path generalizing slot with
  | nil => rfl
  | cons idx path ih =>
    match slot with
    | some (.array elements element) =>
      simp only [RedisReply.write]
      cases element[idx.toNat]? with
      | none => rfl
      | some inner => simpa using ih inner
    | none => rfl
    | some (.string _) => rfl
    | some (.integer _) => rfl
    | some .nil => rfl
    | some (.status _) => rfl
    | some (.error _) => rfl

-- A write below an array that was just written is a write of the changed array.
theorem write_write {path : List Int} {slot : Option RedisReply} {root : RedisReply} {elements : Nat}
    {element : List (Option RedisReply)} {idx : Nat} (inside : idx < element.length) (obj : RedisReply)
    (written : (RedisReply.array elements element).write path slot = some root) :
    obj.write (path ++ [(idx : Int)]) (some root) =
      (RedisReply.array elements (element.set idx (some obj))).write path slot := by
  induction path generalizing slot root with
  | nil =>
    obtain rfl := Option.some.inj written
    simp [RedisReply.write, List.getElem?_eq_getElem inside]
  | cons i path ih =>
    match slot with
    | some (.array outer slots) =>
      simp only [RedisReply.write] at written ⊢
      cases inner : slots[i.toNat]? with
      | none => simp [inner] at written
      | some slot =>
        have bound : i.toNat < slots.length := (List.getElem?_eq_some_iff.mp inner).1
        simp only [inner] at written ⊢
        obtain ⟨below, written', rfl⟩ := Option.map_eq_some_iff.mp written
        rw [← ih written']
        simp [RedisReply.write, bound]
    | none => simp [RedisReply.write] at written
    | some (.string _) => simp [RedisReply.write] at written
    | some (.integer _) => simp [RedisReply.write] at written
    | some .nil => simp [RedisReply.write] at written
    | some (.status _) => simp [RedisReply.write] at written
    | some (.error _) => simp [RedisReply.write] at written

theorem place_cons (child cur : ReadTask) (below : List ReadTask) :
    place (child :: cur :: below) = place (cur :: below) ++ [child.idx] := by
  simp [place]

theorem place_task {cur cur' : ReadTask} (same : cur'.idx = cur.idx) (below : List ReadTask) :
    place (cur' :: below) = place (cur :: below) := by
  cases below with
  | nil => rfl
  | cons prv below => rw [place_cons, place_cons, same]

theorem place?_task {cur cur' : ReadTask} (same : cur'.idx = cur.idx) (below : List ReadTask)
    (root : Option RedisReply) (obj : RedisReply) :
    place? (cur' :: below) root obj = place? (cur :: below) root obj := by
  unfold place?
  rw [place_task same]
  cases below with
  | nil => rfl
  | cons prv below => simp only [moveToNextTask, same]

theorem toInt_of_le {count : Nat} (few : count < 2 ^ 31) : toInt count = count := by
  unfold toInt
  omega

theorem unsigned_count {count : Nat} (few : count < 2 ^ 31) : unsigned count = count :=
  unsigned_natCast (by unfold LONG_MAX; omega)

section Value

variable {cur : ReadTask} {below : List ReadTask} {root : Option RedisReply}

theorem leads_typed {byte : Char} {type : ReplyType} (unset : cur.type = none)
    (isType : replyType byte = some type)
    (fits : ¬ (type = .REDIS_REPLY_ARRAY ∧ (cur :: below).length = RSTACK_SIZE)) (text : Text) :
    eater.Leads (.waiting (cur :: below) root) (byte :: text) []
      (.waiting ({ cur with type := some type } :: below) root) text := by
  have bitten : bite (.waiting (cur :: below) root) (byte :: text) =
      some (1, .waiting ({ cur with type := some type } :: below) root, []) := by
    simp only [bite, unset, List.head?_cons, Option.map_some, typed, isType, if_neg fits]
  exact leads_bite bitten

theorem leads_item {type : ReplyType} {body : Text} {found : Item} (set : cur.type = some type)
    (read : ∀ more, item type (body ++ more) = some (body.length, found)) (more : Text) :
    eater.Leads (.waiting (cur :: below) root) (body ++ more) (handle cur below root found).2
      (handle cur below root found).1 more := by
  have bitten : bite (.waiting (cur :: below) root) (body ++ more) =
      some (body.length, handle cur below root found) := by
    simp only [bite, set, read more, Option.map_some]
  have leads := leads_bite bitten
  rwa [List.drop_left] at leads

theorem leads_leaf {byte : Char} {type : ReplyType} {body : Text} {obj : RedisReply}
    (unset : cur.type = none) (isType : replyType byte = some type)
    (fits : ¬ (type = .REDIS_REPLY_ARRAY ∧ (cur :: below).length = RSTACK_SIZE))
    (read : ∀ more, item type (body ++ more) = some (body.length, .object obj)) (more : Text) :
    eater.Leads (.waiting (cur :: below) root) (byte :: body ++ more) (place? (cur :: below) root obj).2
      (place? (cur :: below) root obj).1 more := by
  have same : place? ({ cur with type := some type } :: below) root obj = place? (cur :: below) root obj :=
    @place?_task cur { cur with type := some type } rfl below root obj
  rw [← same]
  exact (leads_typed unset isType fits (body ++ more)).trans (leads_item rfl read more)

theorem set_next {A : Type} (front : List A) (old new : A) (back : List A) :
    (front ++ old :: back).set front.length new = front ++ new :: back := by
  simp [List.set_append_right]

section Slot

variable {total : Nat} {front back : List (Option RedisReply)} {begun : RedisReply} {child : ReadTask}

theorem write_slot (written : (RedisReply.array total (front ++ none :: back)).write (place (cur :: below)) root =
      some begun) (here : child.idx = front.length) (obj : RedisReply) :
    obj.write (place (child :: cur :: below)) (some begun) =
      (RedisReply.array total (front ++ some obj :: back)).write (place (cur :: below)) root := by
  have inside : front.length < (front ++ none :: back).length := by
    rw [List.length_append, List.length_cons]; omega
  rw [place_cons, here, write_write inside obj written, set_next]

theorem place?_last (array : cur.type = some .REDIS_REPLY_ARRAY) (count : cur.elements = total)
    (written : (RedisReply.array total (front ++ none :: back)).write (place (cur :: below)) root = some begun)
    (here : child.idx = front.length) (last : front.length + 1 = total) (obj : RedisReply) :
    place? (child :: cur :: below) (some begun) obj =
      place? (cur :: below) root (.array total (front ++ some obj :: back)) := by
  have moved : moveToNextTask (child :: cur :: below) = moveToNextTask (cur :: below) := by
    have end_ : child.idx = cur.elements - 1 := by omega
    simp [moveToNextTask, array, end_]
  simp only [place?, write_slot written here obj, moved]

theorem place?_next (array : cur.type = some .REDIS_REPLY_ARRAY) (count : cur.elements = total)
    (written : (RedisReply.array total (front ++ none :: back)).write (place (cur :: below)) root = some begun)
    (here : child.idx = front.length) (more : front.length + 1 < total) (obj : RedisReply) :
    ∃ begun', (RedisReply.array total (front ++ some obj :: back)).write (place (cur :: below)) root =
        some begun' ∧
      place? (child :: cur :: below) (some begun) obj =
        (.waiting ({ type := none, elements := -1, idx := front.length + 1 } :: cur :: below) (some begun'),
          []) := by
  have made := write_isSome (place (cur :: below)) root (.array total (front ++ none :: back))
    (.array total (front ++ some obj :: back))
  rw [written, Option.isSome_some, eq_comm, Option.isSome_iff_exists] at made
  obtain ⟨begun', written'⟩ := made
  have moved : moveToNextTask (child :: cur :: below) =
      some ({ type := none, elements := -1, idx := front.length + 1 } :: cur :: below) := by
    have before : ¬ (front.length : Int) = cur.elements - 1 ∧ (front.length : Int) < cur.elements := by omega
    simp [moveToNextTask, array, here, before]
  refine ⟨begun', written', ?_⟩
  simp only [place?, write_slot written here obj, written', moved]
  rfl

end Slot

theorem leads_items {items : List Value} {total : Nat} (array : cur.type = some .REDIS_REPLY_ARRAY)
    (count : cur.elements = total)
    (each : ∀ item ∈ items, ∀ (child : ReadTask) (root : RedisReply) (more : Text), child.type = none →
      eater.Leads (.waiting (child :: cur :: below) (some root)) (item.wire ++ more)
        (place? (child :: cur :: below) (some root) (reply item)).2
        (place? (child :: cur :: below) (some root) (reply item)).1 more) :
    ∀ {done : List (Option RedisReply)} {begun : RedisReply}, done.length + items.length = total →
      items ≠ [] →
      (RedisReply.array total (done ++ List.replicate items.length none)).write (place (cur :: below)) root =
          some begun →
        ∀ more, eater.Leads
          (.waiting ({ type := none, elements := -1, idx := done.length } :: cur :: below) (some begun))
          (Value.wires items ++ more) (place? (cur :: below) root (.array total (done ++ replies items))).2
          (place? (cur :: below) root (.array total (done ++ replies items))).1 more := by
  induction items with
  | nil => exact fun _ nonempty => absurd rfl nonempty
  | cons item items ih =>
    intro done begun length _ written more
    have leads := each item List.mem_cons_self { type := none, elements := -1, idx := done.length } begun
      (Value.wires items ++ more) rfl
    rw [Value.wires, List.append_assoc]
    rw [List.length_cons, List.replicate_succ] at written
    cases items with
    | nil =>
      rw [place?_last array count written rfl (by simpa using length)] at leads
      exact leads
    | cons other items =>
      have before : done.length + 1 < total := by
        simp only [List.length_cons] at length
        omega
      obtain ⟨begun', written', next⟩ := @place?_next cur below root total done _ begun
        { type := none, elements := -1, idx := done.length } array count written rfl before (reply item)
      rw [next] at leads
      have later := @ih (fun item member => each item (List.mem_cons_of_mem _ member))
        (done ++ [some (reply item)]) begun' (by simp at length ⊢; omega) (by simp) (by simpa using written')
        more
      rw [List.length_append, List.append_assoc] at later
      exact leads.trans later

theorem leads_opened {items : List Value} (array : cur.type = some .REDIS_REPLY_ARRAY)
    (few : items.length < 2 ^ 31) (nonempty : items ≠ [])
    (each : ∀ item ∈ items, ∀ (cur child : ReadTask) (root : RedisReply) (more : Text), child.type = none →
      eater.Leads (.waiting (child :: cur :: below) (some root)) (item.wire ++ more)
        (place? (child :: cur :: below) (some root) (reply item)).2
        (place? (child :: cur :: below) (some root) (reply item)).1 more) (more : Text) :
    (handle cur below root (.opened items.length)).2 = [] ∧
      eater.Leads (handle cur below root (.opened items.length)).1 (Value.wires items ++ more)
        (place? (cur :: below) root (reply (.array items))).2
        (place? (cur :: below) root (reply (.array items))).1 more := by
  have made : createArrayObject items.length =
      .array items.length ([] ++ List.replicate items.length none) := by
    rw [createArrayObject, unsigned_count few, Int.toNat_natCast, List.nil_append]
  have exists_ := write_isSome (place (cur :: below)) root (createArrayObject items.length)
    (reply (.array items))
  cases written : (createArrayObject items.length).write (place (cur :: below)) root with
  | none =>
    rw [written, Option.isSome_none, eq_comm, Option.isSome_eq_false_iff, Option.isNone_iff_eq_none]
      at exists_
    have gone : handle cur below root (.opened items.length) = (.stray, []) := by
      simp only [handle, written]
    have gone' : place? (cur :: below) root (reply (.array items)) = (.stray, []) := by
      simp only [place?, exists_]
    rw [gone, gone']
    exact ⟨rfl, leads_stray _ _⟩
  | some begun =>
    have head : handle cur below root (.opened items.length) =
        (.waiting ({ type := none, elements := -1, idx := 0 } :: { cur with elements := items.length } :: below)
          (some begun), []) := by
      simp only [handle, written]
    rw [made] at written
    have opened : place ({ cur with elements := items.length } :: below) = place (cur :: below) :=
      @place_task cur { cur with elements := items.length } rfl below
    rw [← opened] at written
    have leads := @leads_items { cur with elements := items.length } below root items items.length array rfl
      (fun item member child => each item member _ child) [] begun (by simp) nonempty written more
    rw [@place?_task cur { cur with elements := items.length } rfl below root] at leads
    rw [head]
    exact ⟨rfl, leads⟩

end Value

-- A value is consumed as one object, whatever comes behind it.
theorem leads_value {value : Value} {room : Nat} (fits : Fits room value) :
    ∀ {cur : ReadTask} {below : List ReadTask} {root : Option RedisReply}, cur.type = none →
      (cur :: below).length + room ≤ RSTACK_SIZE → ∀ more,
        eater.Leads (.waiting (cur :: below) root) (value.wire ++ more)
          (place? (cur :: below) root (reply value)).2 (place? (cur :: below) root (reply value)).1 more := by
  have notArray {type : ReplyType} (other : type ≠ .REDIS_REPLY_ARRAY) (rstack : List ReadTask) :
      ¬ (type = .REDIS_REPLY_ARRAY ∧ rstack.length = RSTACK_SIZE) := fun deep => other deep.1
  have shallow {type : ReplyType} {rstack : List ReadTask} {room : Nat}
      (bound : rstack.length + (room + 1) ≤ RSTACK_SIZE) :
      ¬ (type = .REDIS_REPLY_ARRAY ∧ rstack.length = RSTACK_SIZE) := fun deep => by omega
  induction fits with
  | @bulk room text short =>
    intro cur below root unset _ more
    have read (more : Text) : item .REDIS_REPLY_STRING (printLd text.length ++ crlf ++ (text ++ crlf) ++ more) =
        some ((printLd text.length ++ crlf ++ (text ++ crlf)).length, .object (.string text)) := by
      simpa only [List.append_assoc] using item_bulk short more
    have wire : (Value.bulk text).wire ++ more =
        '$' :: (printLd text.length ++ crlf ++ (text ++ crlf)) ++ more := by
      simp [Value.wire, header]
    rw [wire]
    exact leads_leaf unset (by decide) (notArray (by decide) _) read more
  | @simple room text line =>
    intro cur below root unset _ more
    exact leads_leaf unset (by decide : replyType '+' = some .REDIS_REPLY_STATUS) (notArray (by decide) _)
      (item_line line (.inl rfl)) more
  | @error room text line =>
    intro cur below root unset _ more
    exact leads_leaf unset (by decide : replyType '-' = some .REDIS_REPLY_ERROR) (notArray (by decide) _)
      (item_line line (.inr rfl)) more
  | @integer room value low high =>
    intro cur below root unset _ more
    exact leads_leaf unset (by decide : replyType ':' = some .REDIS_REPLY_INTEGER) (notArray (by decide) _)
      (item_integer low high) more
  | nil =>
    intro cur below root unset _ more
    exact leads_leaf unset (by decide : replyType '$' = some .REDIS_REPLY_STRING) (notArray (by decide) _)
      item_nil more
  | nilArray =>
    intro cur below root unset bound more
    exact leads_leaf unset (by decide : replyType '*' = some .REDIS_REPLY_ARRAY) (shallow bound)
      (item_array (by decide) (by decide)) more
  | @array room items few each ih =>
    intro cur below root unset bound more
    have read (more : Text) := @item_array items.length (by unfold LONG_MAX; omega)
      (by unfold LONG_MAX; omega) more
    cases items with
    | nil =>
      have wire : (Value.array []).wire = header '*' 0 := by simp [Value.wire, Value.wires]
      rw [wire]
      exact leads_leaf unset (by decide) (shallow bound) read more
    | cons first items =>
      -- The head opens the array, and its items come one after the other into their slots.
      have object : counted (first :: items).length = .opened (first :: items).length := by
        rw [counted, if_neg (by omega), if_pos (by simp), toInt_of_le few]
      have wire : (Value.array (first :: items)).wire ++ more =
          '*' :: ((printLd (first :: items).length ++ crlf) ++ (Value.wires (first :: items) ++ more)) := by
        simp [Value.wire, header]
      have star : replyType '*' = some .REDIS_REPLY_ARRAY := by decide
      have head := @leads_item { cur with type := some .REDIS_REPLY_ARRAY } below root _ _ _ rfl read
        (Value.wires (first :: items) ++ more)
      obtain ⟨silent, rest⟩ := @leads_opened { cur with type := some .REDIS_REPLY_ARRAY } below root
        (first :: items) rfl few (by simp) (fun item member cur child root more unset =>
          ih item member unset (by simp only [List.length_cons] at bound ⊢; omega) more) more
      rw [object, silent] at head
      rw [@place?_task cur { cur with type := some .REDIS_REPLY_ARRAY } rfl below root] at rest
      rw [wire]
      exact (leads_typed unset star (shallow bound) _).trans (head.trans rest)

end Hiredis

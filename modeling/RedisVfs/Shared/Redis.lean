import Mathlib.Data.List.Nodup
import RedisVfs.Shared.CString

set_option autoImplicit false

namespace Redis

open CString

variable {K F : Type}

/-- An atomic map of strings, lists and hashes. A list or a hash without elements is an absent key. -/
@[ext] structure Store (K F : Type) where
  strings : K → Option Text
  lists : K → List Text
  hashes : K → List (F × Text)

inductive Command (K F : Type) where
  | get (key : K)
  | set (key : K) (value : Text)
  | incr (key : K)
  | existsKey (key : K)
  | lpush (key : K) (element : Text)
  | lrem (key : K) (element : Text)
  | lrange (key : K)
  | hset (key : K) (field : F) (value : Text)
  | hmset (key : K) (values : List (F × Text))
  | hget (key : K) (field : F)
  | flushall
  deriving DecidableEq

inductive Reply where
  | nil
  | status
  | error
  | integer (value : Int)
  | string (value : Text)
  | array (elements : List Text)
  deriving DecidableEq

/-- `reply->str` of a bulk reply; NULL for nil. No caller looks at the text of a status or an error. -/
def Reply.str : Reply → Option Text
  | .string value => some value
  | _ => none

def Reply.elements : Reply → List Text
  | .array elements => elements
  | _ => []

def Store.empty : Store K F := ⟨fun _ => none, fun _ => [], fun _ => []⟩

namespace Store

variable [DecidableEq K]

def setString (store : Store K F) (key : K) (value : Text) : Store K F :=
  { store with strings := Function.update store.strings key (some value) }

def setList (store : Store K F) (key : K) (elements : List Text) : Store K F :=
  { store with lists := Function.update store.lists key elements }

def setHash (store : Store K F) (key : K) (values : List (F × Text)) : Store K F :=
  { store with hashes := Function.update store.hashes key values }

def has (store : Store K F) (key : K) : Bool :=
  (store.strings key).isSome || !(store.lists key).isEmpty || !(store.hashes key).isEmpty

@[simp] theorem setString_lists (store : Store K F) (key : K) (value : Text) :
    (store.setString key value).lists = store.lists := rfl

@[simp] theorem setString_hashes (store : Store K F) (key : K) (value : Text) :
    (store.setString key value).hashes = store.hashes := rfl

@[simp] theorem setString_strings (store : Store K F) (key : K) (value : Text) :
    (store.setString key value).strings = Function.update store.strings key (some value) := rfl

@[simp] theorem setList_strings (store : Store K F) (key : K) (elements : List Text) :
    (store.setList key elements).strings = store.strings := rfl

@[simp] theorem setList_hashes (store : Store K F) (key : K) (elements : List Text) :
    (store.setList key elements).hashes = store.hashes := rfl

@[simp] theorem setList_lists (store : Store K F) (key : K) (elements : List Text) :
    (store.setList key elements).lists = Function.update store.lists key elements := rfl

@[simp] theorem setHash_strings (store : Store K F) (key : K) (values : List (F × Text)) :
    (store.setHash key values).strings = store.strings := rfl

@[simp] theorem setHash_lists (store : Store K F) (key : K) (values : List (F × Text)) :
    (store.setHash key values).lists = store.lists := rfl

@[simp] theorem setHash_hashes (store : Store K F) (key : K) (values : List (F × Text)) :
    (store.setHash key values).hashes = Function.update store.hashes key values := rfl

end Store

variable [DecidableEq K] [DecidableEq F]

def setField (field : F) (value : Text) : List (F × Text) → List (F × Text)
  | [] => [(field, value)]
  | (name, old) :: rest =>
      if name = field then (field, value) :: rest else (name, old) :: setField field value rest

def setFields (hash : List (F × Text)) (values : List (F × Text)) : List (F × Text) :=
  values.foldl (fun hash entry => setField entry.1 entry.2 hash) hash

/-- Only the canonical numeral of a 64-bit integer is a value INCR works on. -/
def parseInteger (text : Text) : Option Int :=
  let value := strtol text
  if printLd value = text then some value else none

def execute (store : Store K F) : Command K F → Reply × Store K F
  | .get key => (match store.strings key with | some value => .string value | none => .nil, store)
  | .set key value => (.status, store.setString key value)
  | .incr key =>
      match parseInteger ((store.strings key).getD (printLd 0)) with
      | some value =>
          if value < LONG_MAX then (.integer (value + 1), store.setString key (printLd (value + 1)))
          else (.error, store)
      | none => (.error, store)
  | .existsKey key => (.integer (if store.has key then 1 else 0), store)
  | .lpush key element =>
      (.integer ((store.lists key).length + 1), store.setList key (element :: store.lists key))
  | .lrem key element =>
      (.integer ((store.lists key).count element),
        store.setList key ((store.lists key).filter (· ≠ element)))
  | .lrange key => (.array (store.lists key), store)
  | .hset key field value =>
      (.integer (if ((store.hashes key).lookup field).isSome then 0 else 1),
        store.setHash key (setField field value (store.hashes key)))
  | .hmset key values => (.status, store.setHash key (setFields (store.hashes key) values))
  | .hget key field =>
      (match (store.hashes key).lookup field with | some value => .string value | none => .nil, store)
  | .flushall => (.status, .empty)

def Store.LosesOnly (store after : Store K F) (key : K) (element : Text) : Prop :=
  ∃ front back, store.lists key = front ++ element :: back ∧ element ∉ front ++ back ∧
    after = store.setList key (front ++ back)

theorem losesOnly_lrem {store : Store K F} {key : K} {element : Text}
    (nodup : (store.lists key).Nodup) (member : element ∈ store.lists key) :
    store.LosesOnly (execute store (.lrem key element)).2 key element := by
  obtain ⟨front, back, split⟩ := List.append_of_mem member
  rw [split, List.nodup_middle, List.nodup_cons] at nodup
  have kept (other : Text) (there : other ∈ front ++ back) : other ≠ element := by
    rintro rfl
    exact nodup.1 there
  have rest : (store.lists key).filter (· ≠ element) = front ++ back := by
    rw [split, List.filter_append, List.filter_cons_of_neg (by simp), ← List.filter_append]
    exact List.filter_eq_self.mpr fun other there => by simpa using kept other there
  refine ⟨front, back, split, nodup.1, ?_⟩
  rw [execute, rest]

omit [DecidableEq F] in
theorem Store.LosesOnly.unique {store after : Store K F} {key key' : K} {element element' : Text}
    (loses : store.LosesOnly after key element) (loses' : store.LosesOnly after key' element') :
    key = key' ∧ element = element' := by
  obtain ⟨front, back, split, gone, rfl⟩ := loses
  obtain ⟨front', back', split', gone', same⟩ := loses'
  have lists := congrArg Store.lists same
  simp only [setList_lists] at lists
  by_cases keys : key = key'
  · subst keys
    refine ⟨rfl, by_contra fun differ => ?_⟩
    have rest : front ++ back = front' ++ back' := Function.update_injective _ key lists
    rw [split] at split'
    have there : element' ∈ front ++ element :: back := by rw [split']; simp
    have still : element' ∈ front ++ back := by
      simpa [Ne.symm differ] using there
    exact gone' (rest ▸ still)
  · have here := congrFun lists key'
    rw [Function.update_of_ne (Ne.symm keys), Function.update_self, split'] at here
    have longer := congrArg List.length here
    simp at longer

omit [DecidableEq F] in
theorem Store.LosesOnly.ne {store after : Store K F} {key : K} {element : Text}
    (loses : store.LosesOnly after key element) : after ≠ store := by
  obtain ⟨front, back, split, _, rfl⟩ := loses
  intro same
  have longer := congrArg (fun store => (store.lists key).length) same
  simp [split] at longer

omit [DecidableEq K] in
theorem lookup_setField (field other : F) (value : Text) (hash : List (F × Text)) :
    (setField field value hash).lookup other =
      if other = field then some value else hash.lookup other := by
  have cons (name : F) (old : Text) (rest : List (F × Text)) :
      ((name, old) :: rest).lookup other = if other = name then some old else rest.lookup other := by
    by_cases same : other = name
    · simp [same]
    · simp [List.lookup_cons, beq_false_of_ne same, same]
  induction hash with
  | nil => simp [setField, cons]
  | cons head rest ih =>
    obtain ⟨name, old⟩ := head
    by_cases here : name = field
    · subst here
      by_cases same : other = name <;> simp [setField, cons, same]
    · by_cases same : other = name
      · subst same; simp [setField, cons, here]
      · simp [setField, cons, here, same, ih]

omit [DecidableEq K] in
theorem isSome_lookup_setFields {field : F} {hash values : List (F × Text)}
    (present : (hash.lookup field).isSome ∨ field ∈ values.map Prod.fst) :
    ((setFields hash values).lookup field).isSome := by
  induction values generalizing hash with
  | nil => simpa [setFields] using present
  | cons entry values ih =>
    apply ih
    rw [lookup_setField]
    by_cases same : field = entry.1
    · simp [same]
    · simpa [same] using present

theorem parseInteger_decimal {n : Nat} (bound : (n : Int) ≤ LONG_MAX) :
    parseInteger (decimal n) = some n := by
  simp [parseInteger, strtol_decimal_of_le bound, printLd_natCast]

theorem parseInteger_some {text : Text} {value : Int} (parsed : parseInteger text = some value) :
    text = printLd value ∧ LONG_MIN ≤ value ∧ value ≤ LONG_MAX := by
  simp only [parseInteger, Option.ite_none_right_eq_some, Option.some.injEq] at parsed
  obtain ⟨canonical, rfl⟩ := parsed
  exact ⟨canonical.symm, strtol_range text⟩

theorem parseInteger_printLd {value : Int} (low : LONG_MIN ≤ value) (high : value ≤ LONG_MAX) :
    parseInteger (printLd value) = some value := by
  simp [parseInteger, strtol_printLd low high]

theorem execute_incr {store : Store K F} {key : K} {value : Int}
    (held : store.strings key = some (printLd value)) (low : LONG_MIN ≤ value)
    (bound : value < LONG_MAX) :
    execute store (.incr key) = (.integer (value + 1), store.setString key (printLd (value + 1))) := by
  simp [execute, held, parseInteger_printLd low bound.le, bound]

theorem execute_incr_decimal {store : Store K F} {key : K} {n : Nat}
    (held : store.strings key = some (decimal n)) (bound : (n : Int) < LONG_MAX) :
    execute store (.incr key) = (.integer (n + 1), store.setString key (decimal (n + 1))) := by
  have printed : printLd ((n : Int) + 1) = decimal (n + 1) := by exact_mod_cast printLd_natCast (n + 1)
  rw [execute_incr (held.trans (by rw [printLd_natCast])) (by unfold LONG_MIN; omega) bound, printed]

end Redis

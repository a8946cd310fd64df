import RedisVfs.Concurrency.Creating

set_option autoImplicit false

namespace RedisVfs

open CString

variable {ι A : Type}

def Store.Counts (store : Store) (value : Int) : Prop :=
  store.strings .currentIdCount = some (printLd value) ∧ LONG_MIN ≤ value ∧ value ≤ LONG_MAX

theorem Store.Counts.unique {store : Store} {value value' : Int} (counts : store.Counts value)
    (counts' : store.Counts value') : value = value' :=
  printLd_injective (Option.some.inj (counts.1.symm.trans counts'.1))

theorem Store.counts_of_accepts {store : Store} (present : store.strings .currentIdCount ≠ none)
    (accepts : store.Accepts) : ∃ value, store.Counts value ∧ value < LONG_MAX := by
  obtain ⟨str, held⟩ := Option.ne_none_iff_exists'.mp present
  unfold Accepts execute Redis.execute at accepts
  simp only [held, Option.getD_some] at accepts
  split at accepts
  next value parsed =>
    obtain ⟨rfl, low, high⟩ := Redis.parseInteger_some parsed
    split at accepts
    next below => exact ⟨value, ⟨held, low, high⟩, below⟩
    next => exact absurd rfl accepts
  next => exact absurd rfl accepts

theorem Store.Counts.incr {store : Store} {value : Int} (counts : store.Counts value) :
    (execute store (.incr .currentIdCount)).2.Counts (min (value + 1) LONG_MAX) := by
  obtain ⟨held, low, high⟩ := counts
  by_cases bound : value < LONG_MAX
  · rw [execute, Redis.execute_incr held low bound, min_eq_left (by omega)]
    exact ⟨by simp, by omega, by omega⟩
  · rw [min_eq_right (by omega), show LONG_MAX = value by omega]
    simpa [Counts, execute, Redis.execute, held, Redis.parseInteger_printLd low high, bound] using
      ⟨low, high⟩

theorem Store.incr_lists (store : Store) :
    (execute store (.incr .currentIdCount)).2.lists = store.lists ∧
      (execute store (.incr .currentIdCount)).2.hashes = store.hashes := by
  simp only [execute, Redis.execute]
  split
  · split <;> exact ⟨rfl, rfl⟩
  · exact ⟨rfl, rfl⟩

def Place.id? : Place → Option Int
  | .counted _ id | .allocated _ id | .linked _ id => some id
  | .idle => none

def Place.held : Place → Option Int
  | .allocated _ id | .linked _ id => some id
  | .idle | .counted .. => none

variable [DecidableEq ι]

-- What the counter tells about the ids: those handed out are below it, and a client that has read it is
-- the only one and holds its value.
structure Counting (server : Store) (places : ι → Place) (log : Log ι) : Prop where
  counted : ∀ {i creation id}, places i = .counted creation id →
    server.Counts id ∧ id < LONG_MAX ∧
      ((log.last i).bind fun get => get.reply.str.map strtol) = some id
  alone : ∀ {i j creation creation' id id'}, places i = .counted creation id →
    places j = .counted creation' id' → i = j
  below : ∀ {id}, id ∈ newIds log → ∃ value, server.Counts value ∧ LONG_MIN ≤ id ∧ id < value
  distinct : (newIds log).Nodup

-- What becomes of the ids: each has one owner, who pushes it once and writes its hash once.
structure Spending (places : ι → Place) (ids : List Int) (pushes : List Text) (infos : List Key) :
    Prop where
  held : ∀ {i id}, (places i).held = some id → id ∈ ids
  apart : ∀ {i j id}, (places i).held = some id → (places j).held = some id → i = j
  pushed : ∀ {element}, element ∈ pushes →
    ∃ id ∈ ids, element = printLu id ∧ ∀ i creation, places i ≠ .allocated creation id
  pushesDistinct : pushes.Nodup
  written : ∀ {info}, info ∈ infos →
    ∃ id ∈ ids, ∃ creation : Creation, info = creation.info id ∧ ∀ i, (places i).held ≠ some id
  infosDistinct : infos.Nodup

namespace Counting

variable {server server' : Store} {places : ι → Place} {log : Log ι}

theorem other (counting : Counting server places log) {client : ι}
    {command : Redis.Command Key Field} {reply : Redis.Reply} {place' : Place}
    (same : server'.strings .currentIdCount = server.strings .currentIdCount)
    (none : ∀ earlier : Option (Sent ι), newId earlier ⟨client, command, reply⟩ = none)
    (place : ∀ creation id, place' ≠ .counted creation id) :
    Counting server' (Function.update places client place') (⟨client, command, reply⟩ :: log) := by
  have counts (value : Int) : server'.Counts value ↔ server.Counts value := by
    simp only [Store.Counts, same]
  have elsewhere {i : ι} {creation : Creation} {id : Int}
      (here : Function.update places client place' i = .counted creation id) :
      i ≠ client ∧ places i = .counted creation id := by
    rcases Protocol.place_cases here with ⟨-, same⟩ | before
    · exact absurd same (place creation id)
    · exact before
  have ids : newIds (⟨client, command, reply⟩ :: log) = newIds log := by
    rw [newIds, Trace.collect_cons, none]
    rfl
  refine ⟨?_, ?_, ?_, ?_⟩
  · intro i creation id here
    obtain ⟨moved, before⟩ := elsewhere here
    rw [counts, Trace.last_cons_ne moved]
    exact counting.counted before
  · intro i j creation creation' id id' first second
    exact counting.alone (elsewhere first).2 (elsewhere second).2
  · intro id member
    simp only [counts]
    exact counting.below (ids ▸ member)
  · rw [ids]
    exact counting.distinct

theorem get (counting : Counting server places log) {client : ι} {creation : Creation} {value : Int}
    {reply : Redis.Reply} (counts : server.Counts value) (bound : value < LONG_MAX)
    (read : reply.str.map strtol = some value)
    (alone : ∀ i creation id, places i ≠ .counted creation id) :
    Counting server (Function.update places client (.counted creation value))
      (⟨client, .get .currentIdCount, reply⟩ :: log) := by
  have here {i : ι} {creation' : Creation} {id : Int}
      (place : Function.update places client (.counted creation value) i = .counted creation' id) :
      i = client ∧ id = value := by
    rcases Protocol.place_cases place with ⟨turn, same⟩ | ⟨-, before⟩
    · cases same
      exact ⟨turn, rfl⟩
    · exact absurd before (alone i creation' id)
  have ids : newIds (⟨client, .get .currentIdCount, reply⟩ :: log) = newIds log := by
    cases str : reply.str with
    | none => simp [str] at read
    | some => simp [newIds, Trace.collect_cons, newId, str]
  refine ⟨?_, ?_, ?_, ?_⟩
  · intro i creation' id place
    obtain ⟨rfl, rfl⟩ := here place
    refine ⟨counts, bound, ?_⟩
    rw [Trace.last_cons_self]
    exact read
  · intro i j creation' creation'' id id' first second
    exact (here first).1.trans (here second).1.symm
  · exact fun member => counting.below (ids ▸ member)
  · rw [ids]
    exact counting.distinct

theorem incr (counting : Counting server places log) {client : ι} {creation : Creation} {id : Int}
    (place : places client = .counted creation id) :
    id ∉ newIds log ∧
      newIds (⟨client, .incr .currentIdCount, (execute server (.incr .currentIdCount)).1⟩ :: log) =
        id :: newIds log ∧
      Counting (execute server (.incr .currentIdCount)).2
        (Function.update places client (.allocated creation id))
        (⟨client, .incr .currentIdCount, (execute server (.incr .currentIdCount)).1⟩ :: log) := by
  obtain ⟨counts, bound, last⟩ := counting.counted place
  have fresh : id ∉ newIds log := by
    intro member
    obtain ⟨value, counts', _, below⟩ := counting.below member
    exact absurd (counts.unique counts') below.ne
  have ids (reply : Redis.Reply) :
      newIds (⟨client, .incr .currentIdCount, reply⟩ :: log) = id :: newIds log := by
    simp only [newIds, Trace.collect_cons, newId, last]
    rfl
  have after : (execute server (.incr .currentIdCount)).2.Counts (id + 1) := by
    have after := counts.incr
    rwa [min_eq_left (by omega)] at after
  have nobody {i : ι} {creation' : Creation} {id' : Int} :
      Function.update places client (.allocated creation id) i ≠ .counted creation' id' := by
    intro here
    rcases Protocol.place_cases here with ⟨-, same⟩ | ⟨moved, before⟩
    · cases same
    · exact moved (counting.alone before place)
  refine ⟨fresh, ids _, fun here => absurd here nobody, fun here => absurd here nobody, ?_, ?_⟩
  · intro id' member
    rw [ids] at member
    refine ⟨id + 1, after, ?_⟩
    rcases List.mem_cons.mp member with rfl | older
    · exact ⟨counts.2.1, by omega⟩
    · obtain ⟨value, counts', low, below⟩ := counting.below older
      rw [← counts.unique counts'] at below
      exact ⟨low, by omega⟩
  · rw [ids]
    exact List.nodup_cons.mpr ⟨fresh, counting.distinct⟩

end Counting

namespace Spending

variable {places : ι → Place} {ids : List Int} {pushes : List Text} {infos : List Key} {client : ι}

theorem idle (spending : Spending places ids pushes infos) {place' : Place}
    (after : place'.held = none) :
    Spending (Function.update places client place') ids pushes infos := by
  have elsewhere {i : ι} {id : Int} (held : (Function.update places client place' i).held = some id) :
      (places i).held = some id := by
    rcases Protocol.reading_cases Place.held held with ⟨-, owned⟩ | ⟨-, before⟩
    · cases after.symm.trans owned
    · exact before
  refine ⟨?_, ?_, ?_, spending.pushesDistinct, ?_, spending.infosDistinct⟩
  · exact fun held => spending.held (elsewhere held)
  · exact fun first second => spending.apart (elsewhere first) (elsewhere second)
  · intro element member
    obtain ⟨id, known, text, linked⟩ := spending.pushed member
    refine ⟨id, known, text, fun i creation here => ?_⟩
    rcases Protocol.place_cases here with ⟨-, rfl⟩ | ⟨-, before⟩
    · cases after
    · exact linked i creation before
  · intro info member
    obtain ⟨id, known, creation, key, free⟩ := spending.written member
    exact ⟨id, known, creation, key, fun i held => free i (elsewhere held)⟩

theorem allocate (spending : Spending places ids pushes infos) {creation : Creation} {id : Int}
    (fresh : id ∉ ids) :
    Spending (Function.update places client (.allocated creation id)) (id :: ids) pushes infos := by
  have elsewhere {i : ι} {id' : Int}
      (held : (Function.update places client (.allocated creation id) i).held = some id') :
      i = client ∧ id' = id ∨ i ≠ client ∧ (places i).held = some id' ∧ id' ≠ id := by
    rcases Protocol.reading_cases Place.held held with ⟨turn, owned⟩ | ⟨moved, before⟩
    · exact .inl ⟨turn, (Option.some.inj owned).symm⟩
    · exact .inr ⟨moved, before, fun same => fresh (same ▸ spending.held before)⟩
  refine ⟨?_, ?_, ?_, spending.pushesDistinct, ?_, spending.infosDistinct⟩
  · intro i id' held
    rcases elsewhere held with ⟨-, rfl⟩ | ⟨-, before, -⟩
    · exact List.mem_cons_self
    · exact List.mem_cons_of_mem _ (spending.held before)
  · intro i j id' first second
    rcases elsewhere first with ⟨rfl, rfl⟩ | ⟨-, before, other⟩
    · rcases elsewhere second with ⟨rfl, -⟩ | ⟨-, -, other⟩
      · rfl
      · exact absurd rfl other
    · rcases elsewhere second with ⟨-, same⟩ | ⟨-, before', -⟩
      · exact absurd same other
      · exact spending.apart before before'
  · intro element member
    obtain ⟨id', known, text, linked⟩ := spending.pushed member
    refine ⟨id', List.mem_cons_of_mem _ known, text, fun i creation' here => ?_⟩
    rcases Protocol.place_cases here with ⟨-, same⟩ | ⟨-, before⟩
    · cases same
      exact fresh known
    · exact linked i creation' before
  · intro info member
    obtain ⟨id', known, creation', key, free⟩ := spending.written member
    refine ⟨id', List.mem_cons_of_mem _ known, creation', key, fun i held => ?_⟩
    rcases elsewhere held with ⟨-, rfl⟩ | ⟨-, before, -⟩
    · exact fresh known
    · exact free i before

-- Every id that an owner still holds has a long of its own, so it has a text and a key of its own.
theorem push (spending : Spending places ids pushes infos)
    (range : ∀ id ∈ ids, LONG_MIN ≤ id ∧ id ≤ LONG_MAX) {creation : Creation} {id : Int}
    (place : places client = .allocated creation id) :
    Spending (Function.update places client (.linked creation id)) ids (printLu id :: pushes)
      infos := by
  have same (i : ι) : (Function.update places client (.linked creation id) i).held =
      (places i).held := by
    by_cases moved : i = client
    · subst moved
      simp [place, Place.held]
    · simp [moved]
  have known : id ∈ ids := spending.held (by rw [place]; rfl)
  have unlinked {i : ι} {creation' : Creation} {id' : Int}
      (here : Function.update places client (.linked creation id) i = .allocated creation' id') :
      i ≠ client ∧ places i = .allocated creation' id' := by
    rcases Protocol.place_cases here with ⟨-, same⟩ | before
    · cases same
    · exact before
  refine ⟨?_, ?_, ?_, ?_, ?_, spending.infosDistinct⟩
  · exact fun held => spending.held ((same _).symm.trans held)
  · exact fun first second =>
      spending.apart ((same _).symm.trans first) ((same _).symm.trans second)
  · intro element member
    rcases List.mem_cons.mp member with rfl | older
    · refine ⟨id, known, rfl, fun i creation' here => ?_⟩
      obtain ⟨moved, before⟩ := unlinked here
      exact moved (spending.apart (by rw [before]; rfl) (by rw [place]; rfl))
    · obtain ⟨id', known', text, linked⟩ := spending.pushed older
      exact ⟨id', known', text, fun i creation' here => linked i creation' (unlinked here).2⟩
  · refine List.nodup_cons.mpr ⟨fun older => ?_, spending.pushesDistinct⟩
    obtain ⟨id', known', text, linked⟩ := spending.pushed older
    have equal : id = id' :=
      unsigned_inj (range id known).1 (range id known).2 (range id' known').1 (range id' known').2
        (decimal_injective text)
    exact linked client creation (equal ▸ place)
  · intro info member
    obtain ⟨id', known', creation', key, free⟩ := spending.written member
    exact ⟨id', known', creation', key, fun i held => free i ((same i).symm.trans held)⟩

theorem write (spending : Spending places ids pushes infos)
    (range : ∀ id ∈ ids, LONG_MIN ≤ id ∧ id ≤ LONG_MAX) {creation : Creation} {id : Int}
    (place : places client = .linked creation id) :
    Spending (Function.update places client .idle) ids pushes (creation.info id :: infos) := by
  have owner : (places client).held = some id := by rw [place]; rfl
  have known : id ∈ ids := spending.held owner
  have elsewhere {i : ι} {id' : Int} (held : (Function.update places client .idle i).held = some id') :
      i ≠ client ∧ (places i).held = some id' := by
    rcases Protocol.reading_cases Place.held held with ⟨-, owned⟩ | before
    · cases owned
    · exact before
  refine ⟨?_, ?_, ?_, spending.pushesDistinct, ?_, ?_⟩
  · exact fun held => spending.held (elsewhere held).2
  · exact fun first second => spending.apart (elsewhere first).2 (elsewhere second).2
  · intro element member
    obtain ⟨id', known', text, linked⟩ := spending.pushed member
    refine ⟨id', known', text, fun i creation' here => ?_⟩
    rcases Protocol.place_cases here with ⟨-, same⟩ | ⟨-, before⟩
    · cases same
    · exact linked i creation' before
  · intro info member
    rcases List.mem_cons.mp member with rfl | older
    · refine ⟨id, known, creation, rfl, fun i held => ?_⟩
      obtain ⟨moved, before⟩ := elsewhere held
      exact moved (spending.apart before owner)
    · obtain ⟨id', known', creation', key, free⟩ := spending.written older
      exact ⟨id', known', creation', key, fun i held => free i (elsewhere held).2⟩
  · refine List.nodup_cons.mpr ⟨fun older => ?_, spending.infosDistinct⟩
    obtain ⟨id', known', creation', key, free⟩ := spending.written older
    have number : unsigned id = unsigned id' := by
      cases creation <;> cases creation' <;> simp_all [Creation.info]
    have equal : id = id' :=
      unsigned_inj (range id known).1 (range id known).2 (range id' known').1 (range id' known').2 number
    exact free client (equal ▸ owner)

end Spending

end RedisVfs

import RedisVfs.Concurrency.Allocating

set_option autoImplicit false

namespace RedisVfs

open CString

variable {ι A : Type}

def Key.target (element : Text) : Key → Option Key
  | .folderFolders _ => some (.folderInfo (unsigned (strtol element)))
  | .folderFiles _ => some (.fileInfo (unsigned (strtol element)))
  | _ => none

namespace Store

def Named (store : Store) (info : Key) : Prop := ((store.hashes info).lookup .name).isSome = true

def LinksNamed (store : Store) : Prop :=
  ∀ {list : Key} {element : Text} {info : Key}, element ∈ store.lists list →
    list.target element = some info → store.Named info

structure ListingsRead (store : Store) : Prop where
  folders : ∀ d, ∀ element ∈ store.lists (.folderFolders d), ∃ name,
    (vfsGetFolderName (strtol element)).run execute store = (.ok name, store) ∧
      (redisGetFolderName (strtol element)).run execute store = (.ok name, store)
  files : ∀ d, ∀ element ∈ store.lists (.folderFiles d), ∃ name,
    (vfsGetFileName (strtol element)).run execute store = (.ok name, store) ∧
      (redisGetFileName (strtol element)).run execute store = (.ok name, store)

variable {store : Store}

-- The four readers are this program at the key of their kind.
def readName (info : Key) : Prog Text := do
  let reply ← redisCommand (.hget info .name)
  return unquoted (← dereference reply)

theorem readName_iff (info : Key) :
    (∃ name, (readName info).run execute store = (.ok name, store) ∧
      (readName info).run execute store = (.ok name, store)) ↔ store.Named info := by
  simp only [readName, redisCommand, Program.run_bind, Program.run_command, execute, Redis.execute, Named]
  cases (store.hashes info).lookup .name <;> simp [dereference, Redis.Reply.str]

theorem listingsRead_iff : store.ListingsRead ↔ store.LinksNamed := by
  constructor
  · intro reads list element info member target
    cases list <;> cases target
    · exact (readName_iff _).mp (reads.folders _ element member)
    · exact (readName_iff _).mp (reads.files _ element member)
  · intro named
    exact ⟨fun d element member => (readName_iff _).mpr (named member rfl),
      fun d element member => (readName_iff _).mpr (named member rfl)⟩

end Store

theorem Creation.target_list (creation : Creation) {id : Int} (low : 0 ≤ id) (high : id ≤ LONG_MAX) :
    creation.list.target (printLu id) = some (creation.info id) := by
  have back : strtol (printLu id) = id := by
    obtain ⟨n, rfl⟩ := Int.eq_ofNat_of_zero_le low
    rw [printLu, unsigned_natCast high, strtol_decimal_of_le high]
  cases creation <;> simp [Creation.list, Creation.info, Key.target, back]

theorem Creation.name_mem_values (creation : Creation) :
    Field.name ∈ creation.values.map Prod.fst := by
  cases creation <;> simp [Creation.values]

variable [DecidableEq ι]

-- Every link leads to a name or belongs to a client that is about to write it.
structure Linking (server : Store) (places : ι → Place) : Prop where
  counter : ∃ value, server.Counts value ∧ 0 ≤ value
  ids : ∀ {i id}, (places i).id? = some id → 0 ≤ id ∧ id ≤ LONG_MAX
  linked : ∀ {i creation id}, places i = .linked creation id →
    printLu id ∈ server.lists creation.list
  named : ∀ {list element info}, element ∈ server.lists list → list.target element = some info →
    server.Named info ∨ ∃ i creation id, places i = .linked creation id ∧ creation.info id = info

namespace Linking

variable {server : Store} {places : ι → Place} {client : ι}

theorem other (linking : Linking server places) {server' : Store} {place' : Place}
    (counter : ∃ value, server'.Counts value ∧ 0 ≤ value) (lists : server'.lists = server.lists)
    (hashes : server'.hashes = server.hashes)
    (ids : ∀ {id}, place'.id? = some id → 0 ≤ id ∧ id ≤ LONG_MAX)
    (before : ∀ creation id, places client ≠ .linked creation id)
    (after : ∀ creation id, place' ≠ .linked creation id) :
    Linking server' (Function.update places client place') := by
  have same (i : ι) (creation : Creation) (id : Int) :
      Function.update places client place' i = .linked creation id ↔
        places i = .linked creation id := by
    by_cases moved : i = client
    · subst moved
      simp [before, after]
    · simp [moved]
  refine ⟨counter, ?_, ?_, ?_⟩
  · intro i id held
    rcases Protocol.reading_cases Place.id? held with ⟨-, held'⟩ | ⟨-, before⟩
    · exact ids held'
    · exact linking.ids before
  · intro i creation id here
    rw [lists]
    exact linking.linked ((same i creation id).mp here)
  · intro list element info member target
    rw [lists] at member
    simpa only [Store.Named, hashes, same] using linking.named member target

theorem lpush (linking : Linking server places) {creation : Creation} {id : Int}
    (place : places client = .allocated creation id) :
    Linking (execute server (.lpush creation.list (printLu id))).2
      (Function.update places client (.linked creation id)) := by
  have range : 0 ≤ id ∧ id ≤ LONG_MAX := linking.ids (by rw [place]; rfl)
  have grown {list : Key} {element : Text} :
      element ∈ (execute server (.lpush creation.list (printLu id))).2.lists list ↔
        list = creation.list ∧ element = printLu id ∨ element ∈ server.lists list := by
    by_cases here : list = creation.list
    · subst here
      simp [execute, Redis.execute]
    · simp [execute, Redis.execute, here]
  refine ⟨linking.counter, ?_, ?_, ?_⟩
  · intro i id' held
    rcases Protocol.reading_cases Place.id? held with ⟨-, same⟩ | ⟨-, before⟩
    · cases same
      exact range
    · exact linking.ids before
  · intro i creation' id' here
    rw [grown]
    rcases Protocol.place_cases here with ⟨-, same⟩ | ⟨-, before⟩
    · cases same
      exact .inl ⟨rfl, rfl⟩
    · exact .inr (linking.linked before)
  · intro list element info member target
    rcases grown.mp member with ⟨rfl, rfl⟩ | older
    · rw [creation.target_list range.1 range.2] at target
      exact .inr ⟨client, creation, id, by simp, Option.some.inj target⟩
    · rcases linking.named older target with named | ⟨i, creation', id', here, key⟩
      · exact .inl named
      · have moved : i ≠ client := by
          rintro rfl
          rw [place] at here
          cases here
        exact .inr ⟨i, creation', id', by simpa [moved] using here, key⟩

theorem hmset (linking : Linking server places) {creation : Creation} {id : Int}
    (place : places client = .linked creation id) :
    Linking (execute server (.hmset (creation.info id) creation.values)).2
      (Function.update places client .idle) := by
  have kept {info : Key} (named : server.Named info ∨ info = creation.info id) :
      (execute server (.hmset (creation.info id) creation.values)).2.Named info := by
    by_cases here : info = creation.info id
    · subst here
      simpa [execute, Redis.execute, Store.Named] using
        Redis.isSome_lookup_setFields (.inr creation.name_mem_values)
    · simpa [execute, Redis.execute, Store.Named, here] using named
  refine ⟨linking.counter, ?_, ?_, ?_⟩
  · intro i id' held
    rcases Protocol.reading_cases Place.id? held with ⟨-, same⟩ | ⟨-, before⟩
    · cases same
    · exact linking.ids before
  · intro i creation' id' here
    rcases Protocol.place_cases here with ⟨-, same⟩ | ⟨-, before⟩
    · cases same
    · exact linking.linked before
  · intro list element info member target
    rcases linking.named member target with named | ⟨i, creation', id', here, key⟩
    · exact .inl (kept (.inl named))
    · by_cases moved : i = client
      · subst moved
        rw [place] at here
        cases here
        exact .inl (kept (.inr key.symm))
      · exact .inr ⟨i, creation', id', by simpa [moved] using here, key⟩

end Linking

theorem linking_keeps :
    (Place.protocol A).Keeps execute (fun _ _ => True)
      (fun server (places : ι → Place) _ => Linking server places) := by
  intro pool places client command place' following linking _ awaits move
  obtain ⟨value, counts, positive⟩ := linking.counter
  generalize here : places client = place at move
  cases move with
  | read reads =>
    cases command with
    | hget | lrange =>
      exact linking.other linking.counter rfl rfl (by simp [Place.id?]) (by simp [here]) (by simp)
    | _ => exact absurd reads id
  | get creation found =>
    have read : (execute pool.server (.get .currentIdCount)).1 = .string (printLd value) := by
      simp only [execute, Redis.execute, counts.1]
    rw [read] at found
    cases found
    rw [strtol_printLd counts.2.1 counts.2.2]
    refine linking.other linking.counter rfl rfl ?_ (by simp [here]) (by simp)
    intro id held
    cases held
    exact ⟨positive, counts.2.2⟩
  | getAbsent creation absent =>
    simp [execute, Redis.execute, counts.1, Redis.Reply.str] at absent
  | incr creation id =>
    have counter : ∃ value, (execute pool.server (.incr .currentIdCount)).2.Counts value ∧ 0 ≤ value :=
      ⟨_, counts.incr, le_min (by omega) (by decide)⟩
    obtain ⟨lists, hashes⟩ := pool.server.incr_lists
    refine linking.other counter lists hashes ?_ (by simp [here]) (by simp)
    exact fun held => linking.ids (by rw [here]; exact held)
  | lpush creation id => exact linking.lpush here
  | hmset creation id => exact linking.hmset here

theorem awaits_hmset {place : Place} {program : Prog A} (follows : place.Follows program) {info : Key}
    {values : List (Field × Text)} (awaits : program.Awaits (.hmset info values)) :
    ∃ creation id, place = .linked creation id ∧ creation.info id = info := by
  obtain ⟨next, rfl⟩ := Program.awaits_iff.mp awaits
  obtain ⟨place', move, -⟩ := Place.progress follows .status
  cases move with
  | read reads => exact absurd reads id
  | hmset creation id => exact ⟨creation, id, rfl, rfl⟩

theorem linked_awaits {creation : Creation} {id : Int} {program : Prog A}
    (follows : (Place.linked creation id).Follows program) :
    program.Awaits (.hmset (creation.info id) creation.values) := by
  obtain ⟨next, -, rfl⟩ := follows
  exact Program.awaits_iff.mpr ⟨_, rfl⟩

theorem dangling_links (store : Store) (counter : ∃ value, store.Counts value ∧ 0 ≤ value)
    (named : store.LinksNamed) (clients : ι → Prog A)
    (creating : ∀ client, Creating (clients client)) (schedule : List ι) :
    let pool := (Pool.start store clients).run execute schedule
    (pool.server.LinksNamed ↔ ∀ client info values,
      (pool.clients client).Awaits (.hmset info values) → pool.server.Named info) ∧
        (pool.server.ListingsRead ↔ pool.server.LinksNamed) := by
  intro pool
  refine ⟨?_, Store.listingsRead_iff⟩
  have start : Linking store (fun _ : ι => .idle) :=
    ⟨counter, by simp [Place.id?], by simp, fun member target => .inl (named member target)⟩
  have idle : (Place.protocol A).Following (fun _ : ι => .idle) (Pool.start store clients) := creating
  obtain ⟨places, following, linking⟩ :=
    linking_keeps.run idle start (Pool.obeys_of_forall _ (fun _ _ => trivial) _ schedule)
  constructor
  · intro linksNamed client info values awaits
    obtain ⟨creation, id, here, rfl⟩ := awaits_hmset (following client) awaits
    have held : (places client).id? = some id := by rw [here]; rfl
    obtain ⟨low, high⟩ := linking.ids held
    exact linksNamed (linking.linked here) (creation.target_list low high)
  · intro written list element info member target
    rcases linking.named member target with named | ⟨i, creation, id, here, rfl⟩
    · exact named
    · have follows := following i
      rw [here] at follows
      exact written i _ _ (linked_awaits follows)

-- The second client creates while the first has stopped between its INCR and its LPUSH.
theorem dangling_links_stopped :
    let pool := (Pool.start builtStore (twoCreations (.mkdir 0 "a".toList) (.mkdir 0 "b".toList))).run
      execute [false, false, true, true, true, true]
    pool.server.lists (.folderFolders 0) = [['2']] ∧ pool.server.LinksNamed := by
  intro pool
  refine ⟨by decide +kernel, (dangling_links builtStore ⟨1, ?_, by decide⟩ ?_ _
    (twoCreations_creating _ _) [false, false, true, true, true, true]).1.mpr ?_⟩
  · exact ⟨by decide +kernel, by decide, by decide⟩
  · intro list element info member
    cases member
  · intro client info values awaits
    have last : ∀ client, (pool.clients client).command? = none ∨
        (pool.clients client).command? = some (.lpush (.folderFolders 0) ['1']) := by decide +kernel
    rcases last client with ended | pushing
    · cases ended.symm.trans awaits
    · cases pushing.symm.trans awaits

-- The client has linked its folder and stops before it writes the hash.
theorem dangling_links_crash :
    let pool := (Pool.start builtStore (twoCreations (.mkdir 0 "a".toList) (.mkdir 0 "b".toList))).run
      execute [false, false, false]
    (∀ client, Creating (twoCreations (.mkdir 0 "a".toList) (.mkdir 0 "b".toList) client)) ∧
      ¬ pool.server.LinksNamed ∧
        ((vfsFindDirNameInDir 0 "a/".toList 1).run execute pool.server).1 = .error .nilReply := by
  refine ⟨twoCreations_creating _ _, fun named => ?_, by decide +kernel⟩
  have missing := @named (.folderFolders 0) ['1'] (.folderInfo 1) (by decide +kernel) (by decide +kernel)
  revert missing
  unfold Store.Named
  decide +kernel

end RedisVfs

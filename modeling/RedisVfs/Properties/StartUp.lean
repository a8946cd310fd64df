import RedisVfs.Concurrency.Calls
import RedisVfs.Concurrency.Starting

set_option autoImplicit false

namespace RedisVfs

open CString

variable {ι A : Type}

theorem Started.cons {log : Log ι} (started : Started log) (event : Sent ι) :
    Started (event :: log) := by
  rw [Started, List.any_cons, started, Bool.or_true]

theorem started_of_endsStart {event : Sent ι} {log : Log ι} (ends : endsStart event = true) :
    Started (event :: log) := by
  rw [Started, List.any_cons, ends, Bool.true_or]

variable [DecidableEq ι]

-- Once some client has finished getInitialContext, no other flushes the database or sets the counter
-- back, and no creation writes an info hash that is there already.
def Careful (pool : Clients ι A) (client : ι) : Prop :=
  match (pool.clients client).command? with
  | some .flushall => ¬ Started pool.trace
  | some (.set .currentIdCount value) => Started pool.trace → pool.server.count ≤ strtol value
  | some (.hmset info _) => info = .folderInfo 0 ∨ pool.server.hashes info = []
  | _ => True

instance (pool : Clients ι A) (client : ι) : Decidable (Careful pool client) := by
  unfold Careful
  split <;> infer_instance

structure Preserving (server : Store) (stages : ι → Stage) (log : Log ι) : Prop where
  started : ∀ {i place}, stages i = .working place → Started log
  early : ¬ Started log → createdObjects log = []
  counter : server.strings .currentIdCount = none ∨ ∃ value, server.Counts value ∧ 1 ≤ value
  ids : ∀ {i place id}, stages i = .working place → place.id? = some id → unsigned id ≠ 0
  linked : ∀ {i creation id}, stages i = .working (.linked creation id) →
    printLu id ∈ server.lists creation.list ∧
      (log.last i).map Event.command = some (.lpush creation.list (printLu id))
  rooting : ∀ {i}, stages i = .rooting → (log.last i).map Event.command = some .flushall
  objects : ∀ {object}, object ∈ createdObjects log →
    object.element ∈ server.lists object.list ∧ server.hashes object.info = object.values ∧
      object.info ≠ .folderInfo 0 ∧ object.values ≠ []

theorem Store.Counts.count {store : Store} {value : Int} (counts : store.Counts value) :
    store.count = value := by
  obtain ⟨held, low, high⟩ := counts
  simp [Store.count, held, strtol_printLd low high]

theorem Creation.info_ne_root (creation : Creation) {id : Int} (nonzero : unsigned id ≠ 0) :
    creation.info id ≠ .folderInfo 0 := by
  cases creation <;> simp [Creation.info, nonzero]

theorem Creation.setFields_values (creation : Creation) :
    Redis.setFields [] creation.values = creation.values := by
  cases creation <;> rfl

namespace Preserving

variable {server server' : Store} {stages : ι → Stage} {log : Log ι} {client : ι}
  {command : Redis.Command Key Field} {reply : Redis.Reply} {stage' : Stage}

theorem frame (preserving : Preserving server stages log)
    (quiet : creationEnd (log.last client) ⟨client, command, reply⟩ = none)
    (counter : server'.strings .currentIdCount = none ∨ ∃ value, server'.Counts value ∧ 1 ≤ value)
    (lists : ∀ list element, element ∈ server.lists list → element ∈ server'.lists list)
    (hashes : ∀ info, info ≠ .folderInfo 0 → server'.hashes info = server.hashes info)
    (started : ∀ place, stage' = .working place → Started (⟨client, command, reply⟩ :: log))
    (ids : ∀ place id, stage' = .working place → place.id? = some id → unsigned id ≠ 0)
    (linked : ∀ creation id, stage' = .working (.linked creation id) →
      printLu id ∈ server'.lists creation.list ∧ command = .lpush creation.list (printLu id))
    (rooting : stage' = .rooting → command = .flushall) :
    Preserving server' (Function.update stages client stage') (⟨client, command, reply⟩ :: log) := by
  have unchanged : createdObjects (⟨client, command, reply⟩ :: log) = createdObjects log := by
    rw [createdObjects, Trace.collect_cons, quiet]
    rfl
  refine ⟨?_, ?_, counter, ?_, ?_, ?_, ?_⟩
  · intro i place here
    rcases Protocol.place_cases here with ⟨-, same⟩ | ⟨-, before⟩
    · exact started place same
    · exact (preserving.started before).cons _
  · intro late
    rw [unchanged]
    exact preserving.early fun earlier => late (earlier.cons _)
  · intro i place id here held
    rcases Protocol.place_cases here with ⟨-, same⟩ | ⟨-, before⟩
    · exact ids place id same held
    · exact preserving.ids before held
  · intro i creation id here
    rcases Protocol.place_cases here with ⟨rfl, same⟩ | ⟨moved, before⟩
    · obtain ⟨member, rfl⟩ := linked creation id same
      exact ⟨member, by rw [Trace.last_cons_self]; rfl⟩
    · obtain ⟨member, last⟩ := preserving.linked before
      exact ⟨lists _ _ member, by rw [Trace.last_cons_ne moved]; exact last⟩
  · intro i here
    rcases Protocol.place_cases here with ⟨rfl, same⟩ | ⟨moved, before⟩
    · obtain rfl := rooting same
      rw [Trace.last_cons_self]
      rfl
    · rw [Trace.last_cons_ne moved]
      exact preserving.rooting before
  · intro object member
    obtain ⟨linked, hash, notRoot, filled⟩ := preserving.objects (unchanged ▸ member)
    exact ⟨lists _ _ linked, (hashes _ notRoot).trans hash, notRoot, filled⟩

theorem work (preserving : Preserving server stages log) {place place' : Place}
    (here : stages client = .working place)
    (quiet : creationEnd (log.last client) ⟨client, command, reply⟩ = none)
    (counter : server'.strings .currentIdCount = none ∨ ∃ value, server'.Counts value ∧ 1 ≤ value)
    (lists : server'.lists = server.lists) (hashes : server'.hashes = server.hashes)
    (ids : ∀ id, place'.id? = some id → unsigned id ≠ 0)
    (unlinked : ∀ creation id, place' ≠ .linked creation id) :
    Preserving server' (Function.update stages client (.working place'))
      (⟨client, command, reply⟩ :: log) := by
  refine preserving.frame quiet counter (fun _ _ member => lists ▸ member) (fun _ _ => by rw [hashes])
    (fun _ _ => (preserving.started here).cons _) ?_ ?_ (by simp)
  · intro place id same held
    cases same
    exact ids id held
  · intro creation id same
    cases same
    exact absurd rfl (unlinked creation id)

theorem flushall (preserving : Preserving server stages log) (late : ¬ Started log) :
    Preserving .empty (Function.update stages client .rooting) (⟨client, .flushall, reply⟩ :: log) := by
  have nobody {i : ι} {place : Place} (here : Function.update stages client .rooting i = .working place) :
      False := by
    rcases Protocol.place_cases here with ⟨-, same⟩ | ⟨-, before⟩
    · cases same
    · exact late (preserving.started before)
  have none : createdObjects (⟨client, .flushall, reply⟩ :: log) = [] := preserving.early late
  refine ⟨fun here => (nobody here).elim, fun _ => none, .inl rfl, fun here => (nobody here).elim,
    fun here => (nobody here).elim, ?_, ?_⟩
  · intro i here
    rcases Protocol.place_cases here with ⟨rfl, -⟩ | ⟨moved, before⟩
    · rw [Trace.last_cons_self]
      rfl
    · rw [Trace.last_cons_ne moved]
      exact preserving.rooting before
  · intro object member
    rw [none] at member
    cases member

-- The HMSET of the root follows the client's FLUSHALL, so it ends no creation.
theorem makeRoot (preserving : Preserving server stages log) (here : stages client = .rooting) :
    Preserving (execute server (.hmset (.folderInfo 0) rootValues)).2
      (Function.update stages client .counting)
      (⟨client, .hmset (.folderInfo 0) rootValues, reply⟩ :: log) := by
  have quiet : creationEnd (log.last client) ⟨client, .hmset (.folderInfo 0) rootValues, reply⟩ =
      none := by
    simp [creationEnd, preserving.rooting here]
  refine preserving.frame quiet preserving.counter (fun _ _ member => member) ?_ (by simp) (by simp)
    (by simp) (by simp)
  intro info other
  simp [execute, Redis.execute, other]

theorem setCount (preserving : Preserving server stages log)
    (one : (execute server (.set .currentIdCount "1".toList)).2.Counts 1) :
    Preserving (execute server (.set .currentIdCount "1".toList)).2
      (Function.update stages client .flagging)
      (⟨client, .set .currentIdCount "1".toList, reply⟩ :: log) :=
  preserving.frame rfl (.inr ⟨1, one, le_rfl⟩) (fun _ _ member => member) (fun _ _ => rfl) (by simp)
    (by simp) (by simp) (by simp)

theorem finish (preserving : Preserving server stages log)
    (ends : endsStart ⟨client, command, reply⟩ = true)
    (quiet : creationEnd (log.last client) ⟨client, command, reply⟩ = none)
    (counter : server'.strings .currentIdCount = server.strings .currentIdCount)
    (lists : server'.lists = server.lists) (hashes : server'.hashes = server.hashes) :
    Preserving server' (Function.update stages client (.working .idle))
      (⟨client, command, reply⟩ :: log) := by
  refine preserving.frame quiet ?_ (fun _ _ member => lists ▸ member) (fun _ _ => by rw [hashes])
    (fun _ _ => started_of_endsStart ends) ?_ (by simp) (by simp)
  · simpa only [Store.Counts, counter] using preserving.counter
  · intro place id same held
    cases same
    cases held

theorem lpush (preserving : Preserving server stages log) {creation : Creation} {id : Int}
    (here : stages client = .working (.allocated creation id)) :
    Preserving (execute server (.lpush creation.list (printLu id))).2
      (Function.update stages client (.working (.linked creation id)))
      (⟨client, .lpush creation.list (printLu id), reply⟩ :: log) := by
  refine preserving.frame rfl preserving.counter ?_ (fun _ _ => rfl)
    (fun _ _ => (preserving.started here).cons _) ?_ ?_ (by simp)
  · intro list element member
    by_cases same : list = creation.list
    · subst same
      simp [execute, Redis.execute, member]
    · simpa [execute, Redis.execute, same] using member
  · intro place id' same held
    cases same
    exact preserving.ids here held
  · intro creation' id' same
    cases same
    simp [execute, Redis.execute]

-- The HMSET of a creation: its hash is new, so no earlier object has this key.
theorem hmset (preserving : Preserving server stages log) {creation : Creation} {id : Int}
    (here : stages client = .working (.linked creation id))
    (fresh : server.hashes (creation.info id) = []) :
    Preserving (execute server (.hmset (creation.info id) creation.values)).2
      (Function.update stages client (.working .idle))
      (⟨client, .hmset (creation.info id) creation.values, reply⟩ :: log) := by
  obtain ⟨member, last⟩ := preserving.linked here
  have started : Started log := preserving.started here
  have notRoot : creation.info id ≠ .folderInfo 0 := creation.info_ne_root (preserving.ids here rfl)
  have elsewhere {i : ι} {place : Place}
      (place' : Function.update stages client (.working .idle) i = .working place) :
      place = .idle ∨ i ≠ client ∧ stages i = .working place := by
    rcases Protocol.place_cases place' with ⟨-, same⟩ | before
    · cases same
      exact .inl rfl
    · exact .inr before
  have created : createdObjects (⟨client, .hmset (creation.info id) creation.values, reply⟩ :: log) =
      ⟨creation.list, printLu id, creation.info id, creation.values⟩ :: createdObjects log := by
    simp [createdObjects, Trace.collect_cons, creationEnd, last]
  refine ⟨fun _ => started.cons _, fun late => absurd (started.cons _) late, preserving.counter, ?_, ?_,
    ?_, ?_⟩
  · intro i place id' place' held
    rcases elsewhere place' with rfl | ⟨-, before⟩
    · cases held
    · exact preserving.ids before held
  · intro i creation' id' place'
    rcases elsewhere place' with idle | ⟨moved, before⟩
    · cases idle
    · rw [Trace.last_cons_ne moved]
      exact preserving.linked before
  · intro i rooting
    rcases Protocol.place_cases rooting with ⟨-, same⟩ | ⟨moved, before⟩
    · cases same
    · rw [Trace.last_cons_ne moved]
      exact preserving.rooting before
  · intro object member'
    rw [created] at member'
    rcases List.mem_cons.mp member' with rfl | older
    · refine ⟨member, ?_, notRoot, by cases creation <;> simp [Creation.values]⟩
      simp [execute, Redis.execute, fresh, creation.setFields_values]
    · obtain ⟨linked, hash, notRoot', filled⟩ := preserving.objects older
      have other : object.info ≠ creation.info id := by
        intro same
        rw [same, fresh] at hash
        exact filled hash.symm
      exact ⟨linked, by simpa [execute, Redis.execute, other] using hash, notRoot', filled⟩

end Preserving

theorem count_of_absent {store : Store} (absent : store.strings .currentIdCount = none) :
    store.count = -1 := by
  simp [Store.count, absent]

theorem incr_counter {store : Store}
    (counter : store.strings .currentIdCount = none ∨ ∃ value, store.Counts value ∧ 1 ≤ value) :
    ∃ value, (execute store (.incr .currentIdCount)).2.Counts value ∧ 1 ≤ value ∧
      store.count ≤ value := by
  rcases counter with absent | ⟨value, counts, positive⟩
  · refine ⟨1, ⟨?_, by decide, by decide⟩, le_rfl, by rw [count_of_absent absent]; decide⟩
    have parsed : Redis.parseInteger (printLd 0) = some 0 :=
      Redis.parseInteger_printLd (by decide) (by decide)
    simp [execute, Redis.execute, absent, parsed, show (0 : Int) < LONG_MAX by decide]
  · rw [counts.count]
    exact ⟨_, counts.incr, le_min (by omega) (by decide), le_min (by omega) counts.2.2⟩

theorem counter_read {store : Store} {text : Text}
    (counter : store.strings .currentIdCount = none ∨ ∃ value, store.Counts value ∧ 1 ≤ value)
    (found : (execute store (.get .currentIdCount)).1.str = some text) : unsigned (strtol text) ≠ 0 := by
  rcases counter with absent | ⟨value, counts, positive⟩
  · simp [execute, Redis.execute, absent, Redis.Reply.str] at found
  · rw [execute, Redis.execute, counts.1] at found
    cases found
    rw [strtol_printLd counts.2.1 counts.2.2]
    exact unsigned_ne_zero positive counts.2.2

theorem preserving_work {server : Store} {stages : ι → Stage} {log : Log ι} {client : ι}
    {command : Redis.Command Key Field} {place place' : Place} (preserving : Preserving server stages log)
    (fresh : ∀ info values, command = .hmset info values →
      info = .folderInfo 0 ∨ server.hashes info = [])
    (here : stages client = .working place) (move : place.Move command (execute server command).1 place') :
    Preserving (execute server command).2 (Function.update stages client (.working place'))
        (⟨client, command, (execute server command).1⟩ :: log) ∧
      server.count ≤ (execute server command).2.count := by
  have counter := preserving.counter
  generalize answer : (execute server command).1 = reply at move ⊢
  cases move with
  | read reads =>
    cases command with
    | hget | lrange =>
      exact ⟨preserving.work here rfl counter rfl rfl (by simp [Place.id?]) (by simp), le_rfl⟩
    | _ => exact absurd reads id
  | get creation found =>
    refine ⟨preserving.work here rfl counter rfl rfl ?_ (by simp), le_rfl⟩
    intro id held
    cases held
    exact counter_read counter (answer ▸ found)
  | getAbsent creation absent =>
    refine ⟨preserving.work here rfl counter rfl rfl ?_ (by simp), le_rfl⟩
    intro id held
    cases held
    decide
  | incr creation id =>
    obtain ⟨value, counts, positive, more⟩ := incr_counter counter
    obtain ⟨lists, hashes⟩ := server.incr_lists
    have quiet : creationEnd (log.last client) ⟨client, .incr .currentIdCount, reply⟩ = none := by
      simp [creationEnd]
    exact ⟨preserving.work here quiet (.inr ⟨value, counts, positive⟩) lists hashes
      (fun _ held => preserving.ids here held) (by simp), by rwa [counts.count]⟩
  | lpush creation id => exact ⟨preserving.lpush here, le_rfl⟩
  | hmset creation id =>
    have notRoot := creation.info_ne_root (preserving.ids here rfl)
    have empty := (fresh _ _ rfl).resolve_left notRoot
    exact ⟨preserving.hmset here empty, le_rfl⟩

theorem preserving_step {pool : Clients ι A} {stages : ι → Stage} {client : ι}
    {command : Redis.Command Key Field} {stage' : Stage}
    (preserving : Preserving pool.server stages pool.trace) (careful : Careful pool client)
    (awaits : (pool.clients client).Awaits command)
    (move : (stages client).Move command (execute pool.server command).1 stage') :
    Preserving (execute pool.server command).2 (Function.update stages client stage')
        (⟨client, command, (execute pool.server command).1⟩ :: pool.trace) ∧
      (Started pool.trace → pool.server.count ≤ (execute pool.server command).2.count) := by
  have counter := preserving.counter
  unfold Careful at careful
  rw [awaits] at careful
  generalize here : stages client = stage at move
  generalize answer : (execute pool.server command).1 = reply at move ⊢
  cases move with
  | absent empty =>
    exact ⟨preserving.frame rfl counter (fun _ _ member => member) (fun _ _ => rfl) (by simp) (by simp)
      (by simp) (by simp), fun _ => le_rfl⟩
  | @present value built =>
    have ends : endsStart ⟨client, .existsKey .isVirtualFileSystemCreated, .integer value⟩ = true := by
      simpa [endsStart] using built
    exact ⟨preserving.finish ends rfl rfl rfl rfl, fun _ => le_rfl⟩
  | flushall => exact ⟨preserving.flushall careful, fun started => absurd started careful⟩
  | makeRoot => exact ⟨preserving.makeRoot here, fun _ => le_rfl⟩
  | setCount =>
    have one : (execute pool.server (.set .currentIdCount "1".toList)).2.Counts 1 :=
      ⟨by simp [execute, Redis.execute]; decide, by decide, by decide⟩
    refine ⟨preserving.setCount one, fun started => ?_⟩
    rw [one.count]
    exact careful started
  | setFlag =>
    have same : (execute pool.server (.set .isVirtualFileSystemCreated "yes".toList)).2.strings
        .currentIdCount = pool.server.strings .currentIdCount := by
      simp [execute, Redis.execute]
    refine ⟨preserving.finish rfl rfl same rfl rfl, fun _ => ?_⟩
    simp only [Store.count, same]
    exact le_rfl
  | @work place place' _ _ move =>
    subst answer
    have fresh : ∀ info values, command = .hmset info values →
        info = .folderInfo 0 ∨ pool.server.hashes info = [] := by
      rintro info values rfl
      exact careful
    obtain ⟨preserving', more⟩ := preserving_work preserving fresh here move
    exact ⟨preserving', fun _ => more⟩

theorem preserving_keeps :
    (Stage.protocol A).Keeps execute Careful (Preserving : Store → (ι → Stage) → Log ι → Prop) := by
  intro pool stages client command stage' _ preserving careful awaits move
  exact (preserving_step preserving careful awaits move).1

structure Since (earlier : Clients ι A) (server : Store) (stages : ι → Stage) (log : Log ι) : Prop where
  preserving : Preserving server stages log
  created : ∀ {object}, object ∈ createdObjects earlier.trace → object ∈ createdObjects log
  started : Started earlier.trace → Started log
  counter : Started earlier.trace → earlier.server.count ≤ server.count

theorem since_keeps (earlier : Clients ι A) :
    (Stage.protocol A).Keeps execute Careful (Since earlier) := by
  intro pool stages client command stage' _ since careful awaits move
  obtain ⟨preserving, more⟩ := preserving_step since.preserving careful awaits move
  refine ⟨preserving, ?_, fun started => (since.started started).cons _, ?_⟩
  · exact fun member => List.mem_append_right _ (since.created member)
  · exact fun started => (since.counter started).trans (more (since.started started))

theorem start_up (next : ι → FsContext → Prog A)
    (creating : ∀ client context, Creating (next client context)) (early late : List ι)
    (careful : (Pool.start Redis.Store.empty fun client => getInitialContext >>= next client).Obeys
      execute Careful (early ++ late)) :
    let start := Pool.start Redis.Store.empty fun client => getInitialContext >>= next client
    let earlier := start.run execute early
    let later := start.run execute (early ++ late)
    (∀ object ∈ createdObjects earlier.trace,
      object.element ∈ later.server.lists object.list ∧
        later.server.hashes object.info = object.values) ∧
      (Started earlier.trace → earlier.server.count ≤ later.server.count) := by
  intro start earlier later
  obtain ⟨carefulEarly, carefulLate⟩ := (Pool.obeys_append execute Careful start early late).mp careful
  have first : Preserving Redis.Store.empty (fun _ : ι => .arriving) ([] : Log ι) :=
    ⟨by simp, fun _ => rfl, .inl rfl, by simp, by simp, by simp, by simp [createdObjects, Trace.collect]⟩
  have arriving : (Stage.protocol A).Following (fun _ : ι => .arriving) start :=
    fun client => ⟨next client, creating client, rfl⟩
  obtain ⟨stages, following, preserving⟩ := preserving_keeps.run arriving first carefulEarly
  obtain ⟨stages', -, since⟩ := (since_keeps earlier).run following
    ⟨preserving, fun member => member, fun started => started, fun _ => le_rfl⟩ carefulLate
  have same : later = earlier.run execute late := Pool.run_append execute start early late
  rw [same]
  refine ⟨fun object member => ?_, since.counter⟩
  obtain ⟨linked, hash, -, -⟩ := since.preserving.objects (since.created member)
  exact ⟨linked, hash⟩

-- Two clients that each make one folder with the wrapper.
def makesFolder (client : Bool) (context : FsContext) : Prog (Bool × FsContext) :=
  (Call.mkdir (if client then "/b".toList else "/a".toList)).program 1 context

def makeFolders : Clients Bool (Bool × FsContext) :=
  Pool.start .empty fun client => getInitialContext >>= makesFolder client

-- Both find no database and both build it before either has finished.
theorem start_up_together :
    let early := (List.replicate 5 [false, true]).flatten ++ List.replicate 6 false
    let earlier := makeFolders.run execute early
    let later := makeFolders.run execute (early ++ List.replicate 7 true)
    (createdObjects earlier.trace).length = 1 ∧ (createdObjects later.trace).length = 2 ∧
      Started earlier.trace ∧
      (∀ object ∈ createdObjects earlier.trace,
        object.element ∈ later.server.lists object.list ∧
          later.server.hashes object.info = object.values) ∧
        (Started earlier.trace → earlier.server.count ≤ later.server.count) :=
  ⟨by decide +kernel, by decide +kernel, by decide +kernel,
    start_up makesFolder (fun client context => Call.creating _ 1 context) _ (List.replicate 7 true)
      (by decide +kernel)⟩

-- One client has built the database and made its folder when the other flushes.
theorem start_up_flushed :
    let early := [false, true] ++ List.replicate 10 false
    let earlier := makeFolders.run execute early
    let later := makeFolders.run execute (early ++ [true])
    (∀ client context, Creating (makesFolder client context)) ∧
      (createdObjects earlier.trace).map (fun object => (object.list, object.element, object.info)) =
        [(.folderFolders 0, ['1'], .folderInfo 1)] ∧
      later.server.lists (.folderFolders 0) = [] ∧ later.server.hashes (.folderInfo 1) = [] ∧
        Started earlier.trace ∧ earlier.server.count = 2 ∧ later.server.count = -1 :=
  ⟨fun client context => Call.creating _ 1 context, by decide +kernel⟩

end RedisVfs

import RedisVfs.Refinement.Anywhere

set_option autoImplicit false

namespace RedisVfs

open CString

def Store.Gives {A : Type} (store : Store) (getter : Prog A) (value : A) : Prop :=
  getter.run execute store = (.ok value, store)

structure Store.FieldsReadBack (store : Store) (id : Int) (name webUrl : Text) (size : Int) : Prop where
  vfsName : store.Gives (vfsGetFileName id) name
  redisName : store.Gives (redisGetFileName id) name
  vfsSize : store.Gives (vfsGetFileSizeFromId id) size
  redisSize : store.Gives (redisGetFileSizeFromId id) size
  vfsWebUrl : store.Gives (vfsGetFileWebUrl id) webUrl
  redisWebUrl : store.Gives (redisGetFileWebUrl id) webUrl

structure Store.DiffersIn (before after : Store) (key : Key) (field : Field) : Prop where
  strings : after.strings = before.strings
  lists : after.lists = before.lists
  hashes : ∀ key' field', (key', field') ≠ (key, field) →
    (after.hashes key').lookup field' = (before.hashes key').lookup field'

theorem Store.gives_iff {A : Type} {store : Store} {getter : Prog A} {held value : A}
    (ran : store.Gives getter held) : store.Gives getter value ↔ value = held := by
  unfold Store.Gives at *
  simp [ran, eq_comm]

theorem strtol_quoted_size {size : Int} (positive : 0 ≤ size) (bound : size ≤ LONG_MAX) :
    strtol ((quoted (printLu size)).drop 1) = size := by
  obtain ⟨n, rfl⟩ := Int.eq_ofNat_of_zero_le positive
  have ends : ∀ c ∈ (['"'] : Text).head?, c.isDigit = false := by simp
  rw [quoted, List.cons_append, List.drop_succ_cons, List.drop_zero, printLu, unsigned_natCast bound,
    strtol_decimal_append n ends, clampLong_of_le (by unfold LONG_MIN; omega) bound]

section Getters

variable {store : Store} {id : Int} {value : Text}

theorem redisGetFileName_run {name : Text}
    (held : (store.hashes (.fileInfo (unsigned id))).lookup .name = some (quoted name)) :
    store.Gives (redisGetFileName id) name := vfsGetFileName_run held

theorem fileSize_run
    (held : (store.hashes (.fileInfo (unsigned id))).lookup .size = some value) :
    store.Gives (vfsGetFileSizeFromId id) (strtol (value.drop 1)) ∧
      store.Gives (redisGetFileSizeFromId id) (strtol (value.drop 1)) := by
  constructor
  · rw [Store.Gives, vfsGetFileSizeFromId, Program.run_bind_ok execute (hget_run held)]
    rfl
  · rw [Store.Gives, redisGetFileSizeFromId, Program.run_bind_ok execute (hget_run held)]
    rfl

theorem fileWebUrl_run {apiUrl : Text}
    (held : (store.hashes (.fileInfo (unsigned id))).lookup .apiUrl = some (quoted apiUrl)) :
    store.Gives (vfsGetFileWebUrl id) apiUrl ∧
      store.Gives (redisGetFileWebUrl id) (quoted apiUrl) := by
  constructor
  · rw [Store.Gives, vfsGetFileWebUrl, Program.run_bind_ok execute (hget_run held)]
    simp [dereference, Redis.Reply.str]
  · rw [Store.Gives, redisGetFileWebUrl, Program.run_bind_ok execute (hget_run held)]
    rfl

end Getters

theorem created_file_held (store : Store) (parentId : Int) (name : Text) (size : Int)
    (googleId webUrl apiUrl : Text) :
    let after := (Creation.createFile parentId name size googleId webUrl apiUrl).made store
    let hash := after.hashes (.fileInfo (unsigned store.count))
    hash.lookup .name = some (quoted name) ∧ hash.lookup .size = some (quoted (printLu size)) ∧
      hash.lookup .apiUrl = some (quoted apiUrl) := by
  have held := (Creation.createFile parentId name size googleId webUrl apiUrl).made_info store
  simp only [Creation.info] at held
  simp [held, Creation.values, Redis.setFields, Redis.lookup_setField]

theorem vfsSetFileName_run (store : Store) (id : Int) (nameBuffer : Text) (n : Nat) :
    ∃ after, (vfsSetFileName id nameBuffer n).run execute store = (.ok (), after) ∧
      after.Gives (vfsGetFileName id) (nameBuffer.take n) ∧
        after.Gives (redisGetFileName id) (nameBuffer.take n) ∧
          store.DiffersIn after (.fileInfo (unsigned id)) .name := by
  have held : ((execute store (.hset (.fileInfo (unsigned id)) .name
      (quoted (nameBuffer.take n)))).2.hashes (.fileInfo (unsigned id))).lookup .name =
        some (quoted (nameBuffer.take n)) := by
    simp [execute, Redis.execute, Redis.lookup_setField]
  refine ⟨_, rfl, vfsGetFileName_run held, redisGetFileName_run held, rfl, rfl, ?_⟩
  intro key field other
  by_cases same : key = .fileInfo (unsigned id)
  · subst same
    have field_ : field ≠ .name := fun name => other (by rw [name])
    simp [Redis.execute, Redis.lookup_setField, field_]
  · simp [Redis.execute, Function.update_of_ne same]

-- A file's name and size come back from both getters, the web address from neither: they read apiUrl,
-- and one of them leaves the quotes on. A new name replaces the old one and nothing else.
theorem file_fields (store : Store) (parentId : Int) (name googleId webUrl apiUrl : Text) {size : Int}
    (positive : 0 ≤ size) (bound : size ≤ LONG_MAX) :
    (∃ after, (vfsCreateFile parentId name size googleId webUrl apiUrl).run execute store =
        (.ok store.count, after) ∧
      after.Gives (vfsGetFileName store.count) name ∧ after.Gives (redisGetFileName store.count) name ∧
      after.Gives (vfsGetFileSizeFromId store.count) size ∧
      after.Gives (redisGetFileSizeFromId store.count) size ∧
      (after.Gives (vfsGetFileWebUrl store.count) webUrl ↔ webUrl = apiUrl) ∧
      (after.Gives (redisGetFileWebUrl store.count) webUrl ↔ webUrl = quoted apiUrl) ∧
      ¬ after.FieldsReadBack store.count name webUrl size) ∧
    ∀ (id : Int) (nameBuffer : Text) (n : Nat),
      ∃ after, (vfsSetFileName id nameBuffer n).run execute store = (.ok (), after) ∧
        after.Gives (vfsGetFileName id) (nameBuffer.take n) ∧
          after.Gives (redisGetFileName id) (nameBuffer.take n) ∧
            store.DiffersIn after (.fileInfo (unsigned id)) .name := by
  refine ⟨?_, vfsSetFileName_run store⟩
  obtain ⟨nameHeld, sizeHeld, urlHeld⟩ :=
    created_file_held store parentId name size googleId webUrl apiUrl
  obtain ⟨vfsSize, redisSize⟩ := fileSize_run sizeHeld
  obtain ⟨vfsUrl, redisUrl⟩ := fileWebUrl_run urlHeld
  rw [strtol_quoted_size positive bound] at vfsSize redisSize
  refine ⟨_, (Creation.createFile parentId name size googleId webUrl apiUrl).any_run store,
    vfsGetFileName_run nameHeld, redisGetFileName_run nameHeld, vfsSize, redisSize,
    Store.gives_iff vfsUrl, Store.gives_iff redisUrl, ?_⟩
  intro back
  have plain := (Store.gives_iff vfsUrl).mp back.vfsWebUrl
  have longer := congrArg List.length ((Store.gives_iff redisUrl).mp back.redisWebUrl)
  simp only [plain, quoted, List.length_append, List.length_cons, List.length_nil] at longer
  omega

theorem file_fields_three : ∃ after : Store,
    after.Gives (vfsGetFileName 1) "f".toList ∧ after.Gives (vfsGetFileSizeFromId 1) 3 ∧
      ¬ after.FieldsReadBack 1 "f".toList "w".toList 3 := by
  obtain ⟨⟨after, _, name, _, size, _, _, _, broken⟩, _⟩ :=
    @file_fields freshStore 0 "f".toList "g".toList "w".toList "a".toList 3 (by decide) (by decide)
  exact ⟨after, name, size, broken⟩

-- After a creation in a fresh database the two getters answer the apiUrl, one of them in quotes.
theorem file_fields_urls : ∃ after : Store,
    (vfsCreateFile 0 "f".toList 1 "none".toList "https://none.com".toList "http://none".toList).run
        execute freshStore = (.ok 1, after) ∧
      (vfsGetFileWebUrl 1).run execute after = (.ok "http://none".toList, after) ∧
      (redisGetFileWebUrl 1).run execute after = (.ok "\"http://none\"".toList, after) ∧
      ¬ after.FieldsReadBack 1 "f".toList "https://none.com".toList 1 := by
  have urls : ∀ after : Store, (vfsGetFileWebUrl 1).run execute after = (.ok "http://none".toList, after) →
      ¬ after.FieldsReadBack 1 "f".toList "https://none.com".toList 1 := by
    intro after ran back
    have same := (Store.gives_iff ran).mp back.vfsWebUrl
    revert same
    decide
  exact ⟨_, rfl, rfl, rfl, urls _ rfl⟩

end RedisVfs

import RedisVfs.Refinement.Building
import RedisVfs.Refinement.Viewing

set_option autoImplicit false

namespace RedisVfs

open CString

-- The lookup finds a file exactly if one is called by the first characters of the buffer, and finds
-- one called so.
def Store.FindsWhole (store : Store) (d : Int) (buffer : Text) (n : Nat) : Prop :=
  ∃ id, (vfsFindFileNameInDir d buffer n).run execute store = (.ok id, store) ∧
    (id ≠ -1 ↔ ∃ file ∈ store.files (unsigned d), store.fileName file = some (buffer.take n)) ∧
      (id ≠ -1 → store.fileName id = some (buffer.take n))

-- Every file of the list that is called by the word and a '/' stands before one called by the word.
def Store.OldestWhole (store : Store) (d : Int) (word : Text) : Prop :=
  ∀ id older, id :: older <:+ store.files d → store.fileName id = some (word ++ ['/']) →
    ∃ other ∈ older, store.fileName other = some word

-- From the back of a list, a wider test finds what a narrower one finds if everything that only the
-- wider one takes stands before something that both take.
theorem find?_reverse_wider {A : Type} {narrow wide : A → Bool} {values : List A}
    (wider : ∀ value, narrow value = true → wide value = true) :
    values.reverse.find? wide = values.reverse.find? narrow ↔
      ∀ value rest, value :: rest <:+ values → wide value = true → narrow value = false →
        ∃ other ∈ rest, narrow other = true := by
  induction values with
  | nil => simp
  | cons head values ih =>
    have split : (∀ value rest, value :: rest <:+ head :: values → wide value = true →
        narrow value = false → ∃ other ∈ rest, narrow other = true) ↔
          (wide head = true → narrow head = false → ∃ other ∈ values, narrow other = true) ∧
            values.reverse.find? wide = values.reverse.find? narrow := by
      rw [ih]
      simp only [List.suffix_cons_iff, List.cons.injEq, or_imp, forall_and, and_imp,
        forall_eq_apply_imp_iff, forall_eq]
    rw [split, List.reverse_cons, List.find?_append, List.find?_append]
    cases last : values.reverse.find? narrow with
    | some other =>
      have member : other ∈ values := List.mem_reverse.mp (List.mem_of_find?_eq_some last)
      have taken : narrow other = true := List.find?_some last
      have present : ∃ other ∈ values, narrow other = true := ⟨other, member, taken⟩
      cases found : values.reverse.find? wide with
      | some value => simp [present]
      | none =>
        have missed := List.find?_eq_none.mp found other (List.mem_reverse.mpr member)
        exact absurd (wider other taken) missed
    | none =>
      have absent : ¬ ∃ other ∈ values, narrow other = true := by simpa using last
      cases found : values.reverse.find? wide with
      | none =>
        have narrower := wider head
        cases wide_ : wide head <;> cases narrow_ : narrow head <;> simp_all
      | some value =>
        have member : value ∈ values := List.mem_reverse.mp (List.mem_of_find?_eq_some found)
        refine iff_of_false (fun same => ?_) (by simp)
        have alone : [head].find? narrow = some value := by simpa using same.symm
        exact absent ⟨value, member, List.find?_some alone⟩

theorem History.findFile_exact {history : History} {d id : Nat} {word : Text} {slash : Bool}
    (found : history.findFile d word slash = some id) (called : history.name id = word) :
    history.findFile d word false = some id := by
  unfold History.findFile at found ⊢
  rw [List.find?_eq_some_iff_append] at found ⊢
  obtain ⟨_, before, after, split, missed⟩ := found
  refine ⟨by simp [fileNamed, called], before, after, split, fun other member => ?_⟩
  have differs := missed other member
  cases slash <;> simp_all [fileNamed]

namespace Tree

variable (tree : Tree)

theorem fileNamed_any {name : Option Text} {word : Text} {slash : Bool} :
    name.any (fileNamed word slash) = true ↔
      name = some word ∨ slash = true ∧ name = some (word ++ ['/']) := by
  cases name <;> simp [fileNamed]

theorem oldestWhole_iff (d : Nat) (word : Text) :
    tree.store.OldestWhole d word ↔
      tree.history.findFile d word true = tree.history.findFile d word false := by
  have wider (id : Int) (named : (tree.store.fileName id).any (fileNamed word false) = true) :
      (tree.store.fileName id).any (fileNamed word true) = true := by
    rw [fileNamed_any] at named ⊢
    simpa using named.imp_right fun impossible => absurd impossible.1 (by decide)
  have cast : Function.Injective (Option.map (Nat.cast : Nat → Int)) :=
    Option.map_injective Nat.cast_injective
  have differ : word ++ ['/'] ≠ word := by simp
  rw [← cast.eq_iff, ← tree.oldestFile_store, ← tree.oldestFile_store, Store.oldestFile,
    Store.oldestFile, find?_reverse_wider wider]
  refine forall_congr' fun id => forall_congr' fun older => imp_congr_right fun _ => ?_
  have only : tree.store.fileName id = some (word ++ ['/']) ↔
      (tree.store.fileName id).any (fileNamed word true) = true ∧
        (tree.store.fileName id).any (fileNamed word false) = false := by
    rw [fileNamed_any, ← Bool.not_eq_true, fileNamed_any]
    constructor
    · intro named
      simp [named]
    · rintro ⟨rfl_ | ⟨_, named⟩, other⟩
      · exact absurd (.inl rfl_) other
      · exact named
  rw [only, and_imp]
  simp [fileNamed_any]

theorem buffer_run (d : Int) {buffer : Text} {n : Nat} (bound : n ≤ buffer.length)
    (free : ∀ k < n, buffer[k]? ≠ some '/') (ends : ∀ c ∈ buffer[n]?, c = '/') :
    (vfsFindFileNameInDir d buffer n).run execute tree.store =
      (.ok (asId (tree.history.findFile (unsigned d) (buffer.take n) (buffer[n]? = some '/'))),
        tree.store) := by
  have length : (buffer.take n).length = n := List.length_take_of_le bound
  have wordFree : Segments.Free '/' (buffer.take n) := by
    intro member
    obtain ⟨k, less, same⟩ := List.mem_iff_getElem.mp member
    rw [length] at less
    refine free k less ?_
    rw [List.getElem?_eq_getElem (by omega), ← same, List.getElem_take]
  have follows : Follows (buffer[n]? = some '/') (buffer.drop n) := by
    unfold Follows
    cases rest : buffer.drop n with
    | nil =>
      have past : buffer[n]? = none := by rw [← List.head?_drop, rest]; rfl
      simp [past]
    | cons c after =>
      have next : buffer[n]? = some c := by rw [← List.head?_drop, rest]; rfl
      have slash : c = '/' := ends c next
      simp [next, slash]
  have run := tree.findFile_run d wordFree follows
  rwa [List.take_append_drop, length] at run

theorem findsWhole_iff {d : Int} {buffer : Text} {n : Nat} {slash : Bool}
    (run : (vfsFindFileNameInDir d buffer n).run execute tree.store =
      (.ok (asId (tree.history.findFile (unsigned d) (buffer.take n) slash)), tree.store)) :
    tree.store.FindsWhole d buffer n ↔
      tree.history.findFile (unsigned d) (buffer.take n) slash =
        tree.history.findFile (unsigned d) (buffer.take n) false := by
  have listed : (∃ file ∈ tree.store.files (unsigned d), tree.store.fileName file = some (buffer.take n)) ↔
      tree.history.findFile (unsigned d) (buffer.take n) false ≠ none := by
    rw [Ne, tree.findFile_open, not_not]
    exact List.mem_map.symm
  have named {id : Nat} (found : tree.history.findFile (unsigned d) (buffer.take n) slash = some id) :
      tree.store.fileName id = some (tree.history.name id) :=
    tree.fileName_store (History.mem_of_findFile found).1
  simp only [Store.FindsWhole, run, listed, Prod.mk.injEq, Except.ok.injEq, and_true]
  constructor
  · rintro ⟨_, rfl, whether, which⟩
    cases found : tree.history.findFile (unsigned d) (buffer.take n) slash with
    | none => simpa [found, asId, eq_comm] using whether
    | some id =>
      rw [found] at which
      have called := which (by simp [asId])
      rw [asId, named found, Option.some.injEq] at called
      exact (History.findFile_exact found called).symm
  · intro same
    refine ⟨_, rfl, by rw [← same, Ne, asId_eq_neg_one], ?_⟩
    intro known
    obtain ⟨id, found⟩ := Option.ne_none_iff_exists'.mp (asId_eq_neg_one.not.mp known)
    have called := (History.mem_of_findFile (same.symm.trans found)).2
    rw [found, asId, named found]
    simpa [fileNamed] using called

end Tree

-- The lookup of a component finds the file called so unless a '/' follows it and a file called by the
-- component and a '/' is older than every file called by the component; then, and only then, does it
-- depend on what follows.
theorem whole_components {state : State} (reached : Reachable state) (d : Int) {buffer : Text} {n : Nat}
    (bound : n ≤ buffer.length) (free : ∀ k < n, buffer[k]? ≠ some '/')
    (ends : ∀ c ∈ buffer[n]?, c = '/') :
    (state.store.FindsWhole d buffer n ↔
      (buffer[n]? = some '/' → state.store.OldestWhole (unsigned d) (buffer.take n))) ∧
      ∀ other : Text, n ≤ other.length → (∀ c ∈ other[n]?, c = '/') → other.take n = buffer.take n →
        ((vfsFindFileNameInDir d other n).run execute state.store =
            (vfsFindFileNameInDir d buffer n).run execute state.store ↔
          other[n]? = buffer[n]? ∨ state.store.OldestWhole (unsigned d) (buffer.take n)) := by
  obtain ⟨tree, cwd, holds⟩ := reached.represented
  rw [holds.store]
  have run := tree.buffer_run d bound free ends
  rw [tree.oldestWhole_iff]
  constructor
  · rw [tree.findsWhole_iff run]
    by_cases slash : buffer[n]? = some '/' <;> simp [slash]
  · intro other otherBound otherEnds shared
    have otherFree : ∀ k < n, other[k]? ≠ some '/' := by
      intro k less
      rw [← List.getElem?_take_of_lt less, shared, List.getElem?_take_of_lt less]
      exact free k less
    have otherRun := tree.buffer_run d otherBound otherFree otherEnds
    rw [shared] at otherRun
    rw [run, otherRun, Prod.mk.injEq, Except.ok.injEq, asId_injective.eq_iff]
    have ending {text : Text} (slashed : ∀ c ∈ text[n]?, c = '/') : text[n]? = none ∨ text[n]? = some '/' := by
      cases next : text[n]? with
      | none => exact .inl rfl
      | some c => exact .inr (congrArg some (slashed c next))
    rcases ending ends with here | here <;> rcases ending otherEnds with there | there <;>
      simp [here, there, eq_comm]

theorem whole_components_folder_and_file : ∃ state : State, state.store.files 0 = [2] ∧
    state.store.FindsWhole 0 "f/x".toList 1 := by
  obtain ⟨tree, history, reached⟩ := reachable_folder_and_file
  have whole := @whole_components _ reached 0 "f/x".toList 1 (by decide) (by decide) (by simp)
  have oldest : tree.store.OldestWhole (unsigned 0) ("f/x".toList.take 1) :=
    (tree.oldestWhole_iff (unsigned 0) _).mpr (by rw [history]; decide)
  exact ⟨_, by rw [Tree.store, history]; decide, whole.1.mpr fun _ => oldest⟩

-- The file "w/" is what the lookup of "w" finds where the path goes on.
theorem whole_components_closing_slash : ∃ state : State, Reachable state ∧
    ¬ state.store.FindsWhole 0 "w/x".toList 1 ∧
      (vfsFindFileNameInDir 0 "w/x".toList 1).run execute state.store = (.ok 1, state.store) ∧
      (vfsFindFileNameInDir 0 "w".toList 1).run execute state.store = (.ok (-1), state.store) := by
  obtain ⟨tree, made, reached⟩ := reachable_creating [(.file, "w/".toList)] (by decide)
  have history : tree.history = [⟨.file, 0, "w/".toList⟩] := by rw [made]; decide
  have slash := @Tree.buffer_run tree 0 "w/x".toList 1 (by decide) (by decide) (by simp)
  have alone := @Tree.buffer_run tree 0 "w".toList 1 (by decide) (by decide) (by simp)
  have longer : tree.history.findFile (unsigned 0) ("w/x".toList.take 1) true = some 1 := by
    rw [history]; decide
  have absent : tree.history.findFile (unsigned 0) ("w".toList.take 1) false = none := by
    rw [history]; decide
  have found : (vfsFindFileNameInDir 0 "w/x".toList 1).run execute tree.store = (.ok 1, tree.store) :=
    slash.trans (congrArg (fun file => (Except.ok (asId file), tree.store)) longer)
  refine ⟨_, reached, ?_, found,
    alone.trans (congrArg (fun file => (Except.ok (asId file), tree.store)) absent)⟩
  rintro ⟨id, ran, _, which⟩
  obtain rfl : 1 = id := Except.ok.inj (congrArg Prod.fst (found.symm.trans ran))
  have called := which (by decide)
  simp only [Tree.store, history] at called
  revert called
  decide

end RedisVfs

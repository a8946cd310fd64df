import RedisVfs.Properties.SiblingNames
import RedisVfs.Refinement.Buffering

set_option autoImplicit false

namespace RedisVfs

open CString Buffered

structure Store.StaysInside (store : Store) : Prop where
  findFile : ∀ d fileName length, ¬ Overflows store (Buffered.vfsFindFileNameInDir d fileName length)
  findDir : ∀ d dirName length, ¬ Overflows store (Buffered.vfsFindDirNameInDir d dirName length)
  ls : ∀ d, ¬ Overflows store (Buffered.vfsLs d)
  listUnixStyle : ∀ d, ¬ Overflows store (Buffered.vfsListUnixStyle d)

namespace Store

def ChildrenFit (store : Store) : Prop := ∀ d, store.ListingFits d

def HasRoom (store : Store) (d : Int) (name : Text) : Prop :=
  name.length < MAX_FILENAME_SIZE ∧ store.listingSize (unsigned d) + (53 + name.length) < LINE_SIZE

end Store

-- Every creation that gets past the parser has a short name and goes where there is room for it.
def CreatesFitting (state : State) (call : Call) : Prop :=
  call.isCreation → ∀ formattedPath parserState, state.Parses call.path formattedPath parserState →
    state.store.HasRoom parserState.parentId (formattedPath.drop parserState.nameOffset)

namespace Tree

variable (tree : Tree)

theorem childNames_store (d : Nat) : tree.store.childNames d = (tree.history.siblings d).map some :=
  tree.siblings_store d

theorem listingSize_store (d : Nat) :
    tree.store.listingSize d = ((tree.history.siblings d).map fun name => 53 + name.length).sum := by
  rw [Store.listingSize, tree.childNames_store, List.map_map]
  rfl

theorem staysInside_iff : tree.store.StaysInside ↔ tree.store.ChildrenFit := by
  constructor
  · exact fun inside d => (tree.shows d).vfsListUnixStyle_inside.mp (inside.listUnixStyle d)
  · intro fits
    have short (d : Int) := (tree.shows d).short_iff.mp (fits d).1
    refine ⟨fun d fileName length => ?_, fun d dirName length => ?_, fun d => ?_, fun d => ?_⟩
    · rw [(tree.shows d).findFile_overflows]
      exact not_not.mpr (short d).2
    · exact (tree.shows d).findDir_inside dirName length (short d).1
    · exact (tree.shows d).vfsLs_inside.mpr (short d)
    · exact (tree.shows d).vfsListUnixStyle_inside.mpr (fits d)

theorem siblings_perm (kind : Kind) (parent : Nat) (name : Text) (d : Nat) :
    (History.siblings (⟨kind, parent, name⟩ :: tree.history) d).Perm
      (if parent = d then name :: tree.history.siblings d else tree.history.siblings d) := by
  rw [History.siblings_cons]
  split
  · cases kind with
    | folder => exact List.Perm.refl _
    | file =>
      rw [History.siblings, List.map_append]
      exact List.perm_middle
  · exact List.Perm.refl _

theorem childrenFit_extend (kind : Kind) (parentId : Int) (name : Text)
    (takes : tree.history.Takes (unsigned parentId) name) (accepts : tree.store.Accepts) :
    (tree.extend kind (unsigned parentId, name) takes accepts).store.ChildrenFit ↔
      tree.store.ChildrenFit ∧ tree.store.HasRoom parentId name := by
  have perm (d : Nat) := tree.siblings_perm kind (unsigned parentId) name d
  have names (d : Nat) (word : Text) :
      some word ∈ (tree.extend kind (unsigned parentId, name) takes accepts).store.childNames d ↔
        (unsigned parentId = d ∧ word = name) ∨ some word ∈ tree.store.childNames d := by
    rw [childNames_store, childNames_store, extend_history]
    simp only [List.mem_map, Option.some.injEq, exists_eq_right, (perm d).mem_iff]
    split <;> simp_all
  have size (d : Nat) : (tree.extend kind (unsigned parentId, name) takes accepts).store.listingSize d =
      (if unsigned parentId = d then 53 + name.length else 0) + tree.store.listingSize d := by
    rw [listingSize_store, listingSize_store, extend_history,
      ((perm d).map fun word => 53 + word.length).sum_nat]
    split <;> simp
  unfold Store.ChildrenFit Store.ListingFits Store.HasRoom
  simp only [names, size]
  constructor
  · intro fits
    refine ⟨fun d => ⟨fun word member => (fits d).1 word (.inr member), ?_⟩, ?_, ?_⟩
    · exact Nat.lt_of_le_of_lt (Nat.le_add_left _ _) (fits d).2
    · exact (fits parentId).1 name (.inl ⟨rfl, rfl⟩)
    · have total := (fits parentId).2
      rw [if_pos rfl] at total
      omega
  · rintro ⟨fits, short, room⟩ d
    refine ⟨?_, ?_⟩
    · rintro word (⟨_, rfl⟩ | member)
      · exact short
      · exact (fits d).1 word member
    · split
      next here =>
        rw [← here]
        omega
      next => simpa using (fits d).2

end Tree

theorem Creates.fitting {state : State} {tree tree' : Tree} {cwd : Text} {call : Call}
    (holds : Represents state tree cwd) (allowed : CreatesFitting state call)
    (creates : Creates tree cwd call tree') (fits : tree.store.ChildrenFit) : tree'.store.ChildrenFit := by
  obtain ⟨kind, path, formattedPath, parserState, takes, accepts, rfl, parses, rfl⟩ := creates.creation
  obtain rfl := holds.state_eq
  have room := allowed (by simp) formattedPath parserState (by simpa using parses)
  exact (tree.childrenFit_extend kind _ _ takes accepts).mpr ⟨fits, room⟩

theorem segment_of_free {word : Text} (free : Segments.Free '/' word) (named : word ≠ []) :
    segment word = some ([], word, false) := by
  rw [segment, Segments.rest_of_free free, Segments.words_of_free free, if_pos named]

theorem placeOfPath_fresh {name : Text} (legal : Legal name) :
    Tree.fresh.history.placeOfPath name = some (0, name) := by
  obtain ⟨named, free, here, above⟩ := legal
  have segmented := segment_of_free free named
  unfold History.placeOfPath
  cases located : locate ('/' :: name) with
  | none => exact absurd (locate_root located) named
  | some location =>
    have parts : location.folders = [] ∧ location.last = name ∧ location.slash = false := by
      rw [locate, dif_pos (by simp)] at located
      unfold locateIn at located
      split at located
      next found => exact absurd (found.symm.trans segmented) (by simp)
      next found =>
        have shape := found.symm.trans segmented
        cases located
        simpa using shape
    obtain ⟨folders, last, slash⟩ := parts
    have absent : Tree.fresh.history.lookup 0 name false = none := by
      simp [History.lookup, History.findFile, History.folderNamed, History.findFolder, here, above,
        Tree.fresh, Journal.children]
    simp only [History.place, folders, History.walk, last, slash, if_neg named, absent]
    simp [trail]

theorem long_legal (extra : Nat) : Legal (List.replicate (extra + 3) 'a') := by
  have short {word : Text} (fits : word.length < 3) : List.replicate (extra + 3) 'a' ≠ word := by
    rintro rfl
    rw [List.length_replicate] at fits
    omega
  refine ⟨short (by decide), fun slash => ?_, short (by decide), short (by decide)⟩
  have letter := List.eq_of_mem_replicate slash
  revert letter
  decide

theorem Represents.parses_of_place {state : State} {tree : Tree} {cwd body : Text} {place : Nat × Text}
    (holds : Represents state tree cwd) (small : tree.Small)
    (placed : tree.history.placeOfPath body = some place) :
    state.Parses ('/' :: body) ('/' :: body) (tree.history.parse 0 ('/' :: body)).2 :=
  holds.parses_small small 0 (tree.history.format_bare 0 cwd body)
    (Prod.ext ((tree.parse_place body).resolve_left (by simp [placed])).1 rfl)

theorem Represents.createsFitting {state : State} {tree : Tree} {cwd body name : Text} {parentId : Int}
    (holds : Represents state tree cwd) (small : tree.Small) (kind : Kind)
    (placed : tree.history.placeOfPath body = some (unsigned parentId, name))
    (room : tree.store.HasRoom parentId name) : CreatesFitting state (kind.call ('/' :: body)) := by
  intro _ formattedPath parserState parses
  rw [Kind.call_path] at parses
  obtain ⟨rfl, rfl⟩ := parses.unique (holds.parses_of_place small placed)
  have answer := ((tree.parse_place body).resolve_left (by simp [placed])).2
  obtain ⟨place, shape⟩ := Prod.mk.injEq .. ▸ Option.some.inj (placed.symm.trans answer)
  unfold Store.HasRoom
  rw [holds.store, ← shape, ← place]
  exact room

theorem ReachedBy.childrenFit {state : State} (reached : ReachedBy CreatesFitting state) :
    ∃ tree cwd, Represents state tree cwd ∧ tree.store.ChildrenFit := by
  have fresh : Tree.fresh.store.ChildrenFit := by
    intro d
    rw [Store.ListingFits, Tree.childNames_store, Tree.listingSize_store]
    simp [Tree.fresh, History.siblings, Journal.children, LINE_SIZE]
  exact reached.tree (P := fun tree => tree.store.ChildrenFit) fresh
    fun before tree cwd call tree' _ holds allowed creates => creates.fitting holds allowed

-- In runs whose creations have room, the lookups and listings stay inside their buffers in every state;
-- a state where they do has children that fit, and the first creation without room leaves one where
-- they do not. The path builder stays inside its buffers exactly if the text that it builds does.
theorem strings_fit (state : State) :
    (ReachedBy CreatesFitting state → state.store.StaysInside) ∧
      (Reachable state → (state.store.StaysInside ↔ state.store.ChildrenFit) ∧
        ∀ (f : Int) (bufferLength : Nat),
          (∀ fuel, ¬ Overflows state.store (Buffered.vfsGetDirPathFromId fuel f bufferLength)) ↔
            state.store.PathFits f bufferLength) ∧
      ∀ (call : Call) (formattedPath : Text) (parserState : VfsPathParserState) (fuel : Nat)
        (result : Bool) (context : FsContext) (store : Store), Reachable state → state.store.Accepts →
          call.isCreation → state.Parses call.path formattedPath parserState →
            ¬ state.store.HasRoom parserState.parentId (formattedPath.drop parserState.nameOffset) →
              (call.program fuel state.context).run execute state.store =
                (.ok (result, context), store) → ¬ store.StaysInside := by
  refine ⟨?_, ?_, ?_⟩
  · intro reached
    obtain ⟨tree, cwd, holds, fits⟩ := reached.childrenFit
    exact holds.store ▸ tree.staysInside_iff.mpr fits
  · intro reached
    obtain ⟨tree, cwd, holds⟩ := reached.represented
    rw [holds.store]
    exact ⟨tree.staysInside_iff, tree.buffered_dirPath_iff⟩
  · intro call formattedPath parserState fuel result context store reached accepts creation parses
      crowded ran
    obtain ⟨tree, cwd, holds⟩ := reached.represented
    obtain ⟨kind, path, rfl⟩ := creation_cases creation
    rw [Kind.call_path] at parses
    rw [holds.creation accepts kind parses] at ran
    split at ran
    · simp at ran
    next =>
      obtain ⟨_, rfl⟩ := by simpa using ran
      have extended := tree.childrenFit_extend kind _ _ (holds.takes parses) (holds.store ▸ accepts)
      rw [holds.store] at crowded
      intro inside
      exact crowded (extended.mp ((Tree.staysInside_iff _).mp inside)).2

theorem strings_fit_crowded : ∃ state : State, ReachedBy CreatesFitting state ∧
    state.store.folders 0 = [1] ∧ state.store.StaysInside ∧ state.store.ChildrenFit ∧
      ∃ fuel path store, ((Call.mkdir path).program fuel { cwd := ['/'] }).run execute
        Tree.fresh.store = (.ok (true, { cwd := ['/'] }), store) ∧ ¬ store.StaysInside := by
  have built : ReachedBy CreatesFitting ⟨Tree.fresh.store, { cwd := ['/'] }⟩ := .built Redis.Store.empty
  have holds : Represents ⟨Tree.fresh.store, { cwd := ['/'] }⟩ Tree.fresh [] := ⟨rfl, rfl⟩
  have reachable : Reachable ⟨Tree.fresh.store, { cwd := ['/'] }⟩ := built.mono fun _ _ _ => trivial
  have small := Tree.small_fresh
  have placed : Tree.fresh.history.placeOfPath "a".toList = some (unsigned 0, "a".toList) := by decide
  have room : Tree.fresh.store.HasRoom 0 "a".toList := by
    unfold Store.HasRoom
    rw [Tree.listingSize_store]
    decide
  obtain ⟨tree, history, first⟩ := ReachedBy.creates small built .folder placed
    (holds.createsFitting small .folder placed room)
  have inside := (strings_fit _).1 first
  have fits := ((strings_fit _).2.1 (first.mono fun _ _ _ => trivial)).1.mp inside
  obtain ⟨name, legal, long⟩ : ∃ name, Legal name ∧ name.length = MAX_FILENAME_SIZE :=
    ⟨_, long_legal 9997, List.length_replicate⟩
  have placed' := placeOfPath_fresh legal
  have answer := ((Tree.fresh.parse_place name).resolve_left (by simp [placed'])).2
  have dropped : name = _ := congrArg Prod.snd (Option.some.inj (placed'.symm.trans answer))
  obtain ⟨tree', _, run⟩ := Tree.fresh.create_absolute small [] .folder placed'
  refine ⟨_, first, ?_, inside, fits, 0, '/' :: name, tree'.store, run 0, ?_⟩
  · rw [Tree.store, history]; decide
  · refine (strings_fit _).2.2 (.mkdir ('/' :: name)) _ _ _ _ _ _ reachable
      small.accepts rfl (holds.parses_of_place small placed')
      (fun room => ?_) (run 0)
    have short : name.length < MAX_FILENAME_SIZE := dropped ▸ room.1
    rw [long] at short
    exact Nat.lt_irrefl _ short

-- One file with a name of 10000 characters; and one byte does not hold the path of the root.
theorem strings_fit_overflow : ∃ state : State, Reachable state ∧
    (state.store.files 0).map state.store.fileName = [some (List.replicate 10000 'a')] ∧
      Overflows state.store (Buffered.vfsFindFileNameInDir 0 "a".toList 1) ∧
        Overflows state.store (Buffered.vfsLs 0) ∧
          Overflows state.store (Buffered.vfsListUnixStyle 0) ∧
            Overflows state.store (Buffered.vfsGetDirPathFromId 0 0 1) := by
  have built : Reachable ⟨Tree.fresh.store, { cwd := ['/'] }⟩ := .built Redis.Store.empty
  have length : (List.replicate 10000 'a').length = MAX_FILENAME_SIZE := List.length_replicate
  have placed := placeOfPath_fresh (long_legal 9997)
  generalize List.replicate 10000 'a' = name at length placed ⊢
  obtain ⟨tree, history, reached⟩ := ReachedBy.creates Tree.small_fresh built .file placed trivial
  have children : tree.history.childFiles 0 = [1] := by rw [history]; rfl
  have named : tree.history.name 1 = name := by rw [history]; rfl
  have long : ¬ tree.history.Short (tree.history.childFiles (unsigned 0)) := by
    intro short
    have fits := short 1 (show 1 ∈ tree.history.childFiles 0 by simp [children])
    rw [named, length] at fits
    exact Nat.lt_irrefl _ fits
  have shows := tree.shows 0
  refine ⟨_, reached, ?_, (shows.findFile_overflows _ _).mpr long, ?_, ?_, rfl⟩
  · refine (tree.fileNames_store 0).trans ?_
    rw [children, List.map_singleton, named]
  · exact not_not.mp fun inside => long (shows.vfsLs_inside.mp inside).2
  · exact not_not.mp fun inside => long (shows.short_iff.mp (shows.vfsListUnixStyle_inside.mp inside).1).2

end RedisVfs

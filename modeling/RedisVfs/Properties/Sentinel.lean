import RedisVfs.Refinement.Building
import RedisVfs.Refinement.Listing
import RedisVfs.Refinement.Stating

set_option autoImplicit false

namespace RedisVfs

open CString

-- The last component is empty: the path is "/", or it ends in "//".
def Nameless (path : Text) : Prop := (components path).getLast? = some []

instance (path : Text) : Decidable (Nameless path) := inferInstanceAs (Decidable (_ = _))

def CreatesNamed (state : State) (call : Call) : Prop :=
  call.isCreation → ∀ formattedPath parserState, state.Parses call.path formattedPath parserState →
    ¬ Nameless formattedPath

def Store.SentinelFree (store : Store) : Prop :=
  store.lists (.folderFolders (unsigned (-1))) = [] ∧ store.lists (.folderFiles (unsigned (-1))) = [] ∧
    ∀ id, (store.hashes (.folderInfo id)).lookup .parent ≠ some (printLu (-1))

-- What does not resolve lists nothing.
def State.ListsResolved (state : State) : Prop :=
  ∀ path, (getFolderIdFromPath state.context path).run execute state.store = (.ok (-1), state.store) →
    (lsPath state.context path).run execute state.store = (.ok [], state.store) ∧
      (getFiles state.context path).run execute state.store = (.ok [], state.store) ∧
        (getFolders state.context path).run execute state.store = (.ok [], state.store) ∧
          (lsPrettyPrint state.context path).run execute state.store = (.ok [], state.store)

namespace Tree

variable (tree : Tree)

theorem unlisted_iff (kind : Kind) :
    Journal.children tree.history kind nowhere = [] ↔
      ∀ id entry, Journal.entryAt tree.history id = some entry → entry.kind = kind →
        entry.parent ≠ nowhere := by
  rw [List.eq_nil_iff_forall_not_mem]
  constructor
  · intro none id entry found sort parent
    exact none id (Journal.mem_children.mpr ⟨entry, found, sort, parent⟩)
  · intro clear id member
    obtain ⟨entry, found, sort, parent⟩ := Journal.mem_children.mp member
    exact clear id entry found sort parent

theorem parent_held {id : Int} {parent : Text}
    (held : (tree.store.hashes (.folderInfo id)).lookup .parent = some parent) :
    parent = decimal 0 ∨ ∃ number entry, Journal.entryAt tree.history number = some entry ∧
      parent = decimal entry.parent := by
  by_cases root : id = 0
  · rw [root, History.store_root] at held
    exact .inl (Option.some.inj held).symm
  · have present : tree.store.hashes (.folderInfo id) ≠ [] := fun empty => by simp [empty] at held
    obtain ⟨number, entry, found, same⟩ := History.store_info_entry (by simpa using root) present
    rw [same, History.store_info_some found, infoHash] at held
    cases kind : entry.kind with
    | folder =>
      rw [kind] at held
      exact .inr ⟨number, entry, found, (Option.some.inj held).symm⟩
    | file =>
      rw [kind] at same
      simp [infoKey] at same

theorem sentinelFree_iff :
    tree.store.SentinelFree ↔
      ∀ id entry, Journal.entryAt tree.history id = some entry → entry.parent ≠ nowhere := by
  rw [Store.SentinelFree, unsigned_sentinel, History.store_folderFolders, History.store_folderFiles,
    List.map_eq_nil_iff, List.map_eq_nil_iff, tree.unlisted_iff, tree.unlisted_iff]
  constructor
  · rintro ⟨noFolder, noFile, _⟩ id entry found
    cases kind : entry.kind with
    | folder => exact noFolder id entry found kind
    | file => exact noFile id entry found kind
  · intro clear
    refine ⟨fun id entry found _ => clear id entry found, fun id entry found _ => clear id entry found,
      fun id held => ?_⟩
    rw [printLu, unsigned_sentinel] at held
    rcases tree.parent_held held with root | ⟨number, entry, found, same⟩
    · exact absurd (decimal_injective root) (by decide)
    · exact clear number entry found (decimal_injective same).symm

theorem sentinelFree_extend (kind : Kind) (place : Nat × Text)
    (takes : tree.history.Takes place.1 place.2) (accepts : tree.store.Accepts) :
    (tree.extend kind place takes accepts).store.SentinelFree ↔
      tree.store.SentinelFree ∧ place.1 ≠ nowhere := by
  rw [sentinelFree_iff, sentinelFree_iff, extend_history]
  exact Journal.forall_entry_cons (P := fun entry => entry.parent ≠ nowhere)

variable {tree}

theorem above_fits (clear : tree.store.SentinelFree) {id p : Int}
    (read : tree.above (implicitInt id) = .ok p) : 0 ≤ p ∧ p < 2 ^ 31 := by
  unfold above at read
  split at read
  next value held =>
    obtain rfl := Except.ok.inj read
    have range := implicitInt_range id
    have bounded := tree.bounded
    obtain ⟨rfl, root | ⟨entry, found⟩⟩ := tree.above_held held
    · rw [root, strtol_decimal]
      simp [History.parent, Journal.parent, Journal.entryAt_zero, clampLong, LONG_MIN, LONG_MAX]
    · have bound := (Journal.entryAt_le found).2
      have early : unsigned (implicitInt id) < 2 ^ 31 := by
        unfold unsigned LONG_MAX at *
        omega
      have placed := (tree.grown.entry found).resolve_left
        fun lost => tree.sentinelFree_iff.mp clear _ _ found lost.1
      have lower := tree.parent_older found (placed.2.2 early.le).le
      rw [strtol_decimal, History.parent, Journal.parent_of_entry found]
      unfold clampLong LONG_MIN LONG_MAX
      omega
  next => simp at read

theorem parsed_nowhere (clear : tree.store.SentinelFree) {d result : Int} {body : Text}
    {parserState : VfsPathParserState} (parse : tree.store.parsed d ('/' :: body) = .ok (result, parserState))
    (found : result ≠ -1) : unsigned parserState.parentId = nowhere ↔ Nameless ('/' :: body) := by
  rw [Nameless, components_slash]
  rcases Store.parsed_ok parse found with ⟨located, rfl⟩ | ⟨location, tempId, located, known, walk, read⟩
  · obtain rfl := locate_root located
    decide
  · have last : ([] :: components body).getLast? = some location.last := by
      rw [Location.components located, ← List.cons_append, List.getLast?_concat]
    rw [last, Option.some.injEq]
    rcases (parseLastName_ok read).2 with ⟨unnamed, parent⟩ | ⟨named, parent⟩
    · rw [parent, unsigned_sentinel]
      exact iff_of_true rfl unnamed
    · refine iff_of_false ?_ named
      have bounded := tree.bounded
      rcases parent with same | ⟨id, p, above, same⟩
      · have there := tree.numbered.walkLoop ⟨by omega, by omega⟩ walk
        unfold Ranged at there
        unfold unsigned nowhere LONG_MAX at *
        omega
      · rw [tree.above_run] at above
        have range := above_fits clear (congrArg Prod.fst above)
        rw [same, implicitInt_of_small (by omega) range.2]
        unfold unsigned nowhere
        omega

variable (tree)

theorem listsResolved (clear : tree.store.SentinelFree) (context : FsContext) :
    State.ListsResolved ⟨tree.store, context⟩ := by
  have folders : tree.history.childFolders (unsigned (-1)) = [] := by
    have none := clear.1
    rwa [History.store_folderFolders, List.map_eq_nil_iff] at none
  have files : tree.history.childFiles (unsigned (-1)) = [] := by
    have none := clear.2.1
    rwa [History.store_folderFiles, List.map_eq_nil_iff] at none
  intro path unresolved
  have names := (tree.shows (-1)).lsPath_run unresolved
  have fileRun := (tree.shows (-1)).getFiles_run unresolved
  have folderRun := (tree.shows (-1)).getFolders_run unresolved
  have printed := (tree.shows (-1)).lsPrettyPrint_run unresolved
  simp only [folders, files] at names fileRun folderRun printed
  exact ⟨names, fileRun, folderRun, printed⟩

end Tree

theorem State.Parses.nowhere_iff {state : State} {tree : Tree} {cwd path formattedPath : Text}
    {parserState : VfsPathParserState} (parses : state.Parses path formattedPath parserState)
    (holds : Represents state tree cwd) (clear : tree.store.SentinelFree) :
    unsigned parserState.parentId = nowhere ↔ Nameless formattedPath := by
  obtain rfl := holds.state_eq
  obtain ⟨_, _, format, _, parse⟩ := State.parses_iff.mp parses
  obtain ⟨body, rfl⟩ := Store.format_absolute format
  exact Tree.parsed_nowhere clear parse (by decide)

theorem Creates.sentinelFree {state : State} {tree tree' : Tree} {cwd : Text} {call : Call}
    (holds : Represents state tree cwd) (allowed : CreatesNamed state call)
    (creates : Creates tree cwd call tree') (clear : tree.store.SentinelFree) :
    tree'.store.SentinelFree := by
  obtain ⟨kind, path, formattedPath, parserState, takes, accepts, rfl, parses, rfl⟩ := creates
  rw [← holds.state_eq] at parses
  have named := allowed (by simp) formattedPath parserState (by simpa using parses)
  rw [Tree.sentinelFree_extend, Ne, parses.nowhere_iff holds clear]
  exact ⟨clear, named⟩

-- The number -1 stays out of the store as long as every creation is under a path with a last name,
-- and the first one that is not brings it in.
theorem sentinel_free (state : State) :
    (ReachedBy CreatesNamed state → state.store.SentinelFree ∧ state.ListsResolved) ∧
      ∀ (call : Call) (formattedPath : Text) (parserState : VfsPathParserState)
        (fuel : Nat) (result : Bool) (context : FsContext) (store : Store), Reachable state →
          state.store.Accepts → call.isCreation → state.Parses call.path formattedPath parserState →
            Nameless formattedPath →
              (call.program fuel state.context).run execute state.store =
                (.ok (result, context), store) → ¬ store.SentinelFree := by
  constructor
  · intro reached
    have fresh : Tree.fresh.store.SentinelFree := by
      rw [Tree.sentinelFree_iff]
      simp [Tree.fresh, Journal.entryAt]
    obtain ⟨tree, cwd, holds, clear⟩ := reached.tree (P := fun tree => tree.store.SentinelFree) fresh
      fun before tree cwd call tree' _ holds allowed creates => creates.sentinelFree holds allowed
    obtain rfl := holds.state_eq
    exact ⟨clear, tree.listsResolved clear _⟩
  · intro call formattedPath parserState fuel result context store reached accepts creation parses
      nameless ran
    obtain ⟨tree, cwd, holds⟩ := reached.represented
    obtain ⟨kind, path, rfl⟩ := creation_cases creation
    rw [Kind.call_path] at parses
    rw [holds.creation accepts kind parses] at ran
    split at ran
    · simp at ran
    next =>
      obtain ⟨_, rfl⟩ := by simpa using ran
      have extended := tree.sentinelFree_extend kind
        (unsigned parserState.parentId, formattedPath.drop parserState.nameOffset) (holds.takes parses)
        (holds.store ▸ accepts)
      intro clear
      have before := extended.mp clear
      exact before.2 ((parses.nowhere_iff holds before.1).mpr nameless)

theorem State.Parses.absolute {state : State} {body formattedPath : Text}
    {parserState : VfsPathParserState} (parses : state.Parses ('/' :: body) formattedPath parserState) :
    formattedPath = '/' :: body := by
  obtain ⟨fuel, _, formatRun, _⟩ := parses
  have run : (formatToValidPath fuel state.context ('/' :: body)).run execute state.store =
      (.ok ('/' :: body), state.store) := rfl
  rw [run] at formatRun
  exact (Except.ok.inj (congrArg Prod.fst formatRun)).symm

theorem sentinel_free_nested : ∃ state : State,
    state.store.lists (.folderFolders 0) = ["1".toList] ∧
      state.store.lists (.folderFiles 1) = ["2".toList] ∧ state.store.SentinelFree ∧
        state.ListsResolved ∧
          ∀ (fuel : Nat) (result : Bool) (context : FsContext) (store : Store),
            ((Call.createFile "/a//".toList).program fuel state.context).run execute state.store =
              (.ok (result, context), store) → ¬ store.SentinelFree := by
  have named : ∀ creation ∈ [(Kind.folder, "a".toList), (Kind.file, "a/f".toList)],
      ¬ Nameless ('/' :: creation.2) := by decide
  obtain ⟨tree, made, reached⟩ := @reachedBy_creating CreatesNamed
    [(.folder, "a".toList), (.file, "a/f".toList)]
    (fun state creation member _ formattedPath parserState parses => by
      rw [Kind.call_path] at parses
      rw [parses.absolute]
      exact named creation member) (by decide)
  have history : tree.history = [⟨.file, 1, "f".toList⟩, ⟨.folder, 0, "a".toList⟩] := by
    rw [made]; decide
  have reached' : Reachable ⟨tree.store, { cwd := ['/'] }⟩ := reached.mono fun _ _ _ => trivial
  have parses : State.Parses ⟨tree.store, { cwd := ['/'] }⟩ "/a//".toList "/a//".toList
      (tree.history.parse 0 "/a//".toList).2 :=
    Represents.parses_small ⟨rfl, rfl⟩ (by rw [Tree.Small, history]; decide) 0 rfl (by rw [history]; decide)
  obtain ⟨clear, resolved⟩ := (sentinel_free _).1 reached
  refine ⟨_, ?_, ?_, clear, resolved, fun fuel result context store ran => ?_⟩
  · rw [Tree.store, history]; decide
  · rw [Tree.store, history]; decide
  · exact (sentinel_free _).2 (.createFile "/a//".toList) _ _ fuel result context store reached'
      (tree.accepts_iff.mpr (by rw [history]; decide)) rfl parses (by decide) ran

-- After mkdir("/") every path that does not resolve lists a folder.
theorem sentinel_free_root : ∃ state : State,
    ReachedBy (fun _ call => call = .mkdir "/".toList) state ∧ ¬ state.store.SentinelFree ∧
      ¬ state.ListsResolved := by
  obtain ⟨tree, made, reached⟩ := @reachedBy_creating (fun _ call => call = .mkdir "/".toList)
    [(.folder, [])] (by simp [Kind.call]) (by decide)
  have history : tree.history = [⟨.folder, nowhere, ['/']⟩] := by rw [made]; decide
  refine ⟨_, reached, fun clear => ?_, fun resolved => ?_⟩
  · have entries := tree.sentinelFree_iff.mp clear 1 ⟨.folder, nowhere, ['/']⟩ (by rw [history]; rfl)
    exact entries rfl
  · have walk : tree.history.walk 0 (components "x".toList) = none := by rw [history]; decide
    have small : tree.Small := by rw [Tree.Small, history]; decide
    have unresolved := tree.store.folderId_run { cwd := ['/'] } "/x".toList
    have lost : tree.store.folderId { cwd := ['/'] } "/x".toList = .ok (-1) :=
      (@Tree.folderId_linked tree [] "x".toList (small.within .root _) (small.within .root _)).trans
        (by rw [walk]; rfl)
    rw [lost] at unresolved
    have listed := (resolved "/x".toList unresolved).1
    have names := (tree.shows (-1)).lsPath_run unresolved
    have same := Except.ok.inj (congrArg Prod.fst (listed.symm.trans names))
    rw [history] at same
    revert same
    decide

end RedisVfs

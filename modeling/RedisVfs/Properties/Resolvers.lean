import RedisVfs.Refinement.Building
import RedisVfs.Refinement.Stating
import RedisVfs.Refinement.Viewing

set_option autoImplicit false

namespace RedisVfs

open CString Directory

-- A walk that answers f and a parser that answers a code and a state tell the same.
def Alike (f code : Int) (parserState : VfsPathParserState) : Prop :=
  (∀ g, g ≠ -1 → (f = g ↔ code = 0 ∧ parserState.isDir = true ∧
    parserState.isExistingObject = true ∧ parserState.id = g)) ∧
  (f = -1 ↔ code ≠ 0 ∨ parserState.isFilePath = true ∨ parserState.isExistingObject = false)

-- The walk reads the path closed by a '/', the parser reads it as it is.
def Store.ResolversAgree (store : Store) (d : Int) (path : Text) : Prop :=
  ∃ f code parserState, (getDirIdFromPath d path).run execute store = (.ok f, store) ∧
    (vfsParsePath initVfsPathParserState path path.length d).run execute store =
      (.ok (code, parserState), store) ∧ Alike f code parserState

-- Where the folders of the path lead to a folder, the last name is not empty; and if no '/' follows
-- it, no file there is called the name and a '/' while no file has the name itself and a folder is
-- found under it.
def Store.LastNameAlike (store : Store) (d : Int) (path : Text) : Prop :=
  ∀ location, locate path = some location →
    ∀ m, store.view.leads (origin d path) location.folders = some m →
      location.last ≠ [] ∧
        (location.slash = false → some (location.last ++ ['/']) ∈ store.view.files m →
          some location.last ∈ store.view.files m ∨ store.view.named m location.last = none)

namespace Tree

variable (tree : Tree)

theorem lookup_open_iff {m : Nat} (linked : tree.history.Linked m) (word : Text) :
    (∀ id, tree.history.lookup m word false = some (.folder, id) ↔ tree.history.enter m word = some id) ↔
      (some (word ++ ['/']) ∈ tree.store.view.files m →
        some word ∈ tree.store.view.files m ∨ tree.store.view.named m word = none) := by
  have looked (id : Nat) : tree.history.lookup m word false = some (.folder, id) ↔
      some word ∉ tree.store.view.files m ∧ tree.history.folderNamed m word = some id := by
    rw [← tree.findFile_open, History.lookup]
    cases tree.history.findFile m word false with
    | some file => simp
    | none => cases tree.history.folderNamed m word <;> simp
  have entered (id : Nat) : tree.history.enter m word = some id ↔
      (some word ∉ tree.store.view.files m ∧ some (word ++ ['/']) ∉ tree.store.view.files m) ∧
        tree.history.folderNamed m word = some id := by
    rw [← tree.findFile_closed, History.enter_eq_some]
  simp only [looked, entered, tree.named_store linked, Option.map_eq_none_iff]
  constructor
  · intro same closed
    by_contra other
    obtain ⟨absent, present⟩ := not_or.mp other
    obtain ⟨id, named⟩ := Option.ne_none_iff_exists'.mp present
    exact ((same id).mp ⟨absent, named⟩).1.2 closed
  · intro clear id
    constructor
    · rintro ⟨absent, named⟩
      refine ⟨⟨absent, fun closed => ?_⟩, named⟩
      rcases clear closed with present | missing
      · exact absent present
      · rw [named] at missing
        simp at missing
    · rintro ⟨⟨absent, _⟩, named⟩
      exact ⟨absent, named⟩

theorem lookup_closed (m : Nat) (word : Text) (id : Nat) :
    tree.history.lookup m word true = some (.folder, id) ↔ tree.history.enter m word = some id := by
  unfold History.enter
  cases tree.history.lookup m word true with
  | none => simp
  | some object =>
    obtain ⟨kind, other⟩ := object
    cases kind <;> simp

end Tree

theorem alike_missing {found : Option Nat} (parserState : VfsPathParserState)
    (noFolder : parserState.isDir = false)
    (told : parserState.isFilePath = true ∨ parserState.isExistingObject = false) :
    Alike (asId found) 0 parserState ↔ found = none := by
  rw [← asId_eq_neg_one]
  constructor
  · intro alike
    exact alike.2.mpr (.inr told)
  · intro missing
    rw [missing]
    exact ⟨fun g known => by simp [noFolder, Ne.symm known], by simp [told]⟩

theorem alike_folder {found : Option Nat} (parserState : VfsPathParserState) (id : Nat)
    (folder : parserState.isDir = true) (exists_ : parserState.isExistingObject = true)
    (noFile : parserState.isFilePath = false) (named : parserState.id = id) :
    Alike (asId found) 0 parserState ↔ found = some id := by
  rw [← asId_eq_natCast]
  constructor
  · intro alike
    exact (alike.1 id (by omega)).mpr ⟨rfl, folder, exists_, named⟩
  · intro same
    rw [same]
    refine ⟨fun g _ => by simp [folder, exists_, named], ?_⟩
    simp only [ne_eq, not_true_eq_false, noFile, exists_, Bool.false_eq_true, Bool.true_eq_false, or_self,
      iff_false]
    omega

theorem alike_iff {history : History} {location : Location} {m : Nat} {entered : Option Nat}
    (named : location.last ≠ []) :
    Alike (asId entered) 0 (history.parseIn location m) ↔
      ∀ id, history.lookup m location.last location.slash = some (.folder, id) ↔ entered = some id := by
  unfold History.parseIn
  rw [if_neg named]
  cases history.lookup m location.last location.slash with
  | none =>
    simp only [alike_missing { location.parserState with
      isExistingObject := false, parentId := m } rfl (.inr rfl)]
    simp [Option.eq_none_iff_forall_ne_some]
  | some object =>
    obtain ⟨kind, id⟩ := object
    cases kind with
    | file =>
      simp only [alike_missing { location.parserState with
        id := id, isFilePath := true, isDir := false, parentId := m } rfl (.inl rfl)]
      simp [Option.eq_none_iff_forall_ne_some]
    | folder =>
      simp only [alike_folder { location.parserState with
        id := id, isFilePath := false, isDir := true, parentId := history.parent id }
          id rfl rfl rfl rfl]
      constructor
      · rintro rfl other
        simp
      · intro same
        exact (same id).mp rfl

theorem not_alike_unnamed {history : History} {location : Location} {m : Nat} {found : Option Nat}
    (unnamed : location.last = []) : ¬ Alike (asId found) 0 (history.parseIn location m) := by
  unfold History.parseIn
  rw [if_pos unnamed]
  rintro ⟨same, missing⟩
  have none : asId found ≠ -1 := by simp [missing, Location.parserState, initVfsPathParserState]
  have folder := ((same (asId found) none).mp rfl).2.1
  simp [Location.parserState, initVfsPathParserState] at folder

theorem Tree.resolversAgree_iff (tree : Tree) {d : Int} {start : Nat} {path : Text} (nonempty : path ≠ [])
    (from_ : origin d path = start) (there : tree.history.Linked start)
    (within : PathWithin tree.history.view (· < 2 ^ 31) start path) :
    tree.store.ResolversAgree d path ↔
      Alike (asId (tree.history.walk start (components (path.drop (pathLead path).length))))
        (tree.history.parse start path).1 (tree.history.parse start path).2 := by
  have walkRun := tree.getDirId_any_run d nonempty
  have parseRun := tree.parsePath_from initVfsPathParserState there nonempty from_ within.parse
  rw [from_, tree.wander_linked there within.walk] at walkRun
  unfold Store.ResolversAgree
  rw [walkRun, parseRun]
  simp only [Except.ok.injEq, and_true, Prod.ext_iff]
  constructor
  · rintro ⟨_, _, _, rfl, ⟨rfl, rfl⟩, alike⟩
    exact alike
  · intro alike
    exact ⟨_, _, _, rfl, ⟨rfl, rfl⟩, alike⟩

theorem Tree.alike_last_iff (tree : Tree) {location : Location} {m : Nat}
    (reach : tree.history.Linked m) :
    Alike (asId (tree.history.enter m location.last)) 0 (tree.history.parseIn location m) ↔
      location.last ≠ [] ∧
        (location.slash = false → some (location.last ++ ['/']) ∈ tree.store.view.files m →
          some location.last ∈ tree.store.view.files m ∨
            tree.store.view.named m location.last = none) := by
  constructor
  · intro alike
    have named : location.last ≠ [] := fun empty => not_alike_unnamed empty alike
    refine ⟨named, fun open_ => ?_⟩
    have same := (alike_iff named).mp alike
    rw [open_] at same
    exact (tree.lookup_open_iff reach location.last).mp same
  · rintro ⟨named, last⟩
    apply (alike_iff named).mpr
    cases slash : location.slash with
    | true => exact tree.lookup_closed m location.last
    | false => exact (tree.lookup_open_iff reach location.last).mpr (last slash)

end RedisVfs

import RedisVfs.Refinement.Building
import RedisVfs.Refinement.Removing

set_option autoImplicit false

namespace RedisVfs

open CString Directory

-- The objects that a last name stands for in the folder `m`, each with its parent: those that are called
-- exactly so, and with '.' and '..' that folder and the one above, except the root.
inductive Store.NamedIn (store : Store) (m : Int) (word : Text) : Kind → Int → Int → Prop
  | file {id : Int} (listed : id ∈ store.files m) (called : store.fileName id = some word) :
      NamedIn store m word .file id m
  | folder {id : Int} (listed : id ∈ store.folders m) (called : store.folderName id = some word) :
      NamedIn store m word .folder id m
  | dots {id parentId : Int}
      (up : word = ['.'] ∧ id = m ∨ word = ['.', '.'] ∧ store.folderParent m = some id)
      (nonroot : id ≠ ROOT_FOLDER_ID) (above : store.folderParent id = some parentId) :
      NamedIn store m word .folder id parentId

def Store.Names (store : Store) (d : Int) (path : Text) (kind : Kind) (id parentId : Int) : Prop :=
  ∃ location m, locate path = some location ∧ store.view.Walk (origin d path) location.folders m ∧
    store.NamedIn m location.last kind id parentId

def Store.ResolvesTo (store : Store) (d : Int) (path : Text) (id : Int) : Prop :=
  ∃ junk parserState, (vfsParsePath junk path path.length d).run execute store =
      (.ok (0, parserState), store) ∧ parserState.isExistingObject = true ∧ parserState.id = id

-- The call returns 0 exactly if the path names an object, and then takes one such object out of its
-- parent's list, where the path does not lead to it any more; otherwise it changes nothing.
def Store.DeletesExactly (store : Store) (junk : VfsPathParserState) (d : Int) (path : Text) : Prop :=
  ∃ code after, (vfsDeleteObjectWithPath junk path d).run execute store = (.ok code, after) ∧
    (code = 0 ↔ ∃ kind id parentId, store.Names d path kind id parentId) ∧
    (code = 0 → ∃ kind id parentId, store.Names d path kind id parentId ∧
      store.LosesOnly after (Kind.list kind parentId) (printLd id) ∧ ¬ after.ResolvesTo d path id) ∧
    (code ≠ 0 → after = store)

def Dotted (word : Text) : Prop := word = ['.'] ∨ word = ['.', '.']

-- The folders of the path are led through under their exact names to the folder `m`, and what is found
-- there for the last name is called exactly so; or it is what '.' or '..' stands for, not the root, and
-- its parent was led through. Where nothing is found, no object has that path.
structure Store.FoundExactly (store : Store) (start : Int) (location : Location) (m : Int) : Prop where
  named : location.last ≠ []
  file : ∀ id, store.oldestFile m location.last location.slash = some id →
    store.view.Walk start location.folders m ∧ store.fileName id = some location.last
  folder : store.oldestFile m location.last location.slash = none → ¬ Dotted location.last →
    ∀ id, store.view.named m location.last = some id →
      store.view.Walk start location.folders m ∧ store.folderName id = some location.last
  dotted : store.oldestFile m location.last location.slash = none → Dotted location.last →
    ∀ id, store.view.named m location.last = some id → id ≠ ROOT_FOLDER_ID ∧
      (∃ e, store.view.Walk start location.folders e ∧
        (store.view.Step e location.last id ∨ id ∈ store.folders e ∧ store.folderName id = some location.last)) ∧
      ∃ before parentId, before <+: location.folders ∧ store.view.leads start before = some parentId ∧
        store.folderParent id = some parentId
  missing : store.oldestFile m location.last location.slash = none → store.view.named m location.last = none →
    ∀ e, store.view.Walk start location.folders e → some location.last ∉ store.view.files e ∧
      ∀ id ∈ store.folders e, store.folderName id ≠ some location.last

-- The condition; of an empty path the parser leaves the state as it was.
def Store.LastNameExact (store : Store) (junk : VfsPathParserState) (d : Int) (path : Text) : Prop :=
  (path = [] → junk.isExistingObject = false) ∧
  (path ≠ [] → ∃ location m, locate path = some location ∧
    store.view.leads (origin d path) location.folders = some m ∧ store.FoundExactly (origin d path) location m)

theorem Store.Names.located {store : Store} {d id parentId : Int} {path : Text} {kind : Kind}
    (named : store.Names d path kind id parentId) : locate path ≠ none := by
  obtain ⟨location, _, located, _⟩ := named
  simp [located]

section Exactly

variable {store after : Store} {junk : VfsPathParserState} {d code : Int} {path : Text}

theorem deletesExactly_iff
    (run : (vfsDeleteObjectWithPath junk path d).run execute store = (.ok code, after)) :
    store.DeletesExactly junk d path ↔
      (code = 0 ↔ ∃ kind id parentId, store.Names d path kind id parentId) ∧
      (code = 0 → ∃ kind id parentId, store.Names d path kind id parentId ∧
        store.LosesOnly after (Kind.list kind parentId) (printLd id) ∧ ¬ after.ResolvesTo d path id) ∧
      (code ≠ 0 → after = store) := by
  constructor
  · rintro ⟨code', after', run', exact⟩
    rw [run] at run'
    cases run'
    exact exact
  · exact fun exact => ⟨code, after, run, exact⟩

theorem not_deletesExactly (run : (vfsDeleteObjectWithPath junk path d).run execute store = (.ok 0, store)) :
    ¬ store.DeletesExactly junk d path := by
  intro exact
  obtain ⟨kind, id, parentId, _, loses, _⟩ := ((deletesExactly_iff run).mp exact).2.1 rfl
  exact loses.ne rfl

theorem not_deletesExactly_unnamed
    (run : (vfsDeleteObjectWithPath junk path d).run execute store = (.ok 0, after))
    (unnamed : ∀ kind id parentId, ¬ store.Names d path kind id parentId) :
    ¬ store.DeletesExactly junk d path := by
  intro exact
  obtain ⟨kind, id, parentId, named⟩ := ((deletesExactly_iff run).mp exact).1.mp rfl
  exact unnamed kind id parentId named

theorem deletesExactly_unnamed
    (run : (vfsDeleteObjectWithPath junk path d).run execute store = (.ok (-1), store)) :
    store.DeletesExactly junk d path ↔ ∀ kind id parentId, ¬ store.Names d path kind id parentId := by
  rw [deletesExactly_iff run]
  constructor
  · rintro ⟨failed, -, -⟩ kind id parentId named
    exact absurd (failed.mpr ⟨kind, id, parentId, named⟩) (by decide)
  · intro unnamed
    refine ⟨iff_of_false (by decide) ?_, fun done => absurd done (by decide), fun _ => rfl⟩
    rintro ⟨kind, id, parentId, named⟩
    exact unnamed kind id parentId named

end Exactly

theorem Store.Readable.resolvesTo_iff {store : Store} {inside : Int → Prop} (readable : store.Readable inside)
    {d start id : Int} {path : Text} {location : Location} (here : inside start) (from_ : origin d path = start)
    (located : locate path = some location) (named : location.last ≠ [])
    (within : ParsesWithin store.view (· < 2 ^ 31) start path) :
    store.ResolvesTo d path id ↔ ∃ e, store.view.leads start location.folders = some e ∧
      (store.oldestFile e location.last location.slash = some id ∨
        store.view.seek e location.last location.slash = some id) := by
  subst from_
  have nonempty : path ≠ [] := (locate_some located).1 ▸ location.text_ne_nil
  have run := readable.parsePath_run nonempty here within
  rw [Store.parse, located] at run
  have states : Nonempty VfsPathParserState := ⟨initVfsPathParserState⟩
  unfold Store.ResolvesTo
  simp only [run, Store.view_seek]
  cases led : store.view.leads (origin d path) location.folders with
  | none => simp
  | some e =>
    simp only [Store.parseIn, named, if_false, Option.some.injEq, exists_eq_left']
    cases file : store.oldestFile e location.last location.slash with
    | some other => simp [Location.parserState, initVfsPathParserState]
    | none =>
      cases folder : store.view.named e location.last <;>
        simp [Location.parserState, initVfsPathParserState]

namespace Tree

variable {tree : Tree} {start : Nat} {path : Text} {location : Location} {d : Int}

theorem deletesExactly_removed {kind : Kind} {p id : Nat} (listed : id ∈ tree.whole.children kind p)
    {junk : VfsPathParserState}
    (run : (vfsDeleteObjectWithPath junk path d).run execute tree.store =
      (.ok 0, (tree.whole.remove listed).store)) :
    tree.store.DeletesExactly junk d path ↔
      tree.store.Names d path kind id p ∧ ¬ (tree.whole.remove listed).store.ResolvesTo d path id := by
  have loses := Pruned.losesOnly_remove listed
  rw [whole_store] at loses
  rw [deletesExactly_iff run]
  constructor
  · rintro ⟨_, removed, _⟩
    obtain ⟨kind', id', parentId, named, loses', gone⟩ := removed rfl
    obtain ⟨list, entry⟩ := loses.unique loses'
    rw [← printLd_natCast] at entry
    obtain rfl := printLd_injective entry
    have same : kind = kind' ∧ (p : Int) = parentId := by
      cases kind <;> cases kind' <;> simp [listKey, Kind.list] at list ⊢
      · exact list
      · exact list
    obtain ⟨rfl, rfl⟩ := same
    exact ⟨named, gone⟩
  · rintro ⟨named, gone⟩
    refine ⟨iff_of_true rfl ⟨_, _, _, named⟩, fun _ => ⟨_, _, _, named, ?_, gone⟩, fun failed => absurd rfl failed⟩
    rwa [← listKey_list, printLd_natCast]

theorem named_plain {store : Store} {d e : Int} {word : Text} (plain : ¬ Dotted word)
    (found : store.view.named d word = some e) : e ∈ store.folders d := by
  obtain ⟨dot, dots⟩ := not_or.mp plain
  rw [View.named, if_neg dot, if_neg dots] at found
  exact List.mem_of_find?_eq_some found

theorem namedIn_dotted {x : Nat} (linked : tree.history.Linked x)
    (listed : x ∈ tree.whole.children .folder (tree.history.parent x)) (nonroot : x ≠ 0) {word : Text}
    (dotted : Dotted word) (e : Int) :
    tree.store.NamedIn e word .folder x (tree.history.parent x) ↔
      tree.store.view.Step e word x ∨ (x : Int) ∈ tree.store.folders e ∧ tree.store.folderName x = some word := by
  have parent := tree.folderParent_store linked
  have rootless : (x : Int) ≠ ROOT_FOLDER_ID := by unfold ROOT_FOLDER_ID; omega
  constructor
  · intro object
    cases object with
    | folder member called => exact .inr ⟨member, called⟩
    | dots up =>
      rcases up with ⟨dot, rfl⟩ | ⟨dots, above⟩
      · exact .inl (dot ▸ .dot _)
      · exact .inl (dots ▸ .dots above)
  · rintro (step | ⟨member, name⟩)
    · refine .dots ?_ rootless parent
      rcases dotted with dot | dots
      · rw [dot] at step
        cases step with
        | dot => exact .inl ⟨dot, rfl⟩
        | named proper => exact absurd rfl proper.2.1
      · rw [dots] at step
        cases step with
        | dots above => exact .inr ⟨dots, above⟩
        | named proper => exact absurd rfl proper.2.2
    · have child := tree.mem_folders_store.mpr (mem_whole.mp listed)
      obtain rfl : e = tree.history.parent x := tree.forest _ _ _ member child
      exact .folder member name

section Found

variable (there : tree.history.Linked start) (from_ : origin d path = start)
  (located : locate path = some location)

include from_ located

theorem names_iff {kind : Kind} {id parentId : Int} :
    tree.store.Names d path kind id parentId ↔
      ∃ m, tree.store.view.Walk start location.folders m ∧ tree.store.NamedIn m location.last kind id parentId := by
  rw [Store.Names, from_]
  constructor
  · rintro ⟨location', m, located', walk, named⟩
    cases located.symm.trans located'
    exact ⟨m, walk, named⟩
  · rintro ⟨m, walk, named⟩
    exact ⟨location, m, located, walk, named⟩

theorem exact_iff {m : Int} (junk : VfsPathParserState)
    (led : tree.store.view.leads start location.folders = some m) :
    tree.store.LastNameExact junk d path ↔ tree.store.FoundExactly start location m := by
  have nonempty : path ≠ [] := (locate_some located).1 ▸ location.text_ne_nil
  simp [Store.LastNameExact, nonempty, located, from_, led]

include there

theorem delete_found {m : Int} (junk : VfsPathParserState)
    (within : ParsesWithin tree.store.view (· < 2 ^ 31) start path)
    (led : tree.store.view.leads start location.folders = some m) {code : Int} {after : Store}
    (answer : tree.store.deleted (tree.store.parseIn location m) = (code, after)) :
    (vfsDeleteObjectWithPath junk path d).run execute tree.store = (.ok code, after) := by
  have nonempty : path ≠ [] := (locate_some located).1 ▸ location.text_ne_nil
  have parse := tree.readable.parsePath_run nonempty (from_ ▸ ⟨start, rfl, there⟩) (from_ ▸ within) junk
  rw [Store.parse, located, from_] at parse
  simp only [led] at parse
  rw [delete_run parse, answer]

theorem not_exact_unnamed {m : Int} (junk : VfsPathParserState)
    (within : ParsesWithin tree.store.view (· < 2 ^ 31) start path)
    (led : tree.store.view.leads start location.folders = some m) (empty : location.last = []) :
    ¬ tree.store.DeletesExactly junk d path := by
  refine not_deletesExactly (delete_found there from_ located junk within led ?_)
  simp [Store.parseIn, empty, Store.deleted, Location.parserState, initVfsPathParserState]

theorem unresolved {kind : Kind} {p id : Nat} (listed : id ∈ tree.whole.children kind p)
    (named : location.last ≠ [])
    (within : ParsesWithin (tree.whole.remove listed).store.view (· < 2 ^ 31) start path)
    (apart : ∀ e f : Int, (tree.whole.remove listed).store.view.leads start location.folders = some e →
      (tree.whole.remove listed).store.view.named e location.last = some f → f ≠ id) :
    ¬ (tree.whole.remove listed).store.ResolvesTo d path id := by
  have readable : (tree.whole.remove listed).store.Readable fun d => ∃ n : Nat, d = n ∧ tree.history.Linked n :=
    Pruned.readable_linked
  rw [readable.resolvesTo_iff ⟨start, rfl, there⟩ from_ located named within]
  rintro ⟨e, led, file | folder⟩
  · obtain ⟨n, rfl, _⟩ := readable.closed.leads ⟨start, rfl, there⟩ led
    exact Pruned.not_in_files listed n (List.mem_reverse.mp (List.mem_of_find?_eq_some file))
  · exact apart e id led (Store.view_seek.mp folder).2 rfl

section Last

variable {m : Nat} (junk : VfsPathParserState)
  (within : ParsesWithin tree.store.view (· < 2 ^ 31) start path)
  (led : tree.store.view.leads start location.folders = some (m : Int)) (named : location.last ≠ [])

omit from_ located in
include led in
theorem arrived : tree.history.Linked m := by
  rw [tree.leads_store there, Option.map_eq_some_iff] at led
  obtain ⟨n, walk, same⟩ := led
  obtain rfl : n = m := by exact_mod_cast same
  exact there.walk walk

include within led named

theorem exact_missing (noFile : tree.store.oldestFile m location.last location.slash = none)
    (noFolder : tree.store.view.named m location.last = none) :
    tree.store.DeletesExactly junk d path ↔ tree.store.FoundExactly start location m := by
  have run := @delete_found tree start path location d there from_ located m junk within led (-1) tree.store
    (by simp [Store.parseIn, named, noFile, noFolder, Store.deleted])
  rw [deletesExactly_unnamed run]
  simp only [names_iff from_ located]
  constructor
  · intro unnamed
    refine ⟨named, by simp [noFile], by simp [noFolder], by simp [noFolder], fun _ _ e walk => ⟨fun file => ?_, ?_⟩⟩
    · obtain ⟨id, listed, called⟩ := List.mem_map.mp file
      exact unnamed .file id e ⟨e, walk, .file listed called⟩
    · exact fun id listed called => unnamed .folder id e ⟨e, walk, .folder listed called⟩
  · rintro ⟨-, -, -, -, missing⟩ kind id parentId ⟨e, walk, object⟩
    obtain ⟨noFileCalled, noFolderCalled⟩ := missing noFile noFolder e walk
    cases object with
    | file listed called => exact noFileCalled (List.mem_map.mpr ⟨id, listed, called⟩)
    | folder listed called => exact noFolderCalled id listed called
    | dots up =>
      rcases up with ⟨dot, -⟩ | ⟨dots, -⟩
      · simp [View.named, dot] at noFolder
      · have parent := tree.folderParent_store (arrived there led)
        simp [View.named, dots, Store.view, parent] at noFolder

theorem exact_root (noFile : tree.store.oldestFile m location.last location.slash = none)
    (found : tree.store.view.named m location.last = some 0) :
    tree.store.DeletesExactly junk d path ↔ tree.store.FoundExactly start location m := by
  refine iff_of_false (not_deletesExactly (delete_found there from_ located junk within led ?_)) ?_
  · have parent : tree.store.folderParent 0 = some 0 := by
      simpa [History.parent] using tree.folderParent_store .root
    have same : (execute tree.store (.lrem (.folderFolders 0) (printLd 0))).2 = tree.store := by
      rcases tree.whole.lrem_store (.folderFolders 0) (printLd 0) with same | ⟨kind, p, id, listed, -, entry, -⟩
      · rwa [whole_store] at same
      · have positive := (Journal.children_le (mem_whole.mp listed)).1
        rw [← printLd_natCast] at entry
        have zero := printLd_injective entry
        omega
    simp [Store.parseIn, named, noFile, found, parent, Store.deleted, Location.parserState,
      initVfsPathParserState, same]
  · rintro ⟨-, -, folder, dotted, -⟩
    by_cases dots : Dotted location.last
    · exact (dotted noFile dots 0 found).1 rfl
    · have unlisted := @Pruned.root_unlisted tree.whole m
      rw [whole_store] at unlisted
      exact unlisted (named_plain dots found)

variable (after : ∀ code store, (vfsDeleteObjectWithPath junk path d).run execute tree.store = (.ok code, store) →
  ParsesWithin store.view (· < 2 ^ 31) start path)

include after

theorem exact_file {id : Int} (file : tree.store.oldestFile m location.last location.slash = some id) :
    tree.store.DeletesExactly junk d path ↔ tree.store.FoundExactly start location m := by
  have member := List.mem_reverse.mp (List.mem_of_find?_eq_some file)
  obtain ⟨n, child, rfl⟩ := List.mem_map.mp (tree.files_store m ▸ member)
  have listed : n ∈ tree.whole.children .file m := mem_whole.mpr child
  have answer : tree.store.deleted (tree.store.parseIn location m) = (0, (tree.whole.remove listed).store) := by
    rw [← Pruned.lrem_listed listed, whole_store]
    simp [Store.parseIn, named, file, Store.deleted, Location.parserState, initVfsPathParserState, listKey,
      printLd_natCast]
  have run := delete_found there from_ located junk within led answer
  have gone := unresolved there from_ located listed named (after _ _ run) fun e f led' found same => by
    have here := Pruned.readable_linked.closed.leads ⟨start, rfl, there⟩ led'
    obtain ⟨x, rfl, linked⟩ := Pruned.readable_linked.closed.named here found
    obtain rfl : x = n := by exact_mod_cast same
    obtain ⟨entry, stored, kind, -⟩ := Journal.mem_children.mp child
    rcases tree.linked_folder linked with root | ⟨entry', stored', kind'⟩
    · exact absurd (Journal.children_le child).1 (by omega)
    · cases stored.symm.trans stored'
      cases kind.symm.trans kind'
  rw [deletesExactly_removed listed run, names_iff from_ located]
  have called : (∃ e, tree.store.view.Walk start location.folders e ∧
      tree.store.NamedIn e location.last .file n m) ↔
      tree.store.view.Walk start location.folders m ∧ tree.store.fileName n = some location.last := by
    constructor
    · rintro ⟨e, walk, object⟩
      cases object with
      | file _ called => exact ⟨walk, called⟩
    · rintro ⟨walk, called⟩
      exact ⟨m, walk, .file member called⟩
  rw [called]
  constructor
  · rintro ⟨exact, -⟩
    refine ⟨named, ?_, ?_, ?_, ?_⟩
    · rintro id same
      cases file.symm.trans same
      exact exact
    all_goals simp [file]
  · exact fun exact => ⟨exact.file n file, gone⟩

section Folder

variable {x : Nat} (linked : tree.history.Linked x)
  (listed : x ∈ tree.whole.children .folder (tree.history.parent x))
  (noFile : tree.store.oldestFile m location.last location.slash = none)
  (found : tree.store.view.named m location.last = some (x : Int))

include linked noFile found

omit after in
theorem delete_folder : (vfsDeleteObjectWithPath junk path d).run execute tree.store =
    (.ok 0, (tree.whole.remove listed).store) := by
  have parent := tree.folderParent_store linked
  refine delete_found there from_ located junk within led ?_
  rw [← Pruned.lrem_listed listed, whole_store]
  simp [Store.parseIn, named, noFile, found, parent, Store.deleted, Location.parserState, initVfsPathParserState,
    listKey, printLd_natCast]

include listed

theorem exact_plain (plain : ¬ Dotted location.last) :
    tree.store.DeletesExactly junk d path ↔ tree.store.FoundExactly start location m := by
  have run := delete_folder there from_ located junk within led named linked listed noFile found
  have gone := unresolved there from_ located listed named (after _ _ run) fun e f _ found same =>
    Pruned.not_in_folders listed e (same ▸ named_plain plain found)
  have member := named_plain plain found
  have parent : tree.history.parent x = m := by
    obtain ⟨entry, stored, kind, above⟩ := Journal.mem_children.mp (tree.mem_folders_store.mp member)
    rw [History.parent, Journal.parent_of_entry stored, above]
  rw [deletesExactly_removed listed run, names_iff from_ located]
  have called : (∃ e, tree.store.view.Walk start location.folders e ∧
      tree.store.NamedIn e location.last .folder x (tree.history.parent x)) ↔
      tree.store.view.Walk start location.folders m ∧ tree.store.folderName x = some location.last := by
    rw [parent]
    constructor
    · rintro ⟨e, walk, object⟩
      cases object with
      | folder _ called => exact ⟨walk, called⟩
      | dots up => exact absurd (up.imp And.left And.left) plain
    · rintro ⟨walk, called⟩
      exact ⟨m, walk, .folder member called⟩
  rw [called]
  constructor
  · rintro ⟨exact, -⟩
    refine ⟨named, by simp [noFile], fun _ _ id same => ?_, fun _ dots => absurd dots plain, by simp [found]⟩
    cases found.symm.trans same
    exact exact
  · exact fun exact => ⟨exact.folder noFile plain x found, gone⟩

omit within after in
theorem gone_iff (nonroot : x ≠ 0)
    (withinAfter : ParsesWithin (tree.whole.remove listed).store.view (· < 2 ^ 31) start path) :
    ¬ (tree.whole.remove listed).store.ResolvesTo d path x ↔ ∃ before parentId,
      before <+: location.folders ∧ tree.store.view.leads start before = some parentId ∧
        tree.store.folderParent x = some parentId := by
  have parent := tree.folderParent_store linked
  have beside := Pruned.beside_remove listed
  rw [whole_store] at beside
  constructor
  · intro gone
    by_contra never
    have led' := beside.leads fun before front through => never ⟨before, _, front, through, parent⟩
    have other : (m : Int) ≠ tree.history.parent x := fun same =>
      never ⟨_, _, List.prefix_refl _, led, same ▸ parent⟩
    refine gone ((Pruned.readable_linked.resolvesTo_iff ⟨start, rfl, there⟩ from_ located named
      withinAfter).mpr ⟨m, led'.trans led, .inr ?_⟩)
    rw [beside.seek other]
    exact Store.view_seek.mpr ⟨noFile, found⟩
  · rintro ⟨before, parentId, front, through, above⟩
    obtain rfl : parentId = tree.history.parent x := Option.some.inj (above.symm.trans parent)
    have older := (tree.parent_lists linked nonroot).2
    refine unresolved there from_ located listed named withinAfter fun e f led' found' same => ?_
    -- The walk came to what listed the object, and from there only to what is still listed.
    have above := kept_of_lt listed linked.parent older
    have kept := beside.through Pruned.closed_kept ⟨_, rfl, above⟩ front through led'
    obtain ⟨n, rfl, kept'⟩ := Pruned.closed_kept.named kept found'
    obtain rfl : n = x := by exact_mod_cast same
    exact Pruned.not_kept listed nonroot kept'

theorem exact_dotted (nonroot : x ≠ 0) (dotted : Dotted location.last) :
    tree.store.DeletesExactly junk d path ↔ tree.store.FoundExactly start location m := by
  have run := delete_folder there from_ located junk within led named linked listed noFile found
  rw [deletesExactly_removed listed run, names_iff from_ located,
    gone_iff there from_ located led named linked listed noFile found nonroot (after _ _ run)]
  simp only [namedIn_dotted linked listed nonroot dotted]
  constructor
  · rintro ⟨exact, gone⟩
    refine ⟨named, by simp [noFile], fun _ plain => absurd dotted plain, fun _ _ id same => ?_, by simp [found]⟩
    cases found.symm.trans same
    exact ⟨by unfold ROOT_FOLDER_ID; omega, exact, gone⟩
  · exact fun exact => (exact.dotted noFile dotted x found).2

end Folder

end Last

end Found

end Tree

end RedisVfs

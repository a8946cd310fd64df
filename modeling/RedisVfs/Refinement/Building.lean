import RedisVfs.Refinement.Reaching

set_option autoImplicit false

namespace RedisVfs

open CString

theorem Tree.creation_uncut_iff (tree : Tree) (accepts : tree.store.Accepts) (kind : Kind) {fuel : Nat}
    {cwd path : Text} (uncut : tree.Uncut cwd path) {context : FsContext} {store : Store} :
    ((kind.call path).program fuel { cwd := '/' :: cwd }).run execute tree.store =
        (.ok (true, context), store) ↔
      context = { cwd := '/' :: cwd } ∧ ∃ body place,
        tree.history.format fuel cwd path = .ok ('/' :: body) ∧
          tree.history.placeOfPath body = some place ∧ store = (tree.created kind place).store := by
  rw [tree.creation_true_iff accepts kind]
  refine and_congr_right fun _ => ?_
  constructor
  · rintro ⟨parentId, name, placed, rfl⟩
    obtain ⟨_, cwdId, parserState, format, _, parse, rfl, rfl⟩ := Store.placing_iff.mp placed
    obtain ⟨body, rfl⟩ := Store.format_absolute format
    rw [tree.format_linked fuel uncut.start] at format
    rw [tree.parsed_linked cwdId (uncut.formatted fuel _ format)] at parse
    have same := Except.ok.inj parse
    have place := ((tree.parse_place body).resolve_left (by rw [same]; simp)).2
    rw [same] at place
    exact ⟨body, _, format, place, rfl⟩
  · rintro ⟨body, place, format, placed, rfl⟩
    have answer := (tree.parse_place body).resolve_left (by simp [placed])
    have same := Option.some.inj (placed.symm.trans answer.2)
    refine ⟨_, _, Store.placing_iff.mpr ⟨_, _, (tree.history.parse 0 ('/' :: body)).2,
      (tree.format_linked fuel uncut.start path).trans format, tree.cwdId_linked uncut.start, ?_, rfl, rfl⟩,
      congrArg (fun place => History.store (tree.created kind place)) same⟩
    rw [tree.parsed_linked _ (uncut.formatted fuel _ format)]
    exact congrArg Except.ok (Prod.ext answer.1 rfl)

theorem Tree.create_absolute (tree : Tree) (small : tree.Small) (cwd : Text) (kind : Kind) {body : Text}
    {place : Nat × Text} (placed : tree.history.placeOfPath body = some place) :
    ∃ tree' : Tree, tree'.history = ⟨kind, place.1, place.2⟩ :: tree.history ∧ ∀ fuel,
      ((kind.call ('/' :: body)).program fuel { cwd := '/' :: cwd }).run execute tree.store =
        (.ok (true, { cwd := '/' :: cwd }), tree'.store) := by
  have accepts := small.accepts
  refine ⟨tree.extend kind place (History.placeOfPath_takes placed) accepts, rfl, fun fuel => ?_⟩
  have format := tree.history.format_bare fuel cwd body
  exact (tree.creation_uncut_iff accepts kind (small.uncut _ _)).mpr
    ⟨rfl, body, place, format, placed, rfl⟩

theorem Tree.step_create (tree : Tree) (small : tree.Small) (cwd : Text) (kind : Kind) {body : Text}
    {place : Nat × Text} (placed : tree.history.placeOfPath body = some place) :
    ∃ tree' : Tree, tree'.history = ⟨kind, place.1, place.2⟩ :: tree.history ∧
      Step ⟨tree.store, { cwd := '/' :: cwd }⟩ (kind.call ('/' :: body))
        ⟨tree'.store, { cwd := '/' :: cwd }⟩ := by
  obtain ⟨tree', grown, run⟩ := tree.create_absolute small cwd kind placed
  exact ⟨tree', grown, .returned small.accepts (run 0)⟩

theorem ReachedBy.creates {condition : State → Call → Prop} {tree : Tree} (small : tree.Small) {cwd : Text}
    (reached : ReachedBy condition ⟨tree.store, { cwd := '/' :: cwd }⟩) (kind : Kind) {body : Text}
    {place : Nat × Text} (placed : tree.history.placeOfPath body = some place)
    (allowed : condition ⟨tree.store, { cwd := '/' :: cwd }⟩ (kind.call ('/' :: body))) :
    ∃ tree' : Tree, tree'.history = ⟨kind, place.1, place.2⟩ :: tree.history ∧
      ReachedBy condition ⟨tree'.store, { cwd := '/' :: cwd }⟩ := by
  obtain ⟨tree', grown, step⟩ := tree.step_create small cwd kind placed
  exact ⟨tree', grown, .step reached allowed step⟩

namespace History

def create (history : History) (kind : Kind) (body : Text) : History :=
  match history.placeOfPath body with
  | none => history
  | some place => ⟨kind, place.1, place.2⟩ :: history

def creating (history : History) : List (Kind × Text) → History
  | [] => history
  | (kind, body) :: creations => (history.create kind body).creating creations

end History

theorem ReachedBy.creating {condition : State → Call → Prop} (tree : Tree) {cwd : Text}
    (reached : ReachedBy condition ⟨tree.store, { cwd := '/' :: cwd }⟩)
    (creations : List (Kind × Text))
    (allowed : ∀ state, ∀ creation ∈ creations,
      condition state (Kind.call creation.1 ('/' :: creation.2)))
    (room : tree.history.length + creations.length ≤ 2 ^ 31) :
    ∃ tree' : Tree, tree'.history = tree.history.creating creations ∧
      ReachedBy condition ⟨tree'.store, { cwd := '/' :: cwd }⟩ := by
  induction creations generalizing tree with
  | nil => exact ⟨tree, rfl, reached⟩
  | cons creation creations ih =>
    obtain ⟨kind, body⟩ := creation
    have later : ∀ state, ∀ creation ∈ creations,
        condition state (Kind.call creation.1 ('/' :: creation.2)) :=
      fun state creation member => allowed state creation (List.mem_cons_of_mem _ member)
    rw [History.creating, History.create]
    cases placed : tree.history.placeOfPath body with
    | none => exact ih tree reached later (by simp at room; omega)
    | some place =>
      obtain ⟨tree', grown, reached'⟩ := ReachedBy.creates (by simp [Tree.Small] at room ⊢; omega) reached kind
        placed (allowed _ (kind, body) List.mem_cons_self)
      obtain ⟨tree'', made, reached''⟩ := ih tree' reached' later (by simp [grown] at room ⊢; omega)
      exact ⟨tree'', by rw [made, grown], reached''⟩

theorem reachedBy_creating {condition : State → Call → Prop} (creations : List (Kind × Text))
    (allowed : ∀ state, ∀ creation ∈ creations,
      condition state (Kind.call creation.1 ('/' :: creation.2)))
    (room : creations.length ≤ 2 ^ 31) :
    ∃ tree : Tree, tree.history = History.creating [] creations ∧
      ReachedBy condition ⟨tree.store, { cwd := ['/'] }⟩ :=
  ReachedBy.creating Tree.fresh (.built Redis.Store.empty) creations allowed
    (by simpa [Tree.fresh] using room)

theorem reachable_creating (creations : List (Kind × Text))
    (room : creations.length ≤ 2 ^ 31) :
    ∃ tree : Tree, tree.history = History.creating [] creations ∧
      Reachable ⟨tree.store, { cwd := ['/'] }⟩ :=
  reachedBy_creating creations (fun _ _ _ => trivial) room

section Files

-- The same file name in the root, time and again.
def History.files (count : Nat) : History := List.replicate count ⟨.file, 0, "f".toList⟩

@[simp] theorem History.length_files (count : Nat) : (History.files count).length = count :=
  List.length_replicate

theorem History.childFolders_files (count d : Nat) : (History.files count).childFolders d = [] := by
  induction count with
  | zero => rfl
  | succ count ih =>
    have files : History.files (count + 1) = ⟨.file, 0, "f".toList⟩ :: History.files count := List.replicate_succ
    rw [files, History.childFolders, Journal.children, if_neg (by simp)]
    exact ih

theorem History.entryAt_files {count id : Nat} {entry : Journal.Entry Kind Text}
    (found : Journal.entryAt (History.files count) id = some entry) : entry = ⟨.file, 0, "f".toList⟩ := by
  induction count with
  | zero => simp [History.files, Journal.entryAt] at found
  | succ count ih =>
    have files : History.files (count + 1) = ⟨.file, 0, "f".toList⟩ :: History.files count := List.replicate_succ
    rw [files, Journal.entryAt] at found
    split at found
    · exact (Option.some.inj found).symm
    · exact ih found

theorem History.placeOfPath_files (count : Nat) {body : Text} {location : Location}
    (located : locate ('/' :: body) = some location) (root : location.folders = [])
    (proper : Directory.Proper location.last) :
    (History.files count).placeOfPath body = some (0, location.last ++ trail location.slash) := by
  have noFolder : (History.files count).folderNamed 0 location.last = none := by
    rw [History.folderNamed_proper proper, History.findFolder, History.childFolders_files]
    rfl
  rw [History.placeOfPath, located]
  simp only [History.place, root, History.walk, if_neg proper.1, History.lookup, noFolder]
  cases (History.files count).findFile 0 location.last location.slash <;> rfl

theorem reachedBy_files {condition : State → Call → Prop}
    (allowed : ∀ state, condition state (.createFile "/f".toList)) {count : Nat} (room : count ≤ 2 ^ 31) :
    ∃ tree : Tree, tree.history = History.files count ∧
      ReachedBy condition ⟨tree.store, { cwd := ['/'] }⟩ := by
  induction count with
  | zero => exact ⟨Tree.fresh, rfl, .built Redis.Store.empty⟩
  | succ count ih =>
    obtain ⟨tree, history, reached⟩ := ih (by omega)
    have small : tree.Small := by rw [Tree.Small, history, History.length_files]; omega
    obtain ⟨tree', grown, reached'⟩ := ReachedBy.creates small reached .file
      (history ▸ @History.placeOfPath_files count "f".toList _ rfl rfl (by decide)) (allowed _)
    exact ⟨tree', by rw [grown, history]; rfl, reached'⟩

end Files

theorem reachable_folders : ∃ tree : Tree, tree.history = [⟨.folder, 1, "b".toList⟩, ⟨.folder, 0, "a".toList⟩] ∧
    Reachable ⟨tree.store, { cwd := ['/'] }⟩ := by
  obtain ⟨tree, made, reached⟩ := reachable_creating [(.folder, "a".toList), (.folder, "a/b".toList)] (by decide)
  exact ⟨tree, by rw [made]; decide, reached⟩

theorem reachable_folder_and_file : ∃ tree : Tree,
    tree.history = [⟨.file, 0, "f".toList⟩, ⟨.folder, 0, "a".toList⟩] ∧
    Reachable ⟨tree.store, { cwd := ['/'] }⟩ := by
  obtain ⟨tree, made, reached⟩ := reachable_creating [(.folder, "a".toList), (.file, "f".toList)] (by decide)
  exact ⟨tree, by rw [made]; decide, reached⟩

theorem reachable_file_inside : ∃ tree : Tree, tree.history = [⟨.file, 1, "f".toList⟩, ⟨.folder, 0, "a".toList⟩] ∧
    Reachable ⟨tree.store, { cwd := ['/'] }⟩ := by
  obtain ⟨tree, made, reached⟩ := reachable_creating [(.folder, "a".toList), (.file, "a/f".toList)] (by decide)
  exact ⟨tree, by rw [made]; decide, reached⟩

theorem reachable_folder : ∃ tree : Tree, tree.history = [⟨.folder, 0, "a".toList⟩] ∧
    Reachable ⟨tree.store, { cwd := ['/'] }⟩ := by
  obtain ⟨tree, made, reached⟩ := reachable_creating [(.folder, "a".toList)] (by decide)
  exact ⟨tree, by rw [made]; decide, reached⟩

end RedisVfs

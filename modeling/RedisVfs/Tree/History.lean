import RedisVfs.Shared.CString
import RedisVfs.Shared.Journal
import RedisVfs.Shared.Segments

set_option autoImplicit false

namespace RedisVfs

open CString

inductive Kind where
  | folder
  | file
  deriving DecidableEq

-- What the file system is for: the objects created so far, each under its folder.
abbrev History := Journal.Entries Kind Text

-- The folder number -1, as a key prints it. Nothing that a path reaches is listed there.
def nowhere : Nat := 2 ^ 64 - 1

def trail (slash : Bool) : Text := if slash then ['/'] else []

def Shaped (name : Text) : Prop :=
  ∃ word slash, word ≠ [] ∧ Segments.Free '/' word ∧ name = word ++ trail slash

def Closed (name : Text) : Prop := ∃ word slash, Segments.Free '/' word ∧ name = word ++ trail slash

theorem Shaped.closed {name : Text} (shaped : Shaped name) : Closed name := by
  obtain ⟨word, slash, _, free, shape⟩ := shaped
  exact ⟨word, slash, free, shape⟩

namespace History

abbrev childFolders (history : History) (d : Nat) : List Nat := Journal.children history .folder d

abbrev childFiles (history : History) (d : Nat) : List Nat := Journal.children history .file d

abbrev name (history : History) (id : Nat) : Text := Journal.name "root".toList history id

abbrev parent (history : History) (id : Nat) : Nat := Journal.parent history id

abbrev Linked (history : History) (id : Nat) : Prop := Journal.Linked .folder history id

-- Where a creation puts an object: under the name "/" nowhere, or under the last name of its path into
-- a folder. While every number fits an int the folder is one that a path reaches.
def Takes (history : History) (d : Nat) (name : Text) : Prop :=
  d = nowhere ∧ name = ['/'] ∨
    Shaped name ∧ (d ≤ history.length ∨ 2 ^ 63 ≤ d) ∧ (history.length < 2 ^ 31 → history.Linked d)

theorem takes_nowhere (history : History) : history.Takes nowhere ['/'] := .inl ⟨rfl, rfl⟩

theorem Linked.takes {history : History} {d : Nat} (linked : history.Linked d) {name : Text}
    (shaped : Shaped name) : history.Takes d name :=
  .inr ⟨shaped, .inl linked.le, fun _ => linked⟩

inductive Grown : History → Prop
  | fresh : Grown []
  | created {history : History} {d : Nat} {name : Text} (kind : Kind) (grown : Grown history)
      (takes : history.Takes d name) : Grown (⟨kind, d, name⟩ :: history)

theorem Grown.entry {history : History} {id : Nat} {entry : Journal.Entry Kind Text}
    (grown : Grown history) (found : Journal.entryAt history id = some entry) :
    entry.parent = nowhere ∧ entry.name = ['/'] ∨
      Shaped entry.name ∧ (entry.parent < id ∨ 2 ^ 63 ≤ entry.parent) ∧
        (id ≤ 2 ^ 31 → history.Linked entry.parent) := by
  induction grown with
  | fresh => simp [Journal.entryAt] at found
  | @created history d name kind grown takes ih =>
    by_cases newest : id = history.length + 1
    · rw [Journal.entryAt, if_pos newest] at found
      cases found
      rcases takes with bare | ⟨shaped, away, linked⟩
      · exact .inl bare
      · refine .inr ⟨shaped, ?_, fun early => ?_⟩
        · rw [newest]
          exact away.imp_left Nat.lt_succ_of_le
        · exact (linked (by omega)).older _
    · rw [Journal.entryAt, if_neg newest] at found
      exact (ih found).imp_right fun before => ⟨before.1, before.2.1, fun early => (before.2.2 early).older _⟩

end History

-- A history that creations make, with every id below the end of the range of `long`.
structure Tree where
  history : History
  grown : history.Grown
  bounded : (history.length : Int) < LONG_MAX

namespace Tree

def fresh : Tree := ⟨[], .fresh, by decide⟩

theorem linked_ne_nowhere (tree : Tree) {id : Nat} (linked : tree.history.Linked id) :
    id ≠ nowhere := by
  have bound := linked.le
  have bounded := tree.bounded
  unfold nowhere LONG_MAX at *
  omega

theorem linked_le_long (tree : Tree) {id : Nat} (bound : id ≤ tree.history.length) :
    (id : Int) ≤ LONG_MAX := by
  have bounded := tree.bounded
  omega

-- Every number given out fits an int.
def Small (tree : Tree) : Prop := tree.history.length < 2 ^ 31

instance (tree : Tree) : Decidable tree.Small := inferInstanceAs (Decidable (_ < _))

theorem small_fresh : fresh.Small := by decide

theorem child_shaped (tree : Tree) {kind : Kind} {d id : Nat} (linked : tree.history.Linked d)
    (member : id ∈ Journal.children tree.history kind d) : Shaped (tree.history.name id) := by
  obtain ⟨entry, found, _, rfl⟩ := Journal.mem_children.mp member
  rw [History.name, Journal.name_of_entry found]
  exact (tree.grown.entry found).elim
    (fun lost => absurd lost.1 (tree.linked_ne_nowhere linked)) And.left

theorem child_closed (tree : Tree) {kind : Kind} {d id : Nat}
    (member : id ∈ Journal.children tree.history kind d) : Closed (tree.history.name id) := by
  obtain ⟨entry, found, _, rfl⟩ := Journal.mem_children.mp member
  rw [History.name, Journal.name_of_entry found]
  rcases tree.grown.entry found with lost | placed
  · rw [lost.2]
    exact ⟨[], true, by simp [Segments.Free], rfl⟩
  · exact placed.1.closed

theorem parent_older (tree : Tree) {id : Nat} {entry : Journal.Entry Kind Text}
    (found : Journal.entryAt tree.history id = some entry) (below : entry.parent ≤ tree.history.length) :
    entry.parent < id := by
  have bounded := tree.bounded
  rcases tree.grown.entry found with lost | placed
  · unfold nowhere LONG_MAX at *
    omega
  · unfold LONG_MAX at *
    omega

theorem Small.entry {tree : Tree} (small : tree.Small) {id : Nat} {entry : Journal.Entry Kind Text}
    (found : Journal.entryAt tree.history id = some entry) :
    entry.parent = nowhere ∧ entry.name = ['/'] ∨
      tree.history.Linked entry.parent ∧ entry.parent < id ∧ Shaped entry.name := by
  have bound := (Journal.entryAt_le found).2
  unfold Small at small
  refine (tree.grown.entry found).imp_right fun ⟨shaped, _, linked⟩ => ?_
  have above := linked (by omega)
  exact ⟨above, tree.parent_older found above.le, shaped⟩

theorem parent_lists (tree : Tree) {id : Nat} (linked : tree.history.Linked id) (nonroot : id ≠ 0) :
    id ∈ tree.history.childFolders (tree.history.parent id) ∧ tree.history.parent id < id := by
  cases linked with
  | root => exact absurd rfl nonroot
  | child found kind above =>
    rw [History.parent, Journal.parent_of_entry found]
    exact ⟨Journal.mem_children.mpr ⟨_, found, kind, rfl⟩, tree.parent_older found above.le⟩

end Tree

end RedisVfs

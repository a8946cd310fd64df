import RedisVfs.Tree.History

set_option autoImplicit false

namespace RedisVfs

open CString

-- A tree with the numbers of the objects that have been taken out of their lists since.
structure Pruned where
  tree : Tree
  gone : List Nat
  created : ∀ id ∈ gone, id ≤ tree.history.length

namespace Pruned

def fresh : Pruned := ⟨Tree.fresh, [], nofun⟩

variable (pruned : Pruned)

abbrev history : History := pruned.tree.history

def children (kind : Kind) (d : Nat) : List Nat :=
  (Journal.children pruned.history kind d).filter (· ∉ pruned.gone)

-- The folders that a chain of folders still listed ties to the root.
inductive Kept : Nat → Prop
  | root : Kept 0
  | child {id : Nat} {entry : Journal.Entry Kind Text} (found : Journal.entryAt pruned.history id = some entry)
      (kind : entry.kind = .folder) (stays : id ∉ pruned.gone) (above : Kept entry.parent) : Kept id

def remove {kind : Kind} {d id : Nat} (listed : id ∈ pruned.children kind d) : Pruned where
  tree := pruned.tree
  gone := id :: pruned.gone
  created := List.forall_mem_cons.mpr
    ⟨(Journal.children_le (List.mem_filter.mp listed).1).2, pruned.created⟩

def extend (tree' : Tree) {entry : Journal.Entry Kind Text} (grown : tree'.history = entry :: pruned.history) :
    Pruned where
  tree := tree'
  gone := pruned.gone
  created id member := by
    rw [grown, List.length_cons]
    exact Nat.le_succ_of_le (pruned.created id member)

variable {pruned}

theorem parent_of_listed {kind : Kind} {d id : Nat} (listed : id ∈ pruned.children kind d) :
    d < id ∨ 2 ^ 63 ≤ d := by
  obtain ⟨entry, found, -, rfl⟩ := Journal.mem_children.mp (List.mem_filter.mp listed).1
  rcases pruned.tree.grown.entry found with lost | placed
  · exact .inr (lost.1 ▸ by decide)
  · exact placed.2.1

theorem mem_children {kind : Kind} {d id : Nat} :
    id ∈ pruned.children kind d ↔ id ∈ Journal.children pruned.history kind d ∧ id ∉ pruned.gone := by
  simp [children]

theorem Kept.linked {id : Nat} (kept : pruned.Kept id) : pruned.history.Linked id := by
  induction kept with
  | root => exact .root
  | child found kind _ _ ih => exact .child found kind ih

theorem Kept.of_child {d id : Nat} (above : pruned.Kept d) (listed : id ∈ pruned.children .folder d) :
    pruned.Kept id := by
  obtain ⟨member, stays⟩ := mem_children.mp listed
  obtain ⟨entry, found, kind, rfl⟩ := Journal.mem_children.mp member
  exact .child found kind stays above

structure Before (pruned later : Pruned) : Prop where
  history : ∃ entries, later.history = entries ++ pruned.history
  gone : pruned.gone ⊆ later.gone

theorem Before.refl (pruned : Pruned) : Before pruned pruned := ⟨⟨[], rfl⟩, fun _ member => member⟩

theorem Before.trans {first second third : Pruned} (before : Before first second)
    (then_ : Before second third) : Before first third := by
  obtain ⟨⟨entries, grown⟩, gone⟩ := before
  obtain ⟨⟨entries', grown'⟩, gone'⟩ := then_
  exact ⟨⟨entries' ++ entries, by rw [grown', grown, List.append_assoc]⟩, fun _ member => gone' (gone member)⟩

theorem before_remove {kind : Kind} {d id : Nat} (listed : id ∈ pruned.children kind d) :
    Before pruned (pruned.remove listed) :=
  ⟨⟨[], rfl⟩, fun _ member => List.mem_cons_of_mem _ member⟩

theorem before_extend {tree' : Tree} {entry : Journal.Entry Kind Text}
    (grown : tree'.history = entry :: pruned.history) : Before pruned (pruned.extend tree' grown) :=
  ⟨⟨[entry], grown⟩, fun _ member => member⟩

theorem entryAt_append (entries : History) {history : History} {id : Nat} (old : id ≤ history.length) :
    Journal.entryAt (entries ++ history) id = Journal.entryAt history id := by
  induction entries with
  | nil => rfl
  | cons entry entries ih =>
    have older : id ≤ (entries ++ history).length := by rw [List.length_append]; omega
    rw [List.cons_append, Journal.entryAt_older entry older, ih]

theorem Before.kept {later : Pruned} (before : Before pruned later) {id : Nat}
    (old : id ≤ pruned.history.length) (kept : later.Kept id) : pruned.Kept id := by
  obtain ⟨entries, grown⟩ := before.history
  induction kept with
  | root => exact .root
  | @child id entry found kind stays above ih =>
    have found' : Journal.entryAt pruned.history id = some entry := by
      rw [grown, entryAt_append entries old] at found
      exact found
    have older : entry.parent ≤ pruned.history.length := by
      have reached : entry.parent ≤ later.tree.history.length := above.linked.le
      have bounded := later.tree.bounded
      rcases pruned.tree.grown.entry found' with ⟨lost, -⟩ | ⟨-, placed, -⟩
      · exact absurd lost (later.tree.linked_ne_nowhere above.linked)
      · unfold LONG_MAX at bounded
        omega
    exact .child found' kind (fun gone => stays (before.gone gone)) (ih older)

theorem Before.children {later : Pruned} (before : Before pruned later) {kind : Kind} {d id : Nat}
    (old : id ≤ pruned.history.length) (listed : id ∈ later.children kind d) :
    id ∈ pruned.children kind d := by
  obtain ⟨entries, grown⟩ := before.history
  obtain ⟨member, stays⟩ := mem_children.mp listed
  obtain ⟨entry, found, kind_, parent⟩ := Journal.mem_children.mp member
  rw [grown, entryAt_append entries old] at found
  exact mem_children.mpr
    ⟨Journal.mem_children.mpr ⟨entry, found, kind_, parent⟩, fun gone => stays (before.gone gone)⟩

end Pruned

end RedisVfs

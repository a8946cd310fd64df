import Mathlib.Data.List.Basic
import Mathlib.Data.List.Pairwise
import Mathlib.Data.List.Nodup

set_option autoImplicit false

namespace Journal

variable {K N : Type}

structure Entry (K N : Type) where
  kind : K
  parent : Nat
  name : N
  deriving DecidableEq

/-- The objects ever created, newest first: the object of the last entry is 1, and 0 is the root. -/
abbrev Entries (K N : Type) := List (Entry K N)

def entryAt : Entries K N → Nat → Option (Entry K N)
  | [], _ => none
  | entry :: journal, id => if id = journal.length + 1 then some entry else entryAt journal id

section Children

variable [DecidableEq K]

def children : Entries K N → K → Nat → List Nat
  | [], _, _ => []
  | entry :: journal, kind, parent =>
      if entry.kind = kind ∧ entry.parent = parent then
        (journal.length + 1) :: children journal kind parent
      else children journal kind parent

end Children

theorem entryAt_le {journal : Entries K N} {id : Nat} {entry : Entry K N}
    (found : entryAt journal id = some entry) : 0 < id ∧ id ≤ journal.length := by
  induction journal with
  | nil => simp [entryAt] at found
  | cons head journal ih =>
    by_cases newest : id = journal.length + 1
    · simp [newest]
    · rw [entryAt, if_neg newest] at found
      have := ih found
      simp only [List.length_cons]
      omega

theorem entryAt_some {journal : Entries K N} {id : Nat} (positive : 0 < id)
    (bound : id ≤ journal.length) : ∃ entry, entryAt journal id = some entry := by
  induction journal with
  | nil => simp at bound; omega
  | cons head journal ih =>
    by_cases newest : id = journal.length + 1
    · exact ⟨head, by simp [entryAt, newest]⟩
    · obtain ⟨entry, found⟩ := ih (by simp only [List.length_cons] at bound; omega)
      exact ⟨entry, by rw [entryAt, if_neg newest, found]⟩

theorem entryAt_newest (entry : Entry K N) (journal : Entries K N) :
    entryAt (entry :: journal) (journal.length + 1) = some entry := by
  simp [entryAt]

theorem entryAt_older (entry : Entry K N) {journal : Entries K N} {id : Nat}
    (bound : id ≤ journal.length) : entryAt (entry :: journal) id = entryAt journal id := by
  rw [entryAt, if_neg (by omega)]

theorem entryAt_zero (journal : Entries K N) : entryAt journal 0 = none := by
  by_contra found
  obtain ⟨entry, found⟩ := Option.ne_none_iff_exists'.mp found
  exact absurd (entryAt_le found).1 (Nat.lt_irrefl 0)

theorem forall_entry_cons {P : Entry K N → Prop} {entry : Entry K N} {journal : Entries K N} :
    (∀ id e, entryAt (entry :: journal) id = some e → P e) ↔
      (∀ id e, entryAt journal id = some e → P e) ∧ P entry := by
  constructor
  · intro all
    refine ⟨fun id e found => all id e ?_, all _ entry (entryAt_newest entry journal)⟩
    exact (entryAt_older entry (entryAt_le found).2).trans found
  · rintro ⟨older, newest⟩ id e found
    rw [entryAt] at found
    split at found
    · cases found
      exact newest
    · exact older id e found

def name (unnamed : N) (journal : Entries K N) (id : Nat) : N :=
  ((entryAt journal id).map Entry.name).getD unnamed

def parent (journal : Entries K N) (id : Nat) : Nat := ((entryAt journal id).map Entry.parent).getD 0

theorem name_older (unnamed : N) (entry : Entry K N) {journal : Entries K N} {id : Nat}
    (bound : id ≤ journal.length) : name unnamed (entry :: journal) id = name unnamed journal id := by
  rw [name, name, entryAt_older entry bound]

theorem parent_older (entry : Entry K N) {journal : Entries K N} {id : Nat}
    (bound : id ≤ journal.length) : parent (entry :: journal) id = parent journal id := by
  rw [parent, parent, entryAt_older entry bound]

@[simp] theorem parent_zero (journal : Entries K N) : parent journal 0 = 0 := by
  simp [parent, entryAt_zero]

theorem name_of_entry {unnamed : N} {journal : Entries K N} {id : Nat} {entry : Entry K N}
    (found : entryAt journal id = some entry) : name unnamed journal id = entry.name := by
  simp [name, found]

theorem parent_of_entry {journal : Entries K N} {id : Nat} {entry : Entry K N}
    (found : entryAt journal id = some entry) : parent journal id = entry.parent := by
  simp [parent, found]

section Children

variable [DecidableEq K]

theorem mem_children {journal : Entries K N} {kind : K} {parent id : Nat} :
    id ∈ children journal kind parent ↔
      ∃ entry, entryAt journal id = some entry ∧ entry.kind = kind ∧ entry.parent = parent := by
  induction journal with
  | nil => simp [children, entryAt]
  | cons head journal ih =>
    have older : id ∈ children journal kind parent → id ≠ journal.length + 1 := by
      intro member
      obtain ⟨entry, found, _⟩ := ih.mp member
      have := entryAt_le found
      omega
    by_cases newest : id = journal.length + 1
    · subst newest
      have absent : journal.length + 1 ∉ children journal kind parent := fun member => older member rfl
      by_cases here : head.kind = kind ∧ head.parent = parent <;>
        simp [children, entryAt, here, absent]
    · rw [entryAt, if_neg newest, ← ih, children]
      split <;> simp [newest]

theorem children_le {journal : Entries K N} {kind : K} {parent id : Nat}
    (member : id ∈ children journal kind parent) : 0 < id ∧ id ≤ journal.length := by
  obtain ⟨_, found, _⟩ := mem_children.mp member
  exact entryAt_le found

theorem children_kind {journal : Entries K N} {kind kind' : K} {parent parent' id : Nat}
    (member : id ∈ children journal kind parent) (member' : id ∈ children journal kind' parent') :
    kind = kind' := by
  obtain ⟨entry, found, here, _⟩ := mem_children.mp member
  obtain ⟨entry', found', there, _⟩ := mem_children.mp member'
  rw [found] at found'
  cases found'
  exact here.symm.trans there

theorem children_decreasing (journal : Entries K N) (kind : K) (parent : Nat) :
    (children journal kind parent).Pairwise (· > ·) := by
  induction journal with
  | nil => simp [children]
  | cons head journal ih =>
    unfold children
    split
    · refine List.Pairwise.cons ?_ ih
      intro id member
      have := children_le member
      omega
    · exact ih

end Children

section Linked

variable (folder : K)

inductive Linked (journal : Entries K N) : Nat → Prop
  | root : Linked journal 0
  | child {id : Nat} {entry : Entry K N} (found : entryAt journal id = some entry)
      (kind : entry.kind = folder) (above : Linked journal entry.parent) : Linked journal id

variable {folder}

theorem Linked.le {journal : Entries K N} {id : Nat} (linked : Linked folder journal id) :
    id ≤ journal.length := by
  cases linked with
  | root => exact Nat.zero_le _
  | child found => exact (entryAt_le found).2

theorem Linked.older {journal : Entries K N} {id : Nat} (entry : Entry K N)
    (linked : Linked folder journal id) : Linked folder (entry :: journal) id := by
  induction linked with
  | root => exact .root
  | child found kind above ih =>
    exact .child ((entryAt_older entry (entryAt_le found).2).trans found) kind ih

theorem Linked.parent {journal : Entries K N} {id : Nat} (linked : Linked folder journal id) :
    Linked folder journal (Journal.parent journal id) := by
  cases linked with
  | root => simpa using Linked.root
  | child found kind above => rwa [parent_of_entry found]

theorem Linked.of_child [DecidableEq K] {journal : Entries K N} {parent id : Nat}
    (above : Linked folder journal parent) (member : id ∈ children journal folder parent) :
    Linked folder journal id := by
  obtain ⟨entry, found, kind, rfl⟩ := mem_children.mp member
  exact .child found kind above

end Linked

end Journal

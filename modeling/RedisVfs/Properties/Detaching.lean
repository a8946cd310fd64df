import RedisVfs.Properties.Lifetimes

set_option autoImplicit false

namespace RedisVfs

open CString Directory

-- A file out of its list or a folder out of its own, with all that is reached through that folder alone.
inductive Store.Detaches (store after : Store) : Prop
  | file (d id : Nat) (loses : store.LosesOnly after (listKey .file d) (decimal id))
      (reached : ∀ e, after.FolderReached e ↔ store.FolderReached e) : Detaches store after
  | folder (d id : Nat) (loses : store.LosesOnly after (listKey .folder d) (decimal id))
      (reached : ∀ e, after.FolderReached e ↔ store.FolderReached e ∧ ¬ store.view.Reached id e) :
      Detaches store after

namespace Pruned

variable {pruned : Pruned}

theorem cuts {d id : Nat} (listed : id ∈ pruned.children .folder d) :
    pruned.store.view.Cuts (pruned.remove listed).store.view id := by
  intro m e
  have fewer {other : Nat} {v : Nat} : other ∈ (pruned.remove listed).children .folder v ↔
      other ∈ pruned.children .folder v ∧ other ≠ id := by
    rw [mem_children, mem_children, and_assoc, and_comm]
    simp only [remove, List.mem_cons, not_or]
    tauto
  constructor
  · intro there
    obtain ⟨v, other, rfl, rfl, member⟩ := mem_folders.mp there
    obtain ⟨before, differs⟩ := fewer.mp member
    exact ⟨mem_folders.mpr ⟨v, other, rfl, rfl, before⟩, by exact_mod_cast differs⟩
  · rintro ⟨there, differs⟩
    obtain ⟨v, other, rfl, rfl, member⟩ := mem_folders.mp there
    exact mem_folders.mpr ⟨v, other, rfl, rfl, fewer.mpr ⟨member, by exact_mod_cast differs⟩⟩

theorem detaches {kind : Kind} {d id : Nat} (listed : id ∈ pruned.children kind d) :
    pruned.store.Detaches (pruned.remove listed).store := by
  have loses := losesOnly_remove listed
  cases kind with
  | file =>
    have same (v : Int) : (pruned.remove listed).store.view.folders v = pruned.store.view.folders v :=
      congrArg (List.map strtol) (lists_remove listed (by simp [listKey]))
    refine .file d id loses fun e => ?_
    exact ⟨fun reached => reached.of_subset fun v => by rw [same v]; exact List.Subset.refl _,
      fun reached => reached.of_subset fun v => by rw [same v]; exact List.Subset.refl _⟩
  | folder =>
    have positive := (Journal.children_le (mem_children.mp listed).1).1
    exact .folder d id loses fun e =>
      (cuts listed).reached_iff forest root_unlisted (by exact_mod_cast Nat.ne_of_gt positive)

end Pruned

namespace Sessions

variable {ι : Type} [DecidableEq ι] {sessions : Sessions ι}

theorem delete_detaches (lived : sessions.Lived) {parserState : VfsPathParserState} {path : Text} {cwd code : Int}
    {after : Store}
    (ran : (vfsDeleteObjectWithPath parserState path cwd).run execute sessions.store = (.ok code, after)) :
    (code ≠ 0 → after = sessions.store) ∧ (after = sessions.store ∨ sessions.store.Detaches after) := by
  obtain ⟨pruned, holds⟩ := lived.represented
  rw [holds.store] at ran ⊢
  rcases delete_cases ran with ⟨-, rfl⟩ | ⟨rfl, rfl | ⟨kind, dirId, id, rfl⟩⟩
  · exact ⟨fun _ => rfl, .inl rfl⟩
  · exact ⟨fun _ => rfl, .inl rfl⟩
  · refine ⟨fun failed => absurd rfl failed, ?_⟩
    rcases @Pruned.lrem_store pruned (Kind.list kind dirId) (printLd id) with
      same | ⟨_, _, _, listed, -, -, less⟩
    · exact .inl same
    · exact .inr (less ▸ Pruned.detaches listed)

theorem delete_detaches_withFolder :
    ((0 : Int) ≠ 0 → withoutFolder.store = withFolder.store) ∧
      (withoutFolder.store = withFolder.store ∨ withFolder.store.Detaches withoutFolder.store) :=
  @delete_detaches Unit _ withFolder lived_withFolder initVfsPathParserState "/a".toList 0 0 _
    (Prod.ext (by decide +kernel) rfl)

end Sessions

end RedisVfs

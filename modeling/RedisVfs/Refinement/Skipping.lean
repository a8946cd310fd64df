import RedisVfs.Refinement.Reading
import RedisVfs.Source.Contents

set_option autoImplicit false

namespace RedisVfs

open CString

-- The way up from a folder when each stored parent is read from behind its first character: the names
-- passed, the highest first, and the number that comes next.
inductive Store.Skips (store : Store) (f : Int) : List Text → Int → Prop
  | here : Skips store f [] f
  | above {g : Int} {name value : Text} {names : List Text} (below : Skips store f names g)
      (nonroot : g ≠ 0) (named : store.folderName (unsigned g) = some name)
      (parent : (store.hashes (.folderInfo (unsigned g))).lookup .parent = some value) :
      Skips store f (name :: names) (strtol (value.drop 1))

theorem vfsGetFolderName_any_run (store : Store) (id : Int) :
    (vfsGetFolderName id).run execute store =
      (match store.folderName (unsigned id) with
        | some name => .ok name
        | none => .error .nilReply, store) := by
  rw [vfsGetFolderName, Program.run_bind_ok execute (run_redisCommand _ _)]
  unfold Store.folderName
  cases held : (store.hashes (.folderInfo (unsigned id))).lookup .name with
  | none =>
    simp only [execute, Redis.execute, held, dereference, Redis.Reply.str]
    rfl
  | some value =>
    simp only [execute, Redis.execute, held, dereference, Redis.Reply.str]
    rfl

theorem spelled_cons (name : Text) (names : List Text) :
    (name :: names).flatMap ('/' :: ·) = '/' :: name ++ names.flatMap ('/' :: ·) := by
  simp

theorem Tree.folder_of_name (tree : Tree) {n : Nat} {name : Text}
    (named : tree.store.folderName n = some name) :
    n = 0 ∨ ∃ entry, Journal.entryAt tree.history n = some entry ∧ entry.kind = .folder := by
  by_cases root : n = 0
  · exact .inl root
  · have held : tree.store.hashes (.folderInfo n) ≠ [] := by
      intro absent
      simp [Store.folderName, absent] at named
    obtain ⟨id, entry, found, same⟩ :=
      History.store_info_entry (show Key.folderInfo n ≠ .folderInfo 0 by simpa using root) held
    obtain ⟨kind, rfl⟩ : Kind.folder = entry.kind ∧ n = id := History.infoKey_inj.mp same
    exact .inr ⟨entry, found, kind.symm⟩

section Loop

variable {store : Store} {f : Int}

theorem Store.Skips.loop_run {names : List Text} {g : Int} (skips : store.Skips f names g) (fuel : Nat) :
    (dirPathLoop (names.length + fuel) f []).run execute store =
      (dirPathLoop fuel g (names.flatMap ('/' :: ·))).run execute store := by
  induction skips generalizing fuel with
  | here => simp
  | @above g name value names below nonroot named parent ih =>
    have nameRun := vfsGetFolderName_any_run store g
    rw [named] at nameRun
    rw [List.length_cons, Nat.add_assoc, Nat.add_comm 1, ih (fuel + 1), dirPathLoop, if_neg nonroot]
    simp only
    rw [Program.run_bind_ok execute nameRun, Program.run_bind_ok execute (hget_run parent)]
    simp only [dereference, Redis.Reply.str, Program.run_bind, Program.run_pure, spelled_cons]

theorem Store.Skips.of_loop {names : List Text} {g : Int} (skips : store.Skips f names g) {fuel : Nat}
    {text : Text} {after : Store}
    (ran : (dirPathLoop fuel g (names.flatMap ('/' :: ·))).run execute store = (.ok text, after)) :
    ∃ names', store.Skips f names' 0 ∧ text = names'.flatMap ('/' :: ·) ++ ['/'] := by
  induction fuel generalizing names g with
  | zero =>
    unfold dirPathLoop at ran
    split at ran
    next root =>
      subst root
      exact ⟨names, skips, (Except.ok.inj (congrArg Prod.fst ran)).symm⟩
    next => simp at ran
  | succ fuel ih =>
    unfold dirPathLoop at ran
    split at ran
    next root =>
      subst root
      exact ⟨names, skips, (Except.ok.inj (congrArg Prod.fst ran)).symm⟩
    next nonroot =>
      have nameRun := vfsGetFolderName_any_run store g
      cases named : store.folderName (unsigned g) with
      | none =>
        rw [named] at nameRun
        rw [Program.run_bind_error execute nameRun] at ran
        simp at ran
      | some name =>
        rw [named] at nameRun
        rw [Program.run_bind_ok execute nameRun, Program.run_bind_ok execute (run_redisCommand _ _)] at ran
        cases parent : (store.hashes (.folderInfo (unsigned g))).lookup .parent with
        | none => simp [execute, Redis.execute, parent, dereference, Redis.Reply.str, Program.run_bind] at ran
        | some value =>
          simp only [execute, Redis.execute, parent, dereference, Redis.Reply.str, Program.run_bind,
            Program.run_pure, ← spelled_cons] at ran
          exact ih (skips.above nonroot named parent) ran

end Loop

end RedisVfs

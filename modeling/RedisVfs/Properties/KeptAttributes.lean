import RedisVfs.Properties.Lifetimes

set_option autoImplicit false

namespace RedisVfs

open CString

namespace Sessions

variable {ι : Type} [DecidableEq ι] {sessions : Sessions ι}

theorem stat_kept (lived : sessions.Lived) (few : sessions.store.count ≤ 2 ^ 31) (client : ι) {path : Text}
    (nonempty : path ≠ []) :
    (getFolderIdFromPath (sessions.contexts client) path).run execute sessions.store =
        (sessions.store.folderAt (sessions.contexts client) path, sessions.store) ∧
      (stat (sessions.contexts client) path).run execute sessions.store =
        (sessions.store.statAt (sessions.contexts client) path, sessions.store) := by
  obtain ⟨pruned, holds⟩ := lived.represented
  obtain ⟨cwd, here⟩ := holds.contexts client
  rw [holds.store] at few
  rw [holds.store, here]
  have small := Pruned.small_iff.mpr few
  have narrow (d : Int) := @Pruned.narrow pruned small d
  exact ⟨Pruned.readable_linked.folderId_run Pruned.root_linked narrow (Pruned.adrift small) nonempty,
    Pruned.readable_linked.stat_run Pruned.root_linked narrow (Pruned.adrift small) nonempty⟩

def inFolder : Sessions Unit :=
  ⟨(((Call.cd "/a".toList).program 1 { cwd := ['/'] }).run execute withFolder.store).2,
    fun _ => { cwd := "/a/".toList }⟩

def stranded : Sessions Unit :=
  ⟨((vfsDeleteObjectWithPath initVfsPathParserState "/a".toList 0).run execute inFolder.store).2,
    inFolder.contexts⟩

theorem lived_stranded : stranded.Lived := by
  have entered : RedisVfs.Step ⟨withFolder.store, { cwd := ['/'] }⟩ (.cd "/a".toList)
      ⟨inFolder.store, { cwd := "/a/".toList }⟩ :=
    @RedisVfs.Step.returned _ _ 1 true _ _ (by decide +kernel) (Prod.ext (by decide +kernel) rfl)
  have step := @Step.call Unit _ withFolder () (.cd "/a".toList) _ entered
  have same : Function.update withFolder.contexts () { cwd := "/a/".toList } = inFolder.contexts :=
    funext fun _ => rfl
  rw [same] at step
  have deleted := @Step.delete Unit _ inFolder initVfsPathParserState "/a".toList 0 0 _
    (Prod.ext (by decide +kernel) rfl)
  exact lived_withFolder.run (.tail (.single step) deleted)

theorem stat_kept_stranded :
    (getFolderIdFromPath (stranded.contexts ()) "..".toList).run execute stranded.store =
        (stranded.store.folderAt (stranded.contexts ()) "..".toList, stranded.store) ∧
      (stat (stranded.contexts ()) "..".toList).run execute stranded.store =
        (stranded.store.statAt (stranded.contexts ()) "..".toList, stranded.store) :=
  stat_kept lived_stranded (by decide +kernel) () (by decide)

end Sessions

end RedisVfs

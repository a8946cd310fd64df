import RedisVfs.Concurrency.Creating
import RedisVfs.Refinement.Lookups

set_option autoImplicit false

namespace RedisVfs

open CString

variable {A B : Type}

theorem Reading.creating {program : Prog A} (reading : Reading program) : Creating program := by
  induction reading with
  | done value => exact .done value
  | fail fault => exact .fail fault
  | send fits _ ih => exact .read fits ih

theorem Creating.bind {program : Prog A} {f : A → Prog B} (first : Creating program)
    (rest : ∀ value, Creating (f value)) : Creating (program >>= f) := by
  induction first with
  | done value => exact rest value
  | fail fault => exact .fail fault
  | read reads _ ih => exact .read reads ih
  | create creation _ ih =>
    rw [bind_assoc]
    exact .create creation ih

theorem Call.creating (call : Call) (fuel : Nat) (context : FsContext) :
    Creating (call.program fuel context) := by
  cases call with
  | mkdir path =>
    refine Creating.bind ?_ fun _ => .done _
    refine (reading_formatToValidPath _ _ _).creating.bind fun formattedPath => ?_
    refine (reading_dirIdFromPath _ _ _).creating.bind fun cwdId => ?_
    refine (reading_parsePath _ _ _ _).creating.bind fun answer => ?_
    dsimp only
    split
    · exact .done _
    · exact (Creation.mkdir _ _).creating.bind fun _ => .done _
  | createFile path =>
    refine Creating.bind ?_ fun _ => .done _
    refine (reading_formatToValidPath _ _ _).creating.bind fun formattedPath => ?_
    refine (reading_dirIdFromPath _ _ _).creating.bind fun cwdId => ?_
    refine (reading_parsePath _ _ _ _).creating.bind fun answer => ?_
    dsimp only
    split
    · exact .done _
    · exact (Creation.createFile _ _ _ _ _ _).creating.bind fun _ => .done _
  | cd path =>
    refine (reading_formatToValidPath _ _ _).creating.bind fun formattedPath => ?_
    refine (reading_folderIdFromPath _ _).creating.bind fun folderId => ?_
    split
    · exact .done _
    · exact (reading_absolutePath _ _).creating.bind fun _ => .done _

end RedisVfs

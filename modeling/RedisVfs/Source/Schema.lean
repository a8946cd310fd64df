import RedisVfs.Shared.Program
import RedisVfs.Shared.Redis
import RedisVfs.Shared.Segments

set_option autoImplicit false

namespace RedisVfs

open CString

-- A key by its parts; the number is the one the format prints, so `%lu` gives `unsigned id`
-- and `%ld` gives `id`.
inductive Key where
  | currentIdCount
  | isVirtualFileSystemCreated
  | folderInfo (number : Int)
  | fileInfo (number : Int)
  | folderFolders (number : Int)
  | folderFiles (number : Int)
  deriving DecidableEq

def Key.text : Key → Text
  | .currentIdCount => "current_id_count".toList
  | .isVirtualFileSystemCreated => "isVirtualFileSystemCreated".toList
  | .folderInfo number => "FOLDER_".toList ++ printLd number ++ "_info".toList
  | .fileInfo number => "FILE_".toList ++ printLd number ++ "_info".toList
  | .folderFolders number => "FOLDER_".toList ++ printLd number ++ "_folders".toList
  | .folderFiles number => "FOLDER_".toList ++ printLd number ++ "_files".toList

inductive Field where
  | parent
  | name
  | createdData
  | size
  | id
  | webUrl
  | apiUrl
  deriving DecidableEq

abbrev Store := Redis.Store Key Field

-- What stops a call before it returns.
inductive Fault where
  | nilReply
  | thrown (message : Text)
  | outOfFuel
  deriving DecidableEq

abbrev Prog := Program (Redis.Command Key Field) Redis.Reply Fault

def redisCommand (command : Redis.Command Key Field) : Prog Redis.Reply := Program.command command

abbrev execute : Store → Redis.Command Key Field → Redis.Reply × Store := Redis.execute

-- `reply->str` where the source reads the characters behind it without a NULL check.
def dereference (reply : Redis.Reply) : Prog Text :=
  match reply.str with
  | some text => pure text
  | none => .fail .nilReply

def quoted (text : Text) : Text := '"' :: text ++ ['"']

-- `"%.*s", strlen(str) - 2, str + 1` in C and `substr(1, size() - 2)` in C++.
def unquoted (text : Text) : Text := (text.drop 1).take (text.length - 2)

@[simp] theorem unquoted_quoted (text : Text) : unquoted (quoted text) = text := by
  simp [unquoted, quoted]

theorem printLd_free (number : Int) : Segments.Free '_' (printLd number) := by
  have digits (n : Nat) : '_' ∉ decimal n := Nat.underscore_not_in_toDigits
  unfold printLd Segments.Free
  split <;> simp [digits]

theorem numbered_text (family kind : Text) (number : Int)
    (familyFree : Segments.Free '_' family) (kindFree : Segments.Free '_' kind) :
    (Segments.words '_' ((family ++ ['_']) ++ printLd number ++ ('_' :: kind)),
      Segments.rest '_' ((family ++ ['_']) ++ printLd number ++ ('_' :: kind))) =
        ([family, printLd number], kind) := by
  refine Prod.ext ?_ (Segments.rest_closed _ kindFree)
  rw [List.append_assoc, List.append_assoc, List.singleton_append,
    Segments.words_closed familyFree, Segments.words_closed (printLd_free number),
    Segments.words_of_free kindFree]

def Key.parts : Key → List Text × Text
  | .currentIdCount => (["current".toList, "id".toList], "count".toList)
  | .isVirtualFileSystemCreated => ([], "isVirtualFileSystemCreated".toList)
  | .folderInfo number => (["FOLDER".toList, printLd number], "info".toList)
  | .fileInfo number => (["FILE".toList, printLd number], "info".toList)
  | .folderFolders number => (["FOLDER".toList, printLd number], "folders".toList)
  | .folderFiles number => (["FOLDER".toList, printLd number], "files".toList)

theorem Key.text_parts (key : Key) :
    (Segments.words '_' key.text, Segments.rest '_' key.text) = key.parts := by
  cases key with
  | currentIdCount => decide
  | isVirtualFileSystemCreated => decide
  | folderInfo number => exact numbered_text "FOLDER".toList "info".toList number (by decide) (by decide)
  | fileInfo number => exact numbered_text "FILE".toList "info".toList number (by decide) (by decide)
  | folderFolders number =>
    exact numbered_text "FOLDER".toList "folders".toList number (by decide) (by decide)
  | folderFiles number => exact numbered_text "FOLDER".toList "files".toList number (by decide) (by decide)

theorem Key.text_injective : Function.Injective Key.text := by
  intro first second same
  have parts : first.parts = second.parts := by
    rw [← first.text_parts, ← second.text_parts, same]
  cases first <;> cases second <;>
    simp_all [Key.parts, printLd_injective.eq_iff]

end RedisVfs

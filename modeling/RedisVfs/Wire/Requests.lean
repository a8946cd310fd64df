import RedisVfs.Source.Commands
import RedisVfs.Wire.Spelling

set_option autoImplicit false

namespace RedisVfs

open CString Hiredis

def luConversion : Conversion where
  body := ['l']
  conv := 'u'
  type := .long
  short := by decide
  scans _ := rfl

def ldConversion : Conversion where
  body := ['l']
  conv := 'd'
  type := .long
  short := by decide
  scans _ := rfl

def lu (value : Int) : Piece := .number luConversion (.long value) rfl
def ld (value : Int) : Piece := .number ldConversion (.long value) rfl

theorem leftpad_one {digits : Text} (some_ : digits ≠ []) : digits.leftpad 1 '0' = digits := by
  have length := List.length_pos_iff.mpr some_
  have none_ : 1 - digits.length = 0 := by omega
  rw [List.leftpad, none_]
  rfl

theorem printInteger_plain (conv : Char) (bits : Nat) (value : Int) (decimal_ : radix conv = 10)
    (notUpper : conv ≠ 'X') :
    printInteger [] 0 none conv bits value =
      integerLead [] conv (narrow conv bits value) ++ decimal (narrow conv bits value).natAbs := by
  have digits (n : Nat) : integerDigits false none conv n = decimal n := by
    simp only [integerDigits, decimal_, if_neg notUpper, Option.getD_none]
    simp only [Bool.false_eq_true, false_and, reduceCtorEq, if_false]
    exact leftpad_one Nat.toDigits_ne_nil
  simp [printInteger, digits, List.leftpad]

theorem fill_lu (value : Int) : (lu value).fill = printLu value := by
  have printed : (lu value).fill = printInteger [] 0 none 'u' 64 value := rfl
  have narrowed : (narrow 'u' 64 value).natAbs = unsigned value := by
    simp only [narrow, isSigned]
    unfold unsigned
    simp only [Char.reduceEq, decide_false, Bool.or_self, Bool.false_eq_true, if_false]
    omega
  have lead (value : Int) : integerLead [] 'u' value = [] := rfl
  rw [printed, printInteger_plain 'u' 64 value rfl (by decide), narrowed, lead]
  rfl

theorem fill_ld {value : Int} (low : LONG_MIN ≤ value) (high : value ≤ LONG_MAX) :
    (ld value).fill = printLd value := by
  have printed : (ld value).fill = printInteger [] 0 none 'd' 64 value := rfl
  have narrowed : narrow 'd' 64 value = value := by
    simp only [narrow, isSigned, decide_true, Bool.true_or, if_true]
    unfold LONG_MIN LONG_MAX at *
    omega
  rw [printed, printInteger_plain 'd' 64 value rfl (by decide), narrowed]
  unfold printLd integerLead
  by_cases negative : value < 0
  · have same : value.natAbs = (-value).toNat := by omega
    simp [isSigned, negative, same]
  · have same : value.natAbs = value.toNat := by omega
    simp [isSigned, negative, same]

def plain (text : Text) (some_ : text ≠ []) (free : ∀ c ∈ text, c ≠ '%' ∧ c ≠ ' ') : Word :=
  ⟨.literal text some_ free, []⟩

def quote : Piece := .literal ['"'] (by decide) (by simp)

def inQuotes (piece : Piece) : Word := ⟨quote, [piece, quote]⟩

def infoOf (family : Piece) (number : Piece) : Word :=
  ⟨family, [number, .literal "_info".toList (by decide) (by simp)]⟩

def folderPiece : Piece := .literal "FOLDER_".toList (by decide) (by simp)
def filePiece : Piece := .literal "FILE_".toList (by decide) (by simp)

def foldersOf (number : Piece) : Word :=
  ⟨folderPiece, [number, .literal "_folders".toList (by decide) (by simp)]⟩

def filesOf (number : Piece) : Word :=
  ⟨folderPiece, [number, .literal "_files".toList (by decide) (by simp)]⟩

def fieldWord : Field → Word
  | .parent => plain "parent".toList (by decide) (by simp)
  | .name => plain "name".toList (by decide) (by simp)
  | .createdData => plain "createdData".toList (by decide) (by simp)
  | .size => plain "size".toList (by decide) (by simp)
  | .id => plain "id".toList (by decide) (by simp)
  | .webUrl => plain "webUrl".toList (by decide) (by simp)
  | .apiUrl => plain "apiUrl".toList (by decide) (by simp)

def getWord : Word := plain "GET".toList (by decide) (by simp)
def setWord : Word := plain "SET".toList (by decide) (by simp)
def incrWord : Word := plain "INCR".toList (by decide) (by simp)
def existsWord : Word := plain "EXISTS".toList (by decide) (by simp)
def lpushWord : Word := plain "LPUSH".toList (by decide) (by simp)
def lremWord : Word := plain "LREM".toList (by decide) (by simp)
def lrangeWord : Word := plain "LRANGE".toList (by decide) (by simp)
def hsetWord : Word := plain "HSET".toList (by decide) (by simp)
def hmsetWord : Word := plain "HMSET".toList (by decide) (by simp)
def hgetWord : Word := plain "HGET".toList (by decide) (by simp)
def flushallWord : Word := plain "FLUSHALL".toList (by decide) (by simp)
def zeroWord : Word := plain "0".toList (by decide) (by simp)
def lastWord : Word := plain "-1".toList (by decide) (by simp)
def countWord : Word := plain "current_id_count".toList (by decide) (by simp)
def createdWord : Word := plain "isVirtualFileSystemCreated".toList (by decide) (by simp)

def spaced (closed : List (Word × Nat)) (last : Word) (trail : Nat) : Layout :=
  { lead := 0, closed, last, trail }

def CallSite.layout : CallSite → Layout
  | .getCount => spaced [(getWord, 0)] countWord 0
  | .incrCount => spaced [(incrWord, 0)] countWord 0
  | .makeFolder id parentId name createdData =>
      spaced [(hmsetWord, 0), (infoOf folderPiece (lu id), 1), (fieldWord .parent, 0), (⟨lu parentId, []⟩, 0),
        (fieldWord .name, 0), (inQuotes (.string name), 0), (fieldWord .createdData, 0)]
        (inQuotes (.string createdData)) 0
  | .pushFolder parentId id => spaced [(lpushWord, 0), (foldersOf (lu parentId), 0)] ⟨lu id, []⟩ 0
  | .makeFile id name size createdData googleId webUrl apiUrl =>
      spaced [(hmsetWord, 0), (infoOf filePiece (lu id), 0), (fieldWord .name, 0), (inQuotes (.string name), 0),
        (fieldWord .size, 0), (inQuotes (lu size), 0), (fieldWord .createdData, 0),
        (inQuotes (.string createdData), 0), (fieldWord .id, 0), (inQuotes (.string googleId), 0),
        (fieldWord .webUrl, 0), (inQuotes (.string webUrl), 0), (fieldWord .apiUrl, 0)]
        (inQuotes (.string apiUrl)) 1
  | .pushFile folderId fileId => spaced [(lpushWord, 0), (filesOf (lu folderId), 0)] ⟨lu fileId, []⟩ 0
  | .removeFile dirId removeId =>
      spaced [(lremWord, 0), (filesOf (ld dirId), 0), (zeroWord, 0)] ⟨ld removeId, []⟩ 0
  | .removeFolder dirId removeId =>
      spaced [(lremWord, 0), (foldersOf (ld dirId), 0), (zeroWord, 0)] ⟨ld removeId, []⟩ 0
  | .setFileName id tempPtr =>
      spaced [(hsetWord, 0), (infoOf filePiece (lu id), 0), (fieldWord .name, 0)] (inQuotes (.string tempPtr)) 0
  | .fileName id => spaced [(hgetWord, 0), (infoOf filePiece (lu id), 0)] (fieldWord .name) 0
  | .fileApiUrl id => spaced [(hgetWord, 0), (infoOf filePiece (lu id), 0)] (fieldWord .apiUrl) 0
  | .fileSize id => spaced [(hgetWord, 0), (infoOf filePiece (lu id), 0)] (fieldWord .size) 0
  | .fileParent id => spaced [(hgetWord, 0), (infoOf filePiece (lu id), 0)] (fieldWord .parent) 0
  | .folderName id => spaced [(hgetWord, 0), (infoOf folderPiece (lu id), 0)] (fieldWord .name) 0
  | .folderParent id => spaced [(hgetWord, 0), (infoOf folderPiece (lu id), 0)] (fieldWord .parent) 0
  | .setFolderParent dirId newParent =>
      spaced [(hsetWord, 0), (infoOf folderPiece (lu dirId), 0), (fieldWord .parent, 0)] ⟨ld newParent, []⟩ 0
  | .folders dirId => spaced [(lrangeWord, 0), (foldersOf (lu dirId), 0), (zeroWord, 0)] lastWord 0
  | .files dirId => spaced [(lrangeWord, 0), (filesOf (lu dirId), 0), (zeroWord, 0)] lastWord 0
  | .filesOfListing dirId => spaced [(lrangeWord, 0), (filesOf (lu dirId), 2), (zeroWord, 0)] lastWord 0
  | .flush => spaced [] flushallWord 0
  | .setCount =>
      spaced [(setWord, 0), (countWord, 0)] (plain "1".toList (by decide) (by simp)) 0
  | .setCreated =>
      spaced [(setWord, 0), (createdWord, 0)] (plain "yes".toList (by decide) (by simp)) 0
  | .existsCreated => spaced [(existsWord, 0)] createdWord 0
  | .existsFile objId => spaced [(existsWord, 0)] (infoOf filePiece (lu objId)) 0
  | .existsFolder objId => spaced [(existsWord, 0)] (infoOf folderPiece (lu objId)) 0

theorem CallSite.layout_spell (site : CallSite) : site.layout.spell = site.format := by
  cases site <;> rfl

theorem CallSite.layout_args (site : CallSite) : site.layout.args = site.args := by
  cases site <;> rfl

def CallSite.InRange : CallSite → Prop
  | .removeFile dirId removeId | .removeFolder dirId removeId =>
      (LONG_MIN ≤ dirId ∧ dirId ≤ LONG_MAX) ∧ LONG_MIN ≤ removeId ∧ removeId ≤ LONG_MAX
  | .setFolderParent _ newParent => LONG_MIN ≤ newParent ∧ newParent ≤ LONG_MAX
  | _ => True

theorem printLd_unsigned (value : Int) : printLd (unsigned value) = printLu value := printLd_natCast _

section Fill

theorem fill_plain (text : Text) (some_ : text ≠ []) (free : ∀ c ∈ text, c ≠ '%' ∧ c ≠ ' ') :
    (plain text some_ free).fill = text := by
  simp [plain, Word.fill, Word.pieces, Piece.fill]

theorem fill_single (piece : Piece) : (⟨piece, []⟩ : Word).fill = piece.fill := by
  simp [Word.fill, Word.pieces]

theorem fill_inQuotes (piece : Piece) : (inQuotes piece).fill = quoted piece.fill := by
  simp [inQuotes, Word.fill, Word.pieces, quote, Piece.fill, quoted]

theorem fill_info (family number : Piece) :
    (infoOf family number).fill = family.fill ++ number.fill ++ "_info".toList := by
  simp [infoOf, Word.fill, Word.pieces, Piece.fill]

theorem fill_folders (number : Piece) :
    (foldersOf number).fill = "FOLDER_".toList ++ number.fill ++ "_folders".toList := by
  simp [foldersOf, folderPiece, Word.fill, Word.pieces, Piece.fill]

theorem fill_files (number : Piece) :
    (filesOf number).fill = "FOLDER_".toList ++ number.fill ++ "_files".toList := by
  simp [filesOf, folderPiece, Word.fill, Word.pieces, Piece.fill]

theorem fill_field (field : Field) : (fieldWord field).fill = field.text := by
  cases field <;> exact fill_plain _ _ _

end Fill

theorem CallSite.layout_argv {site : CallSite} (inRange : site.InRange) :
    site.layout.argv = argv site.command := by
  have info (id : Int) : (infoOf folderPiece (lu id)).fill = (Key.folderInfo (unsigned id)).text := by
    rw [fill_info, fill_lu, ← printLd_unsigned]
    rfl
  have fileInfo (id : Int) : (infoOf filePiece (lu id)).fill = (Key.fileInfo (unsigned id)).text := by
    rw [fill_info, fill_lu, ← printLd_unsigned]
    rfl
  have folders (id : Int) : (foldersOf (lu id)).fill = (Key.folderFolders (unsigned id)).text := by
    rw [fill_folders, fill_lu, ← printLd_unsigned]
    rfl
  have files (id : Int) : (filesOf (lu id)).fill = (Key.folderFiles (unsigned id)).text := by
    rw [fill_files, fill_lu, ← printLd_unsigned]
    rfl
  have text (text : Text) : (Piece.string text).fill = text := rfl
  cases site with
  | removeFile dirId removeId =>
    obtain ⟨⟨low, high⟩, low', high'⟩ := inRange
    simp only [layout, spaced, Layout.argv, Layout.words, List.map_cons, List.map_nil, List.cons_append,
      List.nil_append, fill_files, fill_single, fill_ld low high, fill_ld low' high']
    rfl
  | removeFolder dirId removeId =>
    obtain ⟨⟨low, high⟩, low', high'⟩ := inRange
    simp only [layout, spaced, Layout.argv, Layout.words, List.map_cons, List.map_nil, List.cons_append,
      List.nil_append, fill_folders, fill_single, fill_ld low high, fill_ld low' high']
    rfl
  | setFolderParent dirId newParent =>
    obtain ⟨low, high⟩ := inRange
    simp only [layout, spaced, Layout.argv, Layout.words, List.map_cons, List.map_nil, List.cons_append,
      List.nil_append, info, fill_single, fill_ld low high]
    rfl
  | _ =>
    simp only [layout, spaced, Layout.argv, Layout.words, List.map_cons, List.map_nil, List.cons_append,
      List.nil_append, info, fileInfo, folders, files, fill_single, fill_inQuotes, fill_lu, text, fill_field]
    rfl

theorem Field.text_injective : Function.Injective Field.text := by
  intro first second same
  cases first <;> cases second <;> first | rfl | exact absurd same (by decide)

theorem fields_injective {first second : List (Field × Text)}
    (same : (first.flatMap fun entry => [entry.1.text, entry.2]) =
      second.flatMap fun entry => [entry.1.text, entry.2]) : first = second := by
  induction first generalizing second with
  | nil =>
    cases second with
    | nil => rfl
    | cons entry second => simp at same
  | cons entry first ih =>
    cases second with
    | nil => simp at same
    | cons entry' second =>
      simp only [List.flatMap_cons, List.cons_append, List.nil_append, List.cons.injEq] at same
      obtain ⟨name, value, rest⟩ := same
      rw [Prod.ext (Field.text_injective name) value, ih rest]

theorem argv_injective : Function.Injective argv := by
  intro first second same
  have head : (argv first).head? = (argv second).head? := congrArg List.head? same
  -- The first word tells the commands apart.
  cases first <;> cases second <;> try exact absurd head (by decide)
  case hmset.hmset =>
    simp only [argv, List.cons.injEq, true_and] at same
    rw [Key.text_injective same.1, fields_injective same.2]
  all_goals simp_all [argv, Key.text_injective.eq_iff, Field.text_injective.eq_iff]

end RedisVfs

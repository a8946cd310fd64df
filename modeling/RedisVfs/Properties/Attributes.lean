import RedisVfs.Refinement.Building
import RedisVfs.Refinement.Listing
import RedisVfs.Refinement.Stating
import RedisVfs.Refinement.Viewing

set_option autoImplicit false

namespace RedisVfs

open CString Directory

def Kind.mode : Kind → RedisFs.FileMode
  | .folder => .S_IFDIR
  | .file => .S_IFREG

def bareName (name : Text) : Text := if name.getLast? = some '/' then name.dropLast else name

namespace Store

variable (store : Store)

-- What an absolute path resolves to, name by name: a file called what follows the last '/' in a folder
-- that the components before it come to, or a folder that all components come to.
def FileAt (path : Text) : Prop :=
  Segments.rest '/' path ≠ [] ∧ ∃ d, store.view.Walk 0 (pathWords path) d ∧
    some (Segments.rest '/' path) ∈ store.view.files d

def FolderAt (path : Text) : Prop := ∃ d, store.view.Walk 0 (components (path.drop 1)) d

def AttributesRight (context : FsContext) (path : Text) : Prop :=
  ∃ code buf, (RedisFs.getattr context path).run execute store = (.ok (code, buf), store) ∧
    (code = 0 → (store.FileAt path ∨ store.FolderAt path) ∧
      (buf.stMode = some .S_IFDIR ↔ store.FolderAt path) ∧ (buf.stMode = some .S_IFREG ↔ store.FileAt path))

-- The path resolves to objects of one kind, and its components, read by prefixes, lead to one of that kind.
def KindKept (path : Text) : Prop :=
  (store.FileAt path ∧ ¬ store.FolderAt path ∧
      ∃ d, store.view.leads 0 (pathWords path) = some d ∧ some (Segments.rest '/' path) ∈ store.view.files d) ∨
    store.FolderAt path ∧ ¬ store.FileAt path ∧ ∃ d, store.view.leads 0 (components (path.drop 1)) = some d

def links (d : Int) : List (Kind × Option Text) :=
  (store.folders d).map (fun id => (.folder, store.folderName id)) ++
    (store.files d).map fun id => (.file, store.fileName id)

-- Whatever the filler answers, each name that it is handed is that of a link of the folder, and is
-- found under the path as an object of the link's kind.
def ReaddirConsistent (context : FsContext) (path : Text) (d : Int) : Prop :=
  ∀ filler, ∃ code handed linked,
    (RedisFs.readdir filler context path).run execute store = (.ok (code, handed), store) ∧
      linked <+: store.links d ∧ linked.map Prod.snd = handed.map some ∧
        ∀ kind name, (kind, some name) ∈ linked → ∃ buf,
          (RedisFs.getattr context (path ++ name)).run execute store = (.ok (0, buf), store) ∧
            buf.stMode = some kind.mode

-- A file's name that ends in '/' is read as a folder's; a folder is hidden by a file.
def LinkReadable (d : Int) : Kind → Text → Prop
  | .folder, name => ¬ store.view.Shadowed d (bareName name)
  | .file, name => name.getLast? ≠ some '/'

def ChildrenReadable (d : Int) : Prop :=
  ∀ kind name, (kind, some name) ∈ store.links d → store.LinkReadable d kind name

end Store

namespace RedisFs

theorem fill_handed (filler : List Text → Text → Int) (handed names : List Text) :
    ∃ count, (fill filler handed names).2 = handed ++ names.take count := by
  induction names generalizing handed with
  | nil => exact ⟨0, by simp [fill]⟩
  | cons name names ih =>
    by_cases refused : filler handed name ≠ 0
    · exact ⟨1, by simp [fill, refused]⟩
    · obtain ⟨count, rest⟩ := ih (handed ++ [name])
      refine ⟨count + 1, ?_⟩
      rw [fill, if_neg refused, rest, List.take_succ_cons, List.append_assoc]
      rfl

theorem fill_accepting (handed names : List Text) :
    fill (fun _ _ => 0) handed names = (0, handed ++ names) := by
  induction names generalizing handed with
  | nil => simp [fill]
  | cons name names ih => simp [fill, ih]

end RedisFs

theorem bareName_shaped {word : Text} (free : Segments.Free '/' word) (slash : Bool) :
    bareName (word ++ trail slash) = word := by
  cases slash with
  | true =>
    have closing : word ++ trail true = word.concat '/' := (List.concat_eq_append ..).symm
    simp [bareName, closing]
  | false =>
    have open_ : word.getLast? ≠ some '/' := fun last => free (List.mem_of_getLast? last)
    simp [bareName, trail, open_]

theorem closed_shaped {word : Text} (free : Segments.Free '/' word) (slash : Bool) :
    (word ++ trail slash).getLast? = some '/' ↔ slash = true := by
  cases slash with
  | true => simp [trail]
  | false =>
    have open_ : word.getLast? ≠ some '/' := fun last => free (List.mem_of_getLast? last)
    simp [trail, open_]

namespace History

def kindAt (history : History) (body : Text) : Option Kind := (history.objectAt body).map Prod.fst

def statBuf (history : History) (body : Text) : RedisFs.StatBuf where
  stNlink := unsigned (history.dirItemInfo (history.objectAt body)).id
  stMode := (history.kindAt body).map Kind.mode
  stSize := 0

end History

namespace Tree

variable (tree : Tree)

theorem getattr_run {cwd body : Text} (start : tree.history.view.Within (· < 2 ^ 31) 0 (components cwd))
    (within : PathWithin tree.history.view (· < 2 ^ 31) 0 ('/' :: body)) :
    (RedisFs.getattr { cwd := '/' :: cwd } ('/' :: body)).run execute tree.store =
      (.ok (0, tree.history.statBuf body), tree.store) := by
  rw [RedisFs.getattr, Program.run_bind_ok execute (tree.stat_run start within), History.statBuf,
    History.kindAt]
  cases tree.history.objectAt body with
  | none => rfl
  | some object =>
    obtain ⟨kind, id⟩ := object
    cases kind <;> rfl

theorem leads_kind_iff (body : Text) :
    (∃ d, tree.store.view.leads 0 (components body) = some d) ↔ tree.history.kindAt body = some .folder := by
  have there : (∃ d, tree.store.view.leads 0 (components body) = some d) ↔
      ∃ id, tree.history.walk 0 (components body) = some id := by
    constructor
    · rintro ⟨_, leads⟩
      obtain ⟨id, walk, _⟩ := tree.leads_root_iff.mp leads
      exact ⟨id, walk⟩
    · rintro ⟨id, walk⟩
      exact ⟨id, tree.leads_root_iff.mpr ⟨id, walk, rfl⟩⟩
  rw [there, History.kindAt, Option.map_eq_some_iff]
  cases located : locate ('/' :: body) with
  | none =>
    obtain rfl := locate_root located
    exact iff_of_true ⟨0, rfl⟩ ⟨(.folder, 0), rfl, rfl⟩
  | some location =>
    rw [Location.components located]
    constructor
    · rintro ⟨id, walk⟩
      exact ⟨(.folder, id), (tree.folder_at_iff located).mpr walk, rfl⟩
    · rintro ⟨⟨kind, id⟩, found, rfl⟩
      exact ⟨id, (tree.folder_at_iff located).mp found⟩

theorem files_kind_iff {body : Text} (named : Segments.rest '/' ('/' :: body) ≠ []) :
    (∃ d, tree.store.view.leads 0 (pathWords ('/' :: body)) = some d ∧
        some (Segments.rest '/' ('/' :: body)) ∈ tree.store.view.files d) ↔
      tree.history.kindAt body = some .file := by
  rw [History.kindAt, Option.map_eq_some_iff]
  cases located : locate ('/' :: body) with
  | none =>
    obtain rfl := locate_root located
    exact absurd rfl named
  | some location =>
    have rest := location.rest_text
    rw [← (locate_some located).1] at rest
    cases slash : location.slash with
    | true =>
      rw [slash, if_pos rfl] at rest
      exact absurd rest named
    | false =>
      obtain ⟨words, last⟩ := Location.path_open located slash
      have inside (d : Nat) : some location.last ∈ tree.store.view.files d ↔
          ∃ id, tree.history.findFile d location.last false = some id := by
        rw [← Option.ne_none_iff_exists', Ne, tree.findFile_open, not_not]
      rw [words, last]
      constructor
      · rintro ⟨_, leads, member⟩
        obtain ⟨d, walk, rfl⟩ := tree.leads_root_iff.mp leads
        obtain ⟨id, found⟩ := (inside d).mp member
        exact ⟨(.file, id), (tree.file_at_iff located).mpr ⟨slash, d, walk, found⟩, rfl⟩
      · rintro ⟨⟨kind, id⟩, object, rfl⟩
        obtain ⟨_, d, walk, found⟩ := (tree.file_at_iff located).mp object
        exact ⟨d, tree.leads_root_iff.mpr ⟨d, walk, rfl⟩, (inside d).mpr ⟨id, found⟩⟩

theorem kindKept_iff (body : Text) :
    tree.store.KindKept ('/' :: body) ↔
      (tree.store.FileAt ('/' :: body) ∧ ¬ tree.store.FolderAt ('/' :: body) ∧
          tree.history.kindAt body = some .file) ∨
        tree.store.FolderAt ('/' :: body) ∧ ¬ tree.store.FileAt ('/' :: body) ∧
          tree.history.kindAt body = some .folder := by
  refine or_congr ?_ (and_congr_right fun _ => and_congr_right fun _ => tree.leads_kind_iff body)
  exact and_congr_right fun file => and_congr_right fun _ => tree.files_kind_iff file.1

theorem attributesRight_iff {cwd body : Text}
    (start : tree.history.view.Within (· < 2 ^ 31) 0 (components cwd))
    (within : PathWithin tree.history.view (· < 2 ^ 31) 0 ('/' :: body)) :
    tree.store.AttributesRight { cwd := '/' :: cwd } ('/' :: body) ↔ tree.store.KindKept ('/' :: body) := by
  have right : tree.store.AttributesRight { cwd := '/' :: cwd } ('/' :: body) ↔
      (tree.store.FileAt ('/' :: body) ∨ tree.store.FolderAt ('/' :: body)) ∧
        ((tree.history.statBuf body).stMode = some .S_IFDIR ↔ tree.store.FolderAt ('/' :: body)) ∧
          ((tree.history.statBuf body).stMode = some .S_IFREG ↔ tree.store.FileAt ('/' :: body)) := by
    unfold Store.AttributesRight
    rw [tree.getattr_run start within]
    constructor
    · rintro ⟨code, buf, run, right⟩
      rw [Prod.mk.injEq, Except.ok.injEq, Prod.mk.injEq] at run
      obtain ⟨⟨rfl, rfl⟩, -⟩ := run
      exact right rfl
    · exact fun right => ⟨0, _, rfl, fun _ => right⟩
  rw [right, tree.kindKept_iff, History.statBuf]
  cases found : tree.history.kindAt body with
  | none => simp; tauto
  | some kind => cases kind <;> simp [Kind.mode] <;> tauto

theorem kindKept_of_straight {body : Text} (straight : tree.store.view.Straight 0 (components body))
    (single : tree.store.view.Single 0 (pathWords ('/' :: body))) :
    tree.store.KindKept ('/' :: body) ↔ tree.store.FileAt ('/' :: body) ∨ tree.store.FolderAt ('/' :: body) := by
  have folder : tree.store.FolderAt ('/' :: body) ↔
      ∃ d, tree.store.view.leads 0 (components body) = some d := by
    rcases @leads_of_straight tree 0 .root (components body) [] (by rwa [List.append_nil]) with
      ⟨d, leads, walk⟩ | ⟨leads, none⟩
    · exact iff_of_true ⟨d, walk⟩ ⟨d, leads⟩
    · exact iff_of_false (fun ⟨d, walk⟩ => none d walk) (fun ⟨d, there⟩ => by simp [there] at leads)
  have file (named : Segments.rest '/' ('/' :: body) ≠ []) :
      components body = pathWords ('/' :: body) ++ [Segments.rest '/' ('/' :: body)] ∧
        (tree.store.FileAt ('/' :: body) ↔ ∃ d, tree.store.view.leads 0 (pathWords ('/' :: body)) = some d ∧
          some (Segments.rest '/' ('/' :: body)) ∈ tree.store.view.files d) := by
    have parts := components_drop_lead ('/' :: body)
    rw [if_neg named] at parts
    refine ⟨parts, ?_⟩
    rcases @leads_of_straight tree 0 .root (pathWords ('/' :: body)) [Segments.rest '/' ('/' :: body)]
      (parts ▸ straight) with ⟨d, leads, walk⟩ | ⟨leads, none⟩
    · constructor
      · rintro ⟨-, e, reach, member⟩
        exact ⟨d, leads, single _ _ reach walk ▸ member⟩
      · rintro ⟨e, there, member⟩
        exact ⟨named, d, walk, Option.some.inj (there.symm.trans leads) ▸ member⟩
    · exact iff_of_false (fun ⟨_, e, reach, _⟩ => none e reach) (fun ⟨e, there, _⟩ => by simp [there] at leads)
  have apart (isFile : tree.store.FileAt ('/' :: body)) : ¬ tree.store.FolderAt ('/' :: body) := by
    obtain ⟨parts, there⟩ := file isFile.1
    obtain ⟨d, leads, member⟩ := there.mp isFile
    rw [folder, parts, View.leads_concat, leads, Option.bind_some, View.enter, if_pos (.inl member)]
    simp
  constructor
  · rintro (kept | kept)
    · exact .inl kept.1
    · exact .inr kept.1
  · rintro (isFile | isFolder)
    · exact .inl ⟨isFile, apart isFile, (file isFile.1).2.mp isFile⟩
    · exact .inr ⟨isFolder, fun isFile => apart isFile isFolder, folder.mp isFolder⟩

theorem links_store (d : Nat) :
    tree.store.links d =
      (tree.history.childFolders d).map (fun id => (.folder, some (tree.history.name id))) ++
        (tree.history.childFiles d).map fun id => (.file, some (tree.history.name id)) := by
  rw [Store.links, tree.folders_store, tree.files_store, List.map_map, List.map_map]
  congr 1
  · apply List.map_congr_left
    intro id member
    obtain ⟨entry, found, kind, _⟩ := Journal.mem_children.mp member
    exact congrArg (Prod.mk Kind.folder) (tree.folderName_store (.inr ⟨entry, found, kind⟩))
  · apply List.map_congr_left
    intro id member
    exact congrArg (Prod.mk Kind.file) (tree.fileName_store member)

section Child

variable {body : Text} {d : Nat} (closed : ('/' :: body).getLast? = some '/')
  (walk : tree.history.walk 0 (components body) = some d)

include closed walk

omit walk in
theorem locate_child {word : Text} {slash : Bool} (free : Segments.Free '/' word)
    (ends : word = [] → slash = true) :
    ∃ location, locate ('/' :: (body ++ (word ++ trail slash))) = some location ∧
      location.folders = components body ∧ location.last = word ∧ location.slash = slash := by
  have nonempty : word ++ trail slash ≠ [] := by
    intro empty
    obtain ⟨rfl, bare⟩ := List.append_eq_nil_iff.mp empty
    rw [ends rfl] at bare
    simp [trail] at bare
  have rest : Segments.rest '/' body = [] := by
    rw [← Segments.rest_behind '/' [] body]
    exact ((getLast?_eq_slash _).mp closed).2
  cases located : locate ('/' :: (body ++ (word ++ trail slash))) with
  | none => simpa [nonempty] using locate_none located
  | some location =>
    have parts := Location.components located
    rw [components_append rest, components_named free ends] at parts
    obtain ⟨folders, last⟩ := List.append_inj' parts rfl
    refine ⟨location, rfl, folders.symm, (List.cons.inj last).1.symm, ?_⟩
    have closing : ('/' :: (body ++ (word ++ trail slash))).getLast? = some '/' ↔ slash = true := by
      rw [← closed_shaped free slash, ← List.cons_append]
      rw [List.getLast?_append_of_ne_nil _ nonempty]
    rw [(locate_some located).1, Location.getLast?] at closing
    exact Bool.eq_iff_iff.mpr closing

theorem kindAt_child {word : Text} (free : Segments.Free '/' word) (named : word ≠ []) (slash : Bool) :
    tree.history.kindAt (body ++ (word ++ trail slash)) =
      if slash = false ∧ tree.history.findFile d word false ≠ none then some .file
      else (tree.history.enter d word).map fun _ => .folder := by
  obtain ⟨location, located, folders, last, ends⟩ := @locate_child body closed word slash free (absurd · named)
  rw [History.kindAt, History.objectAt, located]
  simp only [ends, last, folders, History.fileAt, History.walk_concat, walk, Option.bind_some]
  cases slash with
  | true =>
    simp only [if_true, Bool.true_eq_false, false_and, if_false, Option.map_map]
    rfl
  | false =>
    cases tree.history.findFile d word false with
    | none =>
      simp only [Bool.false_eq_true, if_false, ne_eq, not_true_eq_false, and_false, Option.map_map]
      rfl
    | some file => simp

omit closed walk in
theorem folderNamed_child {id : Nat} {word : Text} {slash : Bool}
    (member : id ∈ tree.history.childFolders d) (shape : tree.history.name id = word ++ trail slash) :
    ∃ e, tree.history.folderNamed d word = some e := by
  have begins : tree.history.findFolder d word ≠ none := by
    rw [History.findFolder, Ne, List.find?_eq_none]
    intro none
    apply none id member
    exact List.isPrefixOf_iff_prefix.mpr (shape ▸ List.prefix_append _ _)
  obtain ⟨e, found⟩ := Option.ne_none_iff_exists'.mp begins
  unfold History.folderNamed
  split
  · exact ⟨d, rfl⟩
  · split
    · exact ⟨_, rfl⟩
    · exact ⟨e, found⟩

theorem folder_link_kind {id : Nat} {word : Text} {slash : Bool} (free : Segments.Free '/' word)
    (named : word ≠ []) (member : id ∈ tree.history.childFolders d)
    (shape : tree.history.name id = word ++ trail slash) :
    tree.history.kindAt (body ++ (word ++ trail slash)) = some .folder ↔
      ¬ tree.history.view.Shadowed d word := by
  rw [tree.kindAt_child closed walk free named]
  by_cases shadowed : tree.history.view.Shadowed d word
  · rw [History.enter_shadowed shadowed]
    exact iff_of_false (by split <;> simp) (not_not.mpr shadowed)
  · have absent := not_not.mp (History.shadowed_iff.not.mp shadowed)
    obtain ⟨e, found⟩ := tree.folderNamed_child member shape
    rw [History.findFile_none_of_slash false absent, History.enter_clear shadowed, found]
    exact iff_of_true (by simp) shadowed

theorem file_link_kind {id : Nat} {word : Text} {slash : Bool} (free : Segments.Free '/' word)
    (named : word ≠ []) (member : id ∈ tree.history.childFiles d)
    (shape : tree.history.name id = word ++ trail slash) :
    tree.history.kindAt (body ++ (word ++ trail slash)) = some .file ↔ slash = false := by
  rw [tree.kindAt_child closed walk free named]
  cases slash with
  | true =>
    rw [if_neg (by simp)]
    cases tree.history.enter d word <;> simp
  | false =>
    have present : tree.history.findFile d word false ≠ none := by
      intro none
      have differs := History.findFile_eq_none.mp none id member
      simp [fileNamed, shape, trail] at differs
    exact iff_of_true (if_pos ⟨rfl, present⟩) rfl

theorem link_kind {kind : Kind} {name : Text} (linked : (kind, some name) ∈ tree.store.links d) :
    tree.history.kindAt (body ++ name) = some kind ↔ tree.store.LinkReadable d kind name := by
  have there : tree.history.Linked d := History.Linked.walk .root walk
  rw [tree.links_store] at linked
  rcases List.mem_append.mp linked with folder | file
  · obtain ⟨id, member, same⟩ := List.mem_map.mp folder
    obtain ⟨rfl, called⟩ := Prod.mk.inj same
    obtain ⟨word, slash, named, free, shape⟩ := tree.child_shaped there member
    obtain rfl : name = word ++ trail slash := (Option.some.inj called).symm.trans shape
    rw [tree.folder_link_kind closed walk free named member shape, Store.LinkReadable,
      bareName_shaped free, tree.view_embeds.shadowed_iff there]
  · obtain ⟨id, member, same⟩ := List.mem_map.mp file
    obtain ⟨rfl, called⟩ := Prod.mk.inj same
    obtain ⟨word, slash, named, free, shape⟩ := tree.child_shaped there member
    obtain rfl : name = word ++ trail slash := (Option.some.inj called).symm.trans shape
    rw [tree.file_link_kind closed walk free named member shape, Store.LinkReadable, Ne,
      closed_shaped free, Bool.not_eq_true]

end Child

theorem link_named {e : Nat} {kind : Kind} {name : Text} (linked : (kind, some name) ∈ tree.store.links e) :
    ∃ word slash, Segments.Free '/' word ∧ (word = [] → slash = true) ∧ name = word ++ trail slash := by
  have child {kind' : Kind} {id : Nat} (member : id ∈ Journal.children tree.history kind' e) :
      ∃ word slash, Segments.Free '/' word ∧ (word = [] → slash = true) ∧
        tree.history.name id = word ++ trail slash := by
    obtain ⟨entry, found, _, rfl⟩ := Journal.mem_children.mp member
    rw [History.name, Journal.name_of_entry found]
    rcases tree.grown.entry found with lost | ⟨⟨word, slash, named, free, shape⟩, _⟩
    · exact ⟨[], true, by simp [Segments.Free], fun _ => rfl, lost.2⟩
    · exact ⟨word, slash, free, fun empty => absurd empty named, shape⟩
  rw [tree.links_store] at linked
  rcases List.mem_append.mp linked with folder | file
  · obtain ⟨id, member, same⟩ := List.mem_map.mp folder
    rw [← Option.some.inj (Prod.mk.inj same).2]
    exact child member
  · obtain ⟨id, member, same⟩ := List.mem_map.mp file
    rw [← Option.some.inj (Prod.mk.inj same).2]
    exact child member

section Listed

variable {cwd body : Text} (start : tree.history.view.Within (· < 2 ^ 31) 0 (components cwd))
  (within : tree.history.view.Within (· < 2 ^ 31) 0 (components body))

include start

theorem readdirConsistent_kind_iff {d : Int} {e : Nat} (number : unsigned d = e)
    (resolved : tree.store.folderId { cwd := '/' :: cwd } ('/' :: body) = .ok d)
    (children : ∀ kind name, (kind, some name) ∈ tree.store.links e →
      PathWithin tree.history.view (· < 2 ^ 31) 0 ('/' :: (body ++ name))) :
    tree.store.ReaddirConsistent { cwd := '/' :: cwd } ('/' :: body) e ↔
      ∀ kind name, (kind, some name) ∈ tree.store.links e → tree.history.kindAt (body ++ name) = some kind := by
  have readdir (filler : List Text → Text → Int) :
      (RedisFs.readdir filler { cwd := '/' :: cwd } ('/' :: body)).run execute tree.store =
        (.ok (RedisFs.fill filler [] (tree.history.folderNames e ++ tree.history.fileNames e)), tree.store) := by
    have folder := tree.store.folderId_run { cwd := '/' :: cwd } ('/' :: body)
    rw [resolved] at folder
    have names := (tree.shows d).lsPath_run folder
    rw [number] at names
    exact Program.run_bind_ok execute names _
  have names : (tree.store.links e).map Prod.snd =
      (tree.history.folderNames e ++ tree.history.fileNames e).map some := by
    rw [tree.links_store, History.folderNames, History.fileNames, List.map_append, List.map_append,
      List.map_map, List.map_map, List.map_map, List.map_map]
    rfl
  constructor
  · intro consistent kind name linked
    obtain ⟨code, handed, first, run, within, called, read⟩ := consistent fun _ _ => 0
    rw [readdir, RedisFs.fill_accepting, Prod.mk.injEq, Except.ok.injEq, Prod.mk.injEq] at run
    have all : first = tree.store.links e := by
      apply within.eq_of_length
      rw [← List.length_map Prod.snd, called, ← run.1.2, List.nil_append, ← names, List.length_map]
    obtain ⟨buf, attributes, mode⟩ := read kind name (all ▸ linked)
    have answer := (tree.getattr_run start (children kind name linked)).symm.trans attributes
    rw [Prod.mk.injEq, Except.ok.injEq, Prod.mk.injEq] at answer
    rw [← answer.1.2, History.statBuf] at mode
    obtain ⟨kind', found, same⟩ := Option.map_eq_some_iff.mp mode
    cases kind <;> cases kind' <;> simp_all [Kind.mode]
  · intro readable filler
    obtain ⟨count, handed⟩ := RedisFs.fill_handed filler []
      (tree.history.folderNames e ++ tree.history.fileNames e)
    refine ⟨_, _, (tree.store.links e).take count, readdir filler, List.take_prefix .., ?_, ?_⟩
    · rw [handed, List.map_take, names, List.nil_append, List.map_take]
    · intro kind name member
      have linked := List.mem_of_mem_take member
      have mode : (tree.history.statBuf (body ++ name)).stMode = some kind.mode := by
        rw [History.statBuf, readable kind name linked]
        rfl
      exact ⟨_, tree.getattr_run start (children kind name linked), mode⟩

variable (closed : ('/' :: body).getLast? = some '/')

include closed within

theorem readdirConsistent_iff {d : Nat} (walk : tree.history.walk 0 (components body) = some d)
    (children : ∀ kind name, (kind, some name) ∈ tree.store.links d →
      PathWithin tree.history.view (· < 2 ^ 31) 0 ('/' :: (body ++ name))) :
    tree.store.ReaddirConsistent { cwd := '/' :: cwd } ('/' :: body) d ↔ tree.store.ChildrenReadable d := by
  have resolved : tree.store.folderId { cwd := '/' :: cwd } ('/' :: body) = .ok (d : Int) :=
    (tree.folderId_linked start within).trans (by rw [walk]; rfl)
  rw [tree.readdirConsistent_kind_iff start (tree.number (History.Linked.walk .root walk).le) resolved children]
  exact forall_congr' fun kind => forall_congr' fun name => forall_congr' fun linked =>
    tree.link_kind closed walk linked

theorem readdirConsistent_lost (walk : tree.history.walk 0 (components body) = none) :
    tree.store.ReaddirConsistent { cwd := '/' :: cwd } ('/' :: body) nowhere ↔
      tree.store.links nowhere = [] := by
  have resolved : tree.store.folderId { cwd := '/' :: cwd } ('/' :: body) = .ok (-1) :=
    (tree.folderId_linked start within).trans (by rw [walk]; rfl)
  have lost : tree.history.view.leads 0 (components body) = none := (History.view_leads ..).trans walk
  have child {kind : Kind} {name : Text} (linked : (kind, some name) ∈ tree.store.links nowhere) :
      PathWithin tree.history.view (· < 2 ^ 31) 0 ('/' :: (body ++ name)) ∧
        tree.history.kindAt (body ++ name) = none := by
    obtain ⟨word, slash, free, ends, rfl⟩ := tree.link_named linked
    obtain ⟨location, located, folders, last, _⟩ := @locate_child body closed word slash free ends
    have parts := Location.components located
    rw [folders, last] at parts
    refine ⟨⟨?_, fun other there => ?_⟩, ?_⟩
    · have behind : ('/' :: (body ++ (word ++ trail slash))).drop
          (pathLead ('/' :: (body ++ (word ++ trail slash)))).length = body ++ (word ++ trail slash) := rfl
      rw [behind, parts]
      refine View.within_concat.mpr ⟨within, fun e leads => ?_⟩
      rw [View.leads_concat, lost] at leads
      simp at leads
    · obtain rfl : location = other := Option.some.inj (located.symm.trans there)
      rw [Location.Within, folders]
      exact ⟨within, fun d e leads => by simp [lost] at leads⟩
    · rw [History.kindAt, History.objectAt, located]
      simp [History.fileAt, folders, walk, History.walk_concat]
  rw [tree.readdirConsistent_kind_iff start (show unsigned (-1) = nowhere from unsigned_sentinel) resolved
    fun kind name linked => (child linked).1]
  constructor
  · intro readable
    refine List.eq_nil_iff_forall_not_mem.mpr ?_
    rintro ⟨kind, name⟩ linked
    have named : ∃ text, name = some text := by
      rw [tree.links_store] at linked
      rcases List.mem_append.mp linked with folder | file
      · obtain ⟨id, _, same⟩ := List.mem_map.mp folder
        exact ⟨_, (Prod.mk.inj same).2.symm⟩
      · obtain ⟨id, _, same⟩ := List.mem_map.mp file
        exact ⟨_, (Prod.mk.inj same).2.symm⟩
    obtain ⟨text, rfl⟩ := named
    have found := readable kind text linked
    rw [(child linked).2] at found
    simp at found
  · intro empty kind name linked
    rw [empty] at linked
    simp at linked

end Listed

end Tree

end RedisVfs

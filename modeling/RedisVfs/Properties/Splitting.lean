import RedisVfs.Refinement.Parsing

set_option autoImplicit false

namespace RedisVfs

open CString

theorem buffer_parts {path : Text} {n : Nat} (positive : 0 < n) (bound : n ≤ path.length) :
    ∃ words last after, path = pathOf path words ++ (last ++ after) ∧
      (∀ word ∈ words, Segments.Free '/' word) ∧ Segments.Free '/' last ∧
        n = (pathOf path words).length + last.length := by
  have lead : (pathLead path).length ≤ n := by
    unfold pathLead trail
    split
    · exact positive
    · exact Nat.zero_le n
  have body := pathLead_append path
  have size := congrArg List.length body
  rw [List.length_append] at size
  generalize path.drop (pathLead path).length = text at body size
  have kept := Segments.unite_words_rest '/' (text.take (n - (pathLead path).length))
  have length := congrArg List.length kept
  rw [List.length_append, List.length_take, Nat.min_eq_left (by omega)] at length
  refine ⟨Segments.words '/' (text.take (n - (pathLead path).length)),
    Segments.rest '/' (text.take (n - (pathLead path).length)),
    text.drop (n - (pathLead path).length), ?_, Segments.words_free '/' _, Segments.rest_free '/' _, ?_⟩
  · rw [pathOf, List.append_assoc, ← List.append_assoc (Segments.unite '/' _), kept,
      List.take_append_drop, body]
  · rw [pathOf, List.length_append]
    omega

theorem front_ends {front : Text} (ends : front ≠ [] → front.getLast? = some '/') (after : Text) :
    front.length = 0 ∨ (front ++ after)[front.length - 1]? = some '/' := by
  by_cases empty : front = []
  · exact .inl (by rw [empty]; rfl)
  · have positive := List.length_pos_iff.mpr empty
    refine .inr ?_
    rw [List.getElem?_append_left (by omega), ← List.getLast?_eq_getElem?]
    exact ends empty

theorem no_slash_behind {front last : Text} (free : Segments.Free '/' last) (after : Text) {k : Nat}
    (less : k < last.length) : (front ++ (last ++ after))[front.length + k]? ≠ some '/' := by
  rw [List.getElem?_append_right (Nat.le_add_right _ _), Nat.add_sub_cancel_left,
    List.getElem?_append_left less]
  exact fun same => free (List.mem_of_getElem? same)

theorem scanBack_parts {front last : Text} (ends : front ≠ [] → front.getLast? = some '/')
    (free : Segments.Free '/' last) (after : Text) :
    scanBack (front ++ (last ++ after)) 0 (front.length + last.length) = (last.length, front.length) := by
  have scan := scanBack_name (front ++ (last ++ after)) 0 front.length last.length
    (fun _ => no_slash_behind free after) (front_ends ends _)
  rwa [Nat.zero_add] at scan

theorem walkLoop_open {words : List Text} {last : Text} (free : ∀ word ∈ words, Segments.Free '/' word)
    (lastFree : Segments.Free '/' last) (after : Text) :
    ∀ parserState d, walkLoop parserState d (Segments.unite '/' words ++ (last ++ after))
        ((Segments.unite '/' words).length + last.length) =
      walkLoop parserState d (Segments.unite '/' words ++ (last ++ after))
        (Segments.unite '/' words).length := by
  induction words with
  | nil =>
    intro parserState d
    have still := Tree.walkLoop_nil parserState d (show Segments.Free '/' [] by simp [Segments.Free]) (last ++ after)
    rw [List.nil_append, List.length_nil, Nat.add_zero] at still
    rw [Tree.walkLoop_nil parserState d lastFree, still]
  | cons word words ih =>
    intro parserState d
    have wordFree := free word (by simp)
    have later := ih fun other member => free other (by simp [member])
    have short := Tree.walkLoop_cons parserState d wordFree words [] (last ++ after)
    simp only [List.nil_append, List.length_nil, Nat.add_zero] at short
    rw [Tree.walkLoop_cons parserState d wordFree, short]
    congr 1
    funext answer
    rw [later]

theorem dirId_parts (d : Int) (path : Text) {words : List Text} {last after : Text}
    (parts : path = pathOf path words ++ (last ++ after)) (free : ∀ word ∈ words, Segments.Free '/' word)
    (lastFree : Segments.Free '/' last) :
    vfsGetDirIdFromPath d path ((pathOf path words).length + last.length) =
      vfsGetDirIdFromPath d path (pathOf path words).length := by
  have loop := walkLoop_open free lastFree after initVfsPathParserState
  by_cases slash : path.head? = some '/'
  · have lead : pathLead path = ['/'] := by simp [pathLead, slash, trail]
    rw [pathOf, lead] at parts ⊢
    have long : (['/'] ++ Segments.unite '/' words).length + last.length - 1 =
        (Segments.unite '/' words).length + last.length := by
      rw [List.length_append, List.length_singleton]
      omega
    have short : (['/'] ++ Segments.unite '/' words).length - 1 = (Segments.unite '/' words).length := by
      simp
    rw [parts, List.append_assoc, List.singleton_append, vfsGetDirIdFromPath, vfsGetDirIdFromPath,
      long, short]
    exact loop 0
  · have lead : pathLead path = [] := by simp [pathLead, slash, trail]
    have relative {n : Nat} : vfsGetDirIdFromPath d path n = walkLoop initVfsPathParserState d path n := by
      rw [vfsGetDirIdFromPath.eq_def]
      split
      · simp at slash
      · rfl
    rw [pathOf, lead, List.nil_append] at parts ⊢
    rw [relative, relative, parts]
    exact loop d

-- The splitter cuts off what the walk does not look up: on every store the two lengths give one run.
theorem last_component (parserState : VfsPathParserState) {path : Text} {n : Nat} (positive : 0 < n)
    (bound : n ≤ path.length) :
    let separated := vfsSeperatePathAndName parserState path n
    separated.nameOffset + separated.nameLength = n ∧
      (∀ k, separated.nameOffset ≤ k → k < n → path[k]? ≠ some '/') ∧
        (separated.nameOffset = 0 ∨ path[separated.nameOffset - 1]? = some '/') ∧
          ∀ (store : Store) (d : Int), (vfsGetDirIdFromPath d path n).run execute store =
            (vfsGetDirIdFromPath d path separated.nameOffset).run execute store := by
  obtain ⟨words, last, after, parts, free, lastFree, length⟩ := buffer_parts positive bound
  have ends := @pathOf_ends path words
  have walk (d : Int) := dirId_parts d path parts free lastFree
  have scan := scanBack_parts ends lastFree after
  have slash := front_ends ends (last ++ after)
  have name {k : Nat} := @no_slash_behind (pathOf path words) last lastFree after k
  rw [← parts] at scan slash name
  rw [← length] at scan walk
  have split : vfsSeperatePathAndName parserState path n =
      { parserState with nameLength := last.length, nameOffset := (pathOf path words).length } := by
    rw [vfsSeperatePathAndName, scan]
  simp only [split]
  refine ⟨length.symm, ?_, slash, ?_⟩
  · intro k low high
    have inside : k = (pathOf path words).length + (k - (pathOf path words).length) := by omega
    rw [inside]
    exact name (by omega)
  · intro store d
    rw [walk]

theorem last_component_nested :
    (0 < 7 ∧ 7 ≤ "/a//b/c".toList.length) ∧
      (vfsSeperatePathAndName initVfsPathParserState "/a//b/c".toList 7).nameOffset = 6 ∧
        (vfsSeperatePathAndName initVfsPathParserState "/a//b/c".toList 7).nameLength = 1 ∧
          ∀ (store : Store) (d : Int), (vfsGetDirIdFromPath d "/a//b/c".toList 7).run execute store =
            (vfsGetDirIdFromPath d "/a//b/c".toList
              (vfsSeperatePathAndName initVfsPathParserState "/a//b/c".toList 7).nameOffset).run execute
                store :=
  ⟨by decide, by decide, by decide,
    (@last_component initVfsPathParserState "/a//b/c".toList 7 (by decide) (by decide)).2.2.2⟩

end RedisVfs

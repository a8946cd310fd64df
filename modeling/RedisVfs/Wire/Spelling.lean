import RedisVfs.Wire.Formatting

set_option autoImplicit false

namespace Hiredis

open CString Resp

-- A conversion that hiredis takes, wherever it stands: what is behind the '%' up to its last character.
structure Conversion where
  body : Text
  conv : Char
  type : ArgType
  short : body.length + 2 < formatSize - 2
  scans : ∀ more, conversion (body ++ conv :: more) = some (conv :: more, type)

def Conversion.text (conversion : Conversion) : Text := conversion.body ++ [conversion.conv]

def Arg.type : Arg → Option ArgType
  | .int _ => some .int
  | .long _ => some .long
  | .longLong _ => some .longLong
  | .double _ => some .double
  | _ => none

-- A piece of a format: characters that stand for themselves, or a directive and its argument.
inductive Piece where
  | literal (text : Text) (some_ : text ≠ []) (plain : ∀ c ∈ text, c ≠ '%' ∧ c ≠ ' ')
  | percent
  | string (text : Text)
  | binary (text : Text)
  | number (conversion : Conversion) (arg : Arg) (fits : arg.type = some conversion.type)

namespace Piece

def spell : Piece → Text
  | literal text _ _ => text
  | percent => ['%', '%']
  | string _ => ['%', 's']
  | binary _ => ['%', 'b']
  | number conversion _ _ => '%' :: conversion.text

def args : Piece → List Arg
  | literal _ _ _ => []
  | percent => []
  | string text => [.string text]
  | binary text => [.binary text]
  | number _ arg _ => [arg]

def fill : Piece → Text
  | literal text _ _ => text
  | percent => ['%']
  | string text => text
  | binary text => text
  | number conversion arg _ => vsnprintf conversion.text arg

end Piece

structure Word where
  first : Piece
  others : List Piece

namespace Word

def pieces (word : Word) : List Piece := word.first :: word.others

def spell (word : Word) : Text := word.pieces.flatMap Piece.spell

def args (word : Word) : List Arg := word.pieces.flatMap Piece.args

def fill (word : Word) : Text := word.pieces.flatMap Piece.fill

end Word

-- A format by its words. A word that is closed is followed by one blank and so many more.
structure Layout where
  lead : Nat
  closed : List (Word × Nat)
  last : Word
  trail : Nat

def blanks (n : Nat) : Text := List.replicate n ' '

namespace Layout

def spellClosed (closed : List (Word × Nat)) : Text :=
  closed.flatMap fun entry => entry.1.spell ++ blanks (entry.2 + 1)

def spell (layout : Layout) : Text :=
  blanks layout.lead ++ spellClosed layout.closed ++ layout.last.spell ++ blanks layout.trail

def words (layout : Layout) : List Word := layout.closed.map Prod.fst ++ [layout.last]

def args (layout : Layout) : List Arg := layout.words.flatMap Word.args

def argv (layout : Layout) : List Text := layout.words.map Word.fill

end Layout

theorem formatLoop_skip (front : Text) (more : Text) (f : Formatting) :
    formatLoop (front ++ more) front.length f = formatLoop more 0 f := by
  induction front with
  | nil => rfl
  | cons c front ih => exact ih

theorem put_put (f : Formatting) (text more : Text) (ap ap' : List Arg) :
    (f.put text ap).put more ap' = f.put (text ++ more) ap' := by
  simp [Formatting.put]

theorem close_close (f : Formatting) : f.close.close = f.close := by
  unfold Formatting.close
  split <;> simp_all

theorem close_put (f : Formatting) (text : Text) (ap : List Arg) :
    (f.put text ap).close =
      { curarg := [], touched := false, curargv := f.curargv ++ [f.curarg ++ text]
        totlen := f.totlen + bulklen (f.curarg ++ text).length, ap } := rfl

theorem loop_literal {text : Text} (plain : ∀ c ∈ text, c ≠ '%' ∧ c ≠ ' ') (more : Text) :
    ∀ {f : Formatting}, text ≠ [] → formatLoop (text ++ more) 0 f = formatLoop more 0 (f.put text f.ap) := by
  induction text with
  | nil => exact fun nonempty => absurd rfl nonempty
  | cons c text ih =>
    intro f _
    obtain ⟨notPercent, notBlank⟩ := plain c List.mem_cons_self
    have step : formatLoop (c :: text ++ more) 0 f = formatLoop (text ++ more) 0 (f.put [c] f.ap) := by
      rw [List.cons_append, formatLoop, if_neg fun percent => notPercent percent.1, if_neg notBlank]
    by_cases last : text = []
    · subst last
      exact step
    · have rest := @ih (fun d member => plain d (List.mem_cons_of_mem _ member)) (f.put [c] f.ap) last
      rw [step, rest, put_put]
      rfl

theorem conversion_letter {c : Char} (letter : c = 's' ∨ c = 'b' ∨ c = '%') (s : Text) :
    conversion (c :: s) = none := by
  rcases letter with rfl | rfl | rfl <;> rfl

theorem vaArg_type {arg : Arg} {type : ArgType} (fits : arg.type = some type) (ap : List Arg) :
    vaArg type (arg :: ap) = some (arg, ap) := by
  cases arg <;> cases fits <;> rfl

theorem convert_other {f : Formatting} {c : Char} {s : Text} (letter : ¬ (c = 's' ∨ c = 'b' ∨ c = '%')) :
    convert f c s =
      match conversion (c :: s) with
      | none => .error .format_err
      | some (p, type) =>
          match vaArg type f.ap with
          | none => .error .wrongArgument
          | some (arg, ap) =>
              let taken := (c :: s).length - p.length + 1
              if taken + 1 < formatSize - 2 then
                if p.isEmpty then .error .overread
                else .ok (f.put (vsnprintf ((c :: s).take taken) arg) ap, taken)
              else .ok (f.put [] ap, 1) := by
  unfold convert
  split
  · exact absurd (.inl rfl) letter
  · exact absurd (.inl rfl) letter
  · exact absurd (.inr (.inl rfl)) letter
  · exact absurd (.inr (.inl rfl)) letter
  · exact absurd (.inr (.inr rfl)) letter
  · rfl

theorem convert_number (conversion : Conversion) {arg : Arg} (fits : arg.type = some conversion.type)
    {f : Formatting} {ap : List Arg} (args : f.ap = arg :: ap) (more : Text) :
    ∃ c s, conversion.text ++ more = c :: s ∧
      convert f c s = .ok (f.put (vsnprintf conversion.text arg) ap, conversion.text.length) := by
  have scans := conversion.scans more
  have split : conversion.text ++ more = conversion.body ++ conversion.conv :: more := by
    simp [Conversion.text]
  rw [← split] at scans
  have length : conversion.text.length = conversion.body.length + 1 := by simp [Conversion.text]
  cases whole : conversion.text ++ more with
  | nil => simp [Conversion.text] at whole
  | cons c s =>
    rw [whole] at scans
    have letter : ¬ (c = 's' ∨ c = 'b' ∨ c = '%') := fun letter => by
      rw [conversion_letter letter] at scans
      cases scans
    have taken : (c :: s).length - (conversion.conv :: more).length + 1 = conversion.text.length := by
      rw [← whole, List.length_append, List.length_cons]
      omega
    have front : (c :: s).take conversion.text.length = conversion.text := by
      rw [← whole, List.take_left]
    have short := conversion.short
    refine ⟨c, s, rfl, ?_⟩
    simp only [convert_other letter, scans, args, vaArg_type fits, taken, front]
    rw [if_pos (by omega)]
    rfl

theorem loop_directive {c : Char} {s : Text} {f f' : Formatting} {skip : Nat}
    (converted : convert f c s = .ok (f', skip)) :
    formatLoop ('%' :: c :: s) 0 f = formatLoop (c :: s) skip f' := by
  rw [formatLoop, if_pos ⟨rfl, List.cons_ne_nil c s⟩]
  simp only [List.headD_cons, List.tail_cons, converted]
  rfl

theorem loop_piece (piece : Piece) {f : Formatting} {ap : List Arg} (args : f.ap = piece.args ++ ap)
    (more : Text) : formatLoop (piece.spell ++ more) 0 f = formatLoop more 0 (f.put piece.fill ap) := by
  cases piece with
  | literal text some_ plain =>
    have same : f.ap = ap := args
    rw [← same]
    exact loop_literal plain more some_
  | percent =>
    have same : f.ap = ap := args
    rw [← same]
    exact @loop_directive '%' more f (f.put ['%'] f.ap) 1 rfl
  | string text =>
    have converted : convert f 's' more = .ok (f.put text ap, 1) := by
      simp only [convert, args, Piece.args, List.singleton_append]
    exact loop_directive converted
  | binary text =>
    have converted : convert f 'b' more = .ok (f.put text ap, 1) := by
      simp only [convert, args, Piece.args, List.singleton_append]
    exact loop_directive converted
  | number conversion arg fits =>
    obtain ⟨c, s, whole, converted⟩ := convert_number conversion fits args more
    have spelled : (Piece.number conversion arg fits).spell ++ more = '%' :: c :: s := by
      rw [← whole]
      rfl
    rw [spelled, loop_directive converted, ← whole, formatLoop_skip]
    rfl

theorem loop_pieces (pieces : List Piece) (more : Text) :
    ∀ {f : Formatting} {ap : List Arg}, pieces ≠ [] → f.ap = pieces.flatMap Piece.args ++ ap →
      formatLoop (pieces.flatMap Piece.spell ++ more) 0 f =
        formatLoop more 0 (f.put (pieces.flatMap Piece.fill) ap) := by
  induction pieces with
  | nil => exact fun nonempty => absurd rfl nonempty
  | cons piece pieces ih =>
    intro f ap _ args
    rw [List.flatMap_cons, List.append_assoc] at args
    have step := loop_piece piece args (pieces.flatMap Piece.spell ++ more)
    rw [List.flatMap_cons, List.append_assoc, step]
    by_cases last : pieces = []
    · subst last
      simp
    · rw [ih last rfl, put_put, List.flatMap_cons]

theorem loop_blanks (n : Nat) (more : Text) (f : Formatting) :
    formatLoop (blanks (n + 1) ++ more) 0 f = formatLoop more 0 f.close := by
  induction n generalizing f with
  | zero => rfl
  | succ n ih =>
    have step : formatLoop (blanks (n + 1 + 1) ++ more) 0 f = formatLoop (blanks (n + 1) ++ more) 0 f.close :=
      rfl
    rw [step, ih, close_close]

def Formatting.Closed (f : Formatting) (argv : List Text) (ap : List Arg) : Prop :=
  f.curarg = [] ∧ f.touched = false ∧ f.curargv = argv ∧ f.ap = ap

theorem Formatting.Closed.close_put {f : Formatting} {argv : List Text} {ap : List Arg}
    (closed : f.Closed argv ap) (text : Text) (ap' : List Arg) :
    (f.put text ap').close.Closed (argv ++ [text]) ap' := by
  obtain ⟨curarg, -, curargv, -⟩ := closed
  rw [Hiredis.close_put, curarg, curargv]
  exact ⟨rfl, rfl, rfl, rfl⟩

theorem Formatting.Closed.close {f : Formatting} {argv : List Text} {ap : List Arg}
    (closed : f.Closed argv ap) : f.close = f := by
  rw [Formatting.close, closed.2.1]
  rfl

theorem loop_closed (closed : List (Word × Nat)) (more : Text) :
    ∀ {f : Formatting} {argv : List Text} {ap : List Arg},
      f.Closed argv ((closed.map Prod.fst).flatMap Word.args ++ ap) →
      ∃ f', formatLoop (Layout.spellClosed closed ++ more) 0 f = formatLoop more 0 f' ∧
        f'.Closed (argv ++ (closed.map Prod.fst).map Word.fill) ap := by
  induction closed with
  | nil => exact fun holds => ⟨_, rfl, by simpa using holds⟩
  | cons entry closed ih =>
    intro f argv ap holds
    obtain ⟨word, gap⟩ := entry
    have args : f.ap = word.pieces.flatMap Piece.args ++ ((closed.map Prod.fst).flatMap Word.args ++ ap) := by
      rw [holds.2.2.2, List.map_cons, List.flatMap_cons, List.append_assoc]
      rfl
    have word_ := loop_pieces word.pieces (blanks (gap + 1) ++ (Layout.spellClosed closed ++ more))
      (List.cons_ne_nil _ _) args
    obtain ⟨f', later, holds'⟩ := ih (holds.close_put word.fill _)
    refine ⟨f', ?_, ?_⟩
    · have spelled : Layout.spellClosed ((word, gap) :: closed) ++ more =
          word.pieces.flatMap Piece.spell ++ (blanks (gap + 1) ++ (Layout.spellClosed closed ++ more)) := by
        simp [Layout.spellClosed, Word.spell]
      rw [spelled, word_, loop_blanks]
      exact later
    · simpa using holds'

theorem loop_layout (layout : Layout) (trail : layout.trail = 0) (ap : List Arg) (more : Text) :
    ∃ f, formatLoop (layout.spell ++ more) 0 (.start (layout.args ++ ap)) = formatLoop more 0 f ∧
      f.close.Closed layout.argv ap := by
  have start : (Formatting.start (layout.args ++ ap)).Closed []
      ((layout.closed.map Prod.fst).flatMap Word.args ++ (layout.last.args ++ ap)) := by
    refine ⟨rfl, rfl, rfl, ?_⟩
    simp [Formatting.start, Layout.args, Layout.words]
  obtain ⟨f, closed, holds⟩ := loop_closed layout.closed (layout.last.spell ++ more) start
  have args : f.ap = layout.last.pieces.flatMap Piece.args ++ ap := holds.2.2.2
  have last := loop_pieces layout.last.pieces more (List.cons_ne_nil _ _) args
  refine ⟨f.put layout.last.fill ap, ?_, ?_⟩
  · have spelled : layout.spell ++ more =
        blanks layout.lead ++ (Layout.spellClosed layout.closed ++ (layout.last.spell ++ more)) := by
      simp [Layout.spell, trail, blanks]
    have lead (more : Text) : formatLoop (blanks layout.lead ++ more) 0 (.start (layout.args ++ ap)) =
        formatLoop more 0 (.start (layout.args ++ ap)) := by
      cases layout.lead with
      | zero => rfl
      | succ n => rw [loop_blanks, start.close]
    rw [spelled, lead, closed]
    exact last
  · simpa [Layout.argv, Layout.words] using holds.close_put layout.last.fill ap

theorem format_layout (layout : Layout) (ap : List Arg) :
    redisvFormatCommand layout.spell (layout.args ++ ap) =
      .ok ((request layout.argv).wire, (request layout.argv).wire.length) := by
  obtain ⟨f, loop, closed⟩ := loop_layout { layout with trail := 0 } rfl ap (blanks layout.trail)
  have spelled : ({ layout with trail := 0 } : Layout).spell ++ blanks layout.trail = layout.spell := by
    simp [Layout.spell, blanks]
  have args : ({ layout with trail := 0 } : Layout).args = layout.args := rfl
  have argv : ({ layout with trail := 0 } : Layout).argv = layout.argv := rfl
  rw [spelled, args] at loop
  rw [argv] at closed
  have trail : ∃ f', formatLoop (blanks layout.trail) 0 f = .ok f' ∧ f'.close = f.close := by
    cases layout.trail with
    | zero => exact ⟨f, rfl, rfl⟩
    | succ n =>
      have all := loop_blanks n [] f
      rw [List.append_nil] at all
      exact ⟨f.close, all, close_close f⟩
  obtain ⟨f', ended, same⟩ := trail
  rw [ended] at loop
  have measured := loop_measures layout.spell 0 (f := .start (layout.args ++ ap)) rfl
  rw [loop] at measured
  have total : f'.close.totlen = (Value.wires (layout.argv.map .bulk)).length := by
    have counted : f'.close.totlen = (Value.wires (f'.close.curargv.map .bulk)).length :=
      Formatting.Measured.close measured
    rw [counted, same, closed.2.2.1]
  have argv' : f'.close.curargv = layout.argv := by rw [same, closed.2.2.1]
  simp only [redisvFormatCommand, loop, bind, Except.bind, argv', total, writeCommand_eq, request_length,
    if_true]

end Hiredis

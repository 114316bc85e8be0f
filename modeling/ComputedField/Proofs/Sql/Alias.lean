import ComputedField.Proofs.Filter.Joins
import ComputedField.Proofs.Sql.Scan
import ComputedField.Proofs.Text.Ascii
import ComputedField.Sql.Schema

/-!
# What an alias stands for

How a server reads the joins and the order of a search: an alias belongs to the parentheses that it is
given in, and a column is read from the table that has the alias in the innermost parentheses, or from
none if two tables have it there. Keywords are read as names, which what stands around them tells apart.
The alias of the entries is chosen in the configuration. If it is one that a join or an order gives to
its own table, the entries are not what is read.
-/

namespace ComputedField.Sql

open ComputedField.Filter ComputedField.Text

inductive Piece where
  | word (name : List Char)
  | backquoted (name : List Char)
  | mark (c : Char)
  deriving DecidableEq, Repr

def endWord (run : List Char) : List Piece := if run.isEmpty then [] else [.word run.reverse]

/-- What a text is made of behind the name read so far, which is backward, in backquotes or not. -/
def piecesAfter (inside : Bool) (run : List Char) : List Char → List Piece
  | [] => endWord run
  | c :: rest =>
    if inside then
      if c = '\x60' then .backquoted run.reverse :: piecesAfter false [] rest
      else piecesAfter true (c :: run) rest
    else if isWordChar c then piecesAfter false (c :: run) rest
    else
      endWord run ++
        if c = '\x60' then piecesAfter true [] rest
        else if c.isWhitespace then piecesAfter false [] rest
        else .mark c :: piecesAfter false [] rest

def pieces (s : List Char) : List Piece := piecesAfter false [] s

inductive Origin where
  | entries
  | records (table : List Char)
  deriving DecidableEq, Repr

/-- Whether two names are the same to a server, to which small letters and capitals are. -/
def SameName (a b : List Char) : Prop := a.map Char.toLower = b.map Char.toLower

instance (a b : List Char) : Decidable (SameName a b) :=
  inferInstanceAs (Decidable (a.map Char.toLower = b.map Char.toLower))

/-- The aliases of each open parenthesis, the innermost first. -/
abbrev Scopes := List (List (List Char × Origin))

namespace Scopes

def declare (name : List Char) (origin : Origin) : Scopes → Scopes
  | [] => [[(name, origin)]]
  | scope :: outer => ((name, origin) :: scope) :: outer

def lookup (name : List Char) : Scopes → Option Origin
  | [] => none
  | scope :: outer =>
    match scope.filter fun entry => SameName name entry.1 with
    | [] => lookup name outer
    | [(_, origin)] => some origin
    | _ => none

end Scopes

/-- What each column `id` is read from. -/
def originsIn (scopes : Scopes) : List Piece → List (Option Origin)
  | [] => []
  | .backquoted table :: .word ['A', 'S'] :: .word name :: rest
  | .backquoted table :: .word ['A', 'S'] :: .backquoted name :: rest =>
    originsIn (scopes.declare name (.records table)) rest
  | .word name :: .mark '.' :: .word ['i', 'd'] :: rest
  | .backquoted name :: .mark '.' :: .word ['i', 'd'] :: rest =>
    scopes.lookup name :: originsIn scopes rest
  | .mark '(' :: rest => originsIn ([] :: scopes) rest
  | .mark ')' :: rest => originsIn scopes.tail rest
  | _ :: rest => originsIn scopes rest

/-- What the columns `id` in the joins and the order of a search are read from. -/
def Schema.origins (s : Schema) (js : List Join) (o : Order) : List (Option Origin) :=
  originsIn [[(s.entryAlias.toList, .entries)]]
    (pieces ((s.writeJoins js).toList ++ '\n' :: (s.writeOrder o).toList))

def introduced (js : List Join) : Order → List String
  | .random => js.map Join.name
  | .byValue _ _ => js.map Join.name ++ ["ed"]

section Pieces

variable {w rest : List Char}

theorem piecesAfter_append (hw : ∀ c ∈ w, isWordChar c = true) (run rest : List Char) :
    piecesAfter false run (w ++ rest) = piecesAfter false (w.reverse ++ run) rest := by
  induction w generalizing run with
  | nil => rfl
  | cons c w ih =>
    rw [List.cons_append, piecesAfter, if_neg Bool.false_ne_true, if_pos (hw c List.mem_cons_self),
      ih (fun d hd => hw d (List.mem_cons_of_mem c hd)), List.reverse_cons, List.append_assoc]
    rfl

/-- A name goes on to where no other letter follows. -/
theorem pieces_word (hne : w ≠ []) (hw : ∀ c ∈ w, isWordChar c = true)
    (hrest : rest.head?.any (!isWordChar ·) = true) :
    pieces (w ++ rest) = .word w :: pieces rest := by
  cases rest with
  | nil => cases hrest
  | cons c rest =>
    have hc : isWordChar c = false := by simpa using hrest
    have hword : endWord w.reverse = [.word w] := by
      rw [endWord, if_neg (by simpa using hne), List.reverse_reverse]
    rw [pieces, piecesAfter_append hw, List.append_nil, pieces, piecesAfter, piecesAfter, hc, hword]
    rfl

/-- Between backquotes everything belongs to the name. -/
theorem piecesAfter_backquoted (hw : '\x60' ∉ w) (run rest : List Char) :
    piecesAfter true run (w ++ rest) = piecesAfter true (w.reverse ++ run) rest := by
  induction w generalizing run with
  | nil => rfl
  | cons c w ih =>
    rw [List.mem_cons, not_or] at hw
    rw [List.cons_append, piecesAfter, if_pos rfl, if_neg (Ne.symm hw.1), ih hw.2, List.reverse_cons,
      List.append_assoc]
    rfl

end Pieces

structure Schema.IsPlain (s : Schema) : Prop where
  tablePrefix : ∀ c ∈ s.tablePrefix.toList, isWordChar c = true
  entryAlias : s.entryAlias.toList ≠ [] ∧ ∀ c ∈ s.entryAlias.toList, isWordChar c = true

section Clauses

variable {s : Schema}

def joinPieces (s : Schema) (j : Join) : List Piece :=
  [.word "LEFT".toList, .word "JOIN".toList, .backquoted (s.table j.field).toList, .word "AS".toList,
    .word j.name.toList, .word "ON".toList, .mark '(', .word s.entryAlias.toList, .mark '.',
    .word "id".toList, .mark '=', .word j.name.toList, .mark '.', .word "entry_id".toList, .mark ')']

def orderPieces (s : Schema) : Order → List Piece
  | .random =>
    [.word "ORDER".toList, .word "BY".toList, .word "RAND".toList, .mark '(', .mark ')']
  | .byValue field direction =>
    [.word "ORDER".toList, .word "BY".toList, .mark '(', .word "SELECT".toList,
      .backquoted "ed".toList, .mark '.', .word "value".toList, .word "FROM".toList,
      .backquoted (s.table field).toList, .word "AS".toList, .backquoted "ed".toList,
      .word "WHERE".toList, .backquoted "ed".toList, .mark '.', .word "entry_id".toList, .mark '=',
      .word s.entryAlias.toList, .mark '.', .word "id".toList, .mark ')',
      .word direction.keyword.toList]

/-- Plain identifiers cannot end the quotes that they stand in. -/
theorem Schema.IsPlain.backquote_notMem (hs : s.IsPlain) (field : FieldId) :
    '\x60' ∉ (s.table field).toList := by
  intro h
  rw [Schema.table, String.toList_append, List.mem_append] at h
  have hword : isWordChar '\x60' = true := by
    rcases h with h | h
    · exact hs.tablePrefix _ h
    · refine isWordChar_toDigits (n := field.toNat) _ ?_
      simpa [Identifier.shown] using h
  revert hword
  decide

theorem pieces_name (j : Join) {rest : List Char} (hrest : rest.head?.any (!isWordChar ·) = true) :
    pieces (j.name.toList ++ rest) = .word j.name.toList :: pieces rest := by
  obtain ⟨name, hname, hword⟩ := Join.exists_name j
  rw [hname]
  exact pieces_word (List.cons_ne_nil _ _) hword hrest

/-- What is written for a join is read as its names, in the place of each. -/
theorem pieces_writeJoin (hs : s.IsPlain) (j : Join) (rest : List Char) :
    pieces ((s.writeJoin j).toList ++ rest) = joinPieces s j ++ pieces rest := by
  have hstart : ∀ t, pieces ("LEFT JOIN \x60".toList ++ t) =
      .word "LEFT".toList :: .word "JOIN".toList :: piecesAfter true [] t := fun _ => rfl
  have htable : ∀ run t, piecesAfter true run ("\x60 AS ".toList ++ t) =
      .backquoted run.reverse :: .word "AS".toList :: pieces t := fun _ _ => rfl
  have hon : ∀ t, pieces (" ON (".toList ++ t) = .word "ON".toList :: .mark '(' :: pieces t :=
    fun _ => rfl
  have hid : ∀ t, pieces (".id = ".toList ++ t) =
      .mark '.' :: .word "id".toList :: .mark '=' :: pieces t := fun _ => rfl
  have hend : pieces (".entry_id)".toList ++ rest) =
      .mark '.' :: .word "entry_id".toList :: .mark ')' :: pieces rest := rfl
  unfold Schema.writeJoin
  simp only [String.toList_append, List.append_assoc]
  rw [hstart, piecesAfter_backquoted (hs.backquote_notMem j.field), htable, pieces_name j, hon,
    pieces_word hs.entryAlias.1 hs.entryAlias.2, hid, pieces_name j, hend, List.append_nil,
    List.reverse_reverse]
  all_goals rfl

theorem pieces_writeJoins (hs : s.IsPlain) (js : List Join) (rest : List Char) :
    pieces ((s.writeJoins js).toList ++ '\n' :: rest) = js.flatMap (joinPieces s) ++ pieces rest := by
  have hbreak : ∀ t, pieces ('\n' :: t) = pieces t := fun _ => rfl
  rw [Schema.writeJoins, String.toList_intercalate]
  induction js with
  | nil => exact hbreak rest
  | cons j js ih =>
    cases js with
    | nil =>
      rw [List.map_singleton, List.map_singleton, List.intercalate_singleton, pieces_writeJoin hs,
        hbreak, List.flatMap_singleton]
    | cons k others =>
      simp only [List.map_cons] at ih ⊢
      rw [List.intercalate_cons_cons, List.append_assoc, List.append_assoc, pieces_writeJoin hs,
        List.flatMap_cons, List.append_assoc, ← ih]
      exact congrArg _ (hbreak _)

theorem pieces_writeOrder (hs : s.IsPlain) (o : Order) :
    pieces (s.writeOrder o).toList = orderPieces s o := by
  cases o with
  | random =>
    have hrandom : pieces "ORDER BY RAND()".toList =
        [.word "ORDER".toList, .word "BY".toList, .word "RAND".toList, .mark '(', .mark ')'] := rfl
    exact hrandom
  | byValue field direction =>
    have hstart : ∀ t, pieces ("ORDER BY (SELECT \x60ed\x60.value FROM \x60".toList ++ t) =
        .word "ORDER".toList :: .word "BY".toList :: .mark '(' :: .word "SELECT".toList ::
          .backquoted "ed".toList :: .mark '.' :: .word "value".toList :: .word "FROM".toList ::
          piecesAfter true [] t := fun _ => rfl
    have htable : ∀ run t, piecesAfter true run
        ("\x60 AS \x60ed\x60 WHERE \x60ed\x60.entry_id = ".toList ++ t) =
        .backquoted run.reverse :: .word "AS".toList :: .backquoted "ed".toList ::
          .word "WHERE".toList :: .backquoted "ed".toList :: .mark '.' :: .word "entry_id".toList ::
          .mark '=' :: pieces t := fun _ _ => rfl
    have hid : ∀ t, pieces (".id) ".toList ++ t) =
        .mark '.' :: .word "id".toList :: .mark ')' :: pieces t := fun _ => rfl
    have hdirection : pieces direction.keyword.toList = [.word direction.keyword.toList] := by
      cases direction <;> rfl
    unfold Schema.writeOrder
    simp only [String.toList_append, List.append_assoc]
    rw [hstart, piecesAfter_backquoted (hs.backquote_notMem field), htable,
      pieces_word hs.entryAlias.1 hs.entryAlias.2, hid, hdirection, List.append_nil,
      List.reverse_reverse]
    all_goals rfl

end Clauses

section Reading

variable {s : Schema} {scopes : Scopes}

/-- A join declares its name, and then reads a column of its own and one of the entries. -/
theorem originsIn_joinPieces (scopes : Scopes) (s : Schema) (j : Join) (rest : List Piece) :
    originsIn scopes (joinPieces s j ++ rest) =
      let joined := scopes.declare j.name.toList (.records (s.table j.field).toList)
      joined.lookup s.entryAlias.toList :: originsIn joined rest :=
  rfl

/-- The order by value declares a name of its own inside its parentheses. -/
theorem originsIn_orderPieces (scopes : Scopes) (s : Schema) (field : FieldId)
    (direction : Direction) :
    originsIn scopes (orderPieces s (.byValue field direction)) =
      [Scopes.lookup s.entryAlias.toList
        (Scopes.declare "ed".toList (.records (s.table field).toList) ([] :: scopes))] :=
  rfl

/-- A table that is given an alias does not leave the entries under the same one. -/
theorem lookup_declare_eq_entries_iff {name other table : List Char} :
    (Scopes.declare other (.records table) scopes).lookup name = some .entries ↔
      ¬ SameName name other ∧ scopes.lookup name = some .entries := by
  cases scopes with
  | nil =>
    by_cases h : SameName name other <;> simp [Scopes.declare, Scopes.lookup, h]
  | cons scope outer =>
    rw [Scopes.declare, Scopes.lookup, Scopes.lookup, List.filter_cons]
    by_cases h : SameName name other
    · rw [if_pos (by simpa using h)]
      cases scope.filter (fun entry => SameName name entry.1) <;> simp [h]
    · rw [if_neg (by simpa using h), and_iff_right h]

theorem introduced_cons (j : Join) (js : List Join) (o : Order) :
    introduced (j :: js) o = j.name :: introduced js o := by
  cases o <;> rfl

/-- The entries are read everywhere if no table is given their alias. A join sees the aliases of the
joins before it and its own, so the induction is on the joins with any aliases in scope. -/
theorem originsIn_eq_replicate_iff (hentries : scopes.lookup s.entryAlias.toList = some .entries)
    (js : List Join) (o : Order) :
    originsIn scopes (js.flatMap (joinPieces s) ++ orderPieces s o) =
        List.replicate (introduced js o).length (some .entries) ↔
      ∀ name ∈ introduced js o, ¬ SameName s.entryAlias.toList name.toList := by
  induction js generalizing scopes with
  | nil =>
    cases o with
    | random => exact ⟨fun _ _ hname => absurd hname List.not_mem_nil, fun _ => rfl⟩
    | byValue field direction =>
      have hinner : Scopes.lookup s.entryAlias.toList ([] :: scopes) = some .entries := hentries
      rw [List.flatMap_nil, List.nil_append, originsIn_orderPieces]
      simp [introduced, lookup_declare_eq_entries_iff, hinner]
  | cons j js ih =>
    rw [List.flatMap_cons, List.append_assoc, originsIn_joinPieces, introduced_cons, List.length_cons,
      List.replicate_succ, List.cons.injEq, List.forall_mem_cons, lookup_declare_eq_entries_iff,
      and_iff_left hentries]
    refine and_congr_right fun hname => ih ?_
    exact lookup_declare_eq_entries_iff.mpr ⟨hname, hentries⟩

/-- Columns of entries are read from the entries if no name that is introduced hides their alias. -/
theorem Schema.IsPlain.origins_eq_replicate_iff (hs : s.IsPlain) (js : List Join) (o : Order) :
    s.origins js o = List.replicate (introduced js o).length (some .entries) ↔
      ∀ name ∈ introduced js o, ¬ SameName s.entryAlias.toList name.toList := by
  have hentries : Scopes.lookup s.entryAlias.toList [[(s.entryAlias.toList, .entries)]] =
      some .entries := by
    simp [Scopes.lookup, SameName]
  rw [Schema.origins, pieces_writeJoins hs, pieces_writeOrder hs]
  exact originsIn_eq_replicate_iff hentries js o

end Reading

/-- Whether a text is the shortest numeral of a number of 32 bits. -/
def isShortNumeral (s : List Char) : Bool :=
  let n := Nat.ofDigitChars 10 s 0
  n < UInt32.size && Nat.toDigits 10 n == s

def isTaken (name : String) : Bool :=
  let small := name.toList.map Char.toLower
  match small.takeWhile (· != '_'), small.dropWhile (· != '_') with
  | 't' :: field, '_' :: key => isShortNumeral field && isShortNumeral key
  | _, _ => small == "ed".toList

section Taken

variable {name : String}

/-- Numerals of keys are those without zeros in front, and not too long. -/
theorem isShortNumeral_iff {s : List Char} :
    isShortNumeral s = true ↔ ∃ n < UInt32.size, s = Nat.toDigits 10 n := by
  simp only [isShortNumeral, Bool.and_eq_true, decide_eq_true_eq, beq_iff_eq]
  constructor
  · rintro ⟨hn, hs⟩
    exact ⟨_, hn, hs.symm⟩
  · rintro ⟨n, hn, rfl⟩
    rw [Nat.ofDigitChars_ten_toDigits]
    exact ⟨hn, rfl⟩

/-- Small letters and capitals are letters of a name alike. -/
theorem isWordChar_toLower (c : Char) : isWordChar c.toLower = isWordChar c := by
  cases h : c.isUpper with
  | false => rw [toLower_of_isUpper_eq_false h]
  | true =>
    have hcapital : c.isAlpha = true := (Bool.or_eq_true _ _).mpr (.inl h)
    have hsmall : c.toLower.isAlpha = true := (Bool.or_eq_true _ _).mpr (.inr (isLower_toLower h))
    simp [isWordChar, Char.isAlphanum, hcapital, hsmall]

theorem map_toLower_toDigits (n : Nat) : (Nat.toDigits 10 n).map Char.toLower = Nat.toDigits 10 n :=
  (List.map_congr_left fun _ hc => toLower_of_isUpper_eq_false
    (isUpper_of_isDigit (Nat.isDigit_of_mem_toDigits (by decide) (by decide) hc))).trans
    (List.map_id _)

theorem map_toLower_name (j : Join) : j.name.toList.map Char.toLower = j.name.toList := by
  rw [j.toList_name, List.map_append, List.map_cons, List.map_cons, map_toLower_toDigits,
    map_toLower_toDigits]
  rfl

theorem isTaken_of_sameName_ed (h : SameName name.toList "ed".toList) : isTaken name = true := by
  rw [isTaken, show name.toList.map Char.toLower = "ed".toList.map Char.toLower from h]
  decide

/-- Whatever is the same name as that of a join is taken. -/
theorem isTaken_of_sameName {j : Join} (hkey : j.key < UInt32.size)
    (h : SameName name.toList j.name.toList) : isTaken name = true := by
  have hsmall : name.toList.map Char.toLower = j.name.toList := h.trans (map_toLower_name j)
  have hnumerals : isShortNumeral (Nat.toDigits 10 j.field.toNat) = true ∧
      isShortNumeral (Nat.toDigits 10 j.key) = true :=
    ⟨isShortNumeral_iff.mpr ⟨_, j.field.number.toNat_lt, rfl⟩, isShortNumeral_iff.mpr ⟨_, hkey, rfl⟩⟩
  rw [isTaken, hsmall, j.span_name.1, j.span_name.2]
  exact (Bool.and_eq_true _ _).mpr hnumerals

/-- A name that is taken is given by the order or by some join. -/
theorem exists_of_isTaken (h : isTaken name = true) : SameName name.toList "ed".toList ∨
    ∃ j : Join, j.key < UInt32.size ∧ SameName name.toList j.name.toList := by
  unfold isTaken at h
  dsimp only at h
  split at h
  · rename_i field key hfield hkey
    rw [Bool.and_eq_true, isShortNumeral_iff, isShortNumeral_iff] at h
    obtain ⟨⟨n, hn, rfl⟩, k, hk, rfl⟩ := h
    refine .inr ⟨⟨⟨UInt32.ofNat n⟩, k⟩, hk, ?_⟩
    rw [SameName, map_toLower_name, Join.toList_name, Identifier.toNat,
      UInt32.toNat_ofNat_of_lt' hn, ← hfield, ← hkey, List.takeWhile_append_dropWhile]
  · exact .inl (beq_iff_eq.mp h)

/-- Every join and every order by values gives a name that is taken, and no other names are. -/
theorem isTaken_iff : isTaken name = true ↔ ∃ js o, (∀ j ∈ js, j.key < UInt32.size) ∧
    ∃ other ∈ introduced js o, SameName name.toList other.toList := by
  constructor
  · intro h
    rcases exists_of_isTaken h with h | ⟨j, hkey, h⟩
    · exact ⟨[], .byValue ⟨1⟩ .ascending, by simp, "ed", by simp [introduced], h⟩
    · exact ⟨[j], .random, by simpa using hkey, j.name, by simp [introduced], h⟩
  · rintro ⟨js, o, hkeys, other, hother, h⟩
    have hjoins : other ∈ js.map Join.name → isTaken name = true := by
      intro hmem
      obtain ⟨j, hj, rfl⟩ := List.mem_map.mp hmem
      exact isTaken_of_sameName (hkeys j hj) h
    cases o with
    | random => exact hjoins hother
    | byValue field direction =>
      rcases List.mem_append.mp hother with hmem | hmem
      · exact hjoins hmem
      · rw [List.mem_singleton.mp hmem] at h
        exact isTaken_of_sameName_ed h

end Taken

section Configured

variable {c : Config}

theorem validate_eq_ok_iff : c.validate = .ok () ↔
    isPlainIdentifier c.tablePrefix = true ∧ isPlainIdentifier c.entryAlias = true := by
  unfold Config.validate Config.checkName Config.name
  cases isPlainIdentifier c.tablePrefix <;> cases isPlainIdentifier c.entryAlias <;>
    simp [bind, Except.bind]

theorem isPlainIdentifier_iff {name : String} : isPlainIdentifier name = true ↔
    name.toList ≠ [] ∧ ∀ c ∈ name.toList, isWordChar c = true := by
  simp [isPlainIdentifier, isWordChar]

theorem isPlain_of_validate (h : c.validate = .ok ()) : (Schema.ofConfig c).IsPlain := by
  obtain ⟨htable, halias⟩ := validate_eq_ok_iff.mp h
  exact ⟨(isPlainIdentifier_iff.mp htable).2, isPlainIdentifier_iff.mp halias⟩

/-- Case does not decide whether an identifier is plain. -/
theorem isPlainIdentifier_of_sameName {a b : String} (h : SameName a.toList b.toList)
    (hb : isPlainIdentifier b = true) : isPlainIdentifier a = true := by
  obtain ⟨hne, hword⟩ := isPlainIdentifier_iff.mp hb
  refine isPlainIdentifier_iff.mpr ⟨fun hnil => ?_, fun c hc => ?_⟩
  · rw [SameName, hnil, List.map_nil, eq_comm, List.map_eq_nil_iff] at h
    exact hne h
  · have hmem : c.toLower ∈ b.toList.map Char.toLower := h ▸ List.mem_map_of_mem hc
    obtain ⟨d, hd, he⟩ := List.mem_map.mp hmem
    rw [← isWordChar_toLower, ← he, isWordChar_toLower]
    exact hword d hd

/-- All names that are taken would pass as an alias. -/
theorem isPlainIdentifier_of_isTaken {name : String} (h : isTaken name = true) :
    isPlainIdentifier name = true := by
  rcases exists_of_isTaken h with h | ⟨j, -, h⟩
  · exact isPlainIdentifier_of_sameName h (by decide)
  · obtain ⟨s, hs, hword⟩ := Join.exists_name j
    refine isPlainIdentifier_of_sameName h (isPlainIdentifier_iff.mpr ?_)
    rw [hs]
    exact ⟨List.cons_ne_nil _ _, hword⟩

/-- With a configuration that is accepted, the joins and the order of a search read the entries just if
no name that they give to a table is the alias of the entries. It is known which names can be given, and
each of them is accepted as the alias of the entries all the same. -/
theorem origins_eq_replicate_iff_of_validate (h : c.validate = .ok ()) :
    (∀ js o, (Schema.ofConfig c).origins js o =
        List.replicate (introduced js o).length (some .entries) ↔
      ∀ name ∈ introduced js o, ¬ SameName c.entryAlias.toList name.toList) ∧
    (isTaken c.entryAlias = true ↔ ∃ js o, (∀ j ∈ js, j.key < UInt32.size) ∧
      ∃ name ∈ introduced js o, SameName c.entryAlias.toList name.toList) ∧
    ∀ name, isTaken name = true → { c with entryAlias := name }.validate = .ok () := by
  refine ⟨(isPlain_of_validate h).origins_eq_replicate_iff, isTaken_iff, fun name hname => ?_⟩
  exact validate_eq_ok_iff.mpr ⟨(validate_eq_ok_iff.mp h).1, isPlainIdentifier_of_isTaken hname⟩

theorem origins_standard : Config.standard.validate = .ok () ∧
    (Schema.ofConfig .standard).origins [⟨⟨7⟩, 2⟩] (.byValue ⟨7⟩ .ascending) =
      [some .entries, some .entries] := by
  have h : Config.standard.validate = .ok () := by
    rw [validate_eq_ok_iff]
    decide
  refine ⟨h, ((origins_eq_replicate_iff_of_validate h).1 _ _).mpr ?_⟩
  decide

/-- An order by values calls the table of its field `ed`, and reads that for the entries. -/
theorem origins_ed : ∃ c : Config, c.validate = .ok () ∧
    SameName c.entryAlias.toList "ed".toList ∧
    (Schema.ofConfig c).origins [] (.byValue ⟨7⟩ .ascending) =
      [some (.records "tbl_entries_data_7".toList)] :=
  ⟨{ Config.standard with entryAlias := "ed" }, by decide⟩

-- Beside a table of the same alias there are no entries to be read.
example : (Schema.ofConfig { Config.standard with entryAlias := "T7_2" }).origins
    [⟨⟨7⟩, 2⟩] .random = [none] := by
  decide

end Configured

end ComputedField.Sql

import ComputedField.Proofs.Template.Split
import ComputedField.Template.Substitute

/-!
# What is asked and what is filled in

An evaluator that keeps a record of its queries shows both: the text that comes out of a template, with
one answer for each placeholder, and the queries in the order in which they are asked.
-/

namespace ComputedField.Template

open Text

/-- An evaluator that answers by a function and writes down what it is asked. -/
def recording (f : String → Option String) : Ask (StateM (List String)) := fun query => do
  modify (· ++ [query])
  return f query

variable (f : String → Option String)

/-- The text for a query, empty without an answer. -/
def answer (query : String) : String := trimmed ((f query).getD "")

def queryOf (root : String) (inner : List Char) : String := "string(" ++ pathOf root inner ++ ")"

/-- What a placeholder gives way to. -/
def valueOf (root : String) (inner : List Char) : List Char :=
  (answer f (queryOf root inner)).toList

/-- The queries for a template whose placeholders have these insides: one for the root, and one for each
different inside, in the order in which they appear. -/
def queriesOf (root : String) : List (List Char) → List String
  | [] => []
  | inners => "name(/*)" :: inners.eraseDups.map (queryOf root)

theorem askTrimmed_recording (query : String) (log : List String) :
    askTrimmed (recording f) query log = (answer f query, log ++ [query]) := rfl

/-- Each inside is asked for once, in its turn. -/
theorem resolveAll_recording (root : String) (inners : List (List Char)) (log : List String) :
    resolveAll (recording f) root inners log =
      (inners.map fun inner => (inner, answer f (queryOf root inner)),
        log ++ inners.map (queryOf root)) := by
  induction inners generalizing log with
  | nil =>
    rw [List.map_nil, List.map_nil, List.append_nil]
    rfl
  | cons inner rest ih =>
    have hrest := ih (log ++ [queryOf root inner])
    rw [List.append_assoc, List.singleton_append] at hrest
    change (let (others, log) := resolveAll (recording f) root rest (log ++ [queryOf root inner])
      ((inner, answer f (queryOf root inner)) :: others, log)) = _
    rw [hrest]
    rfl

/-- Each text is found under the inside that it belongs to. -/
theorem lookup_map {α β : Type} [BEq α] [LawfulBEq α] (g : α → β) {a : α} {keys : List α}
    (h : a ∈ keys) : (keys.map fun key => (key, g key)).lookup a = some (g a) := by
  induction keys with
  | nil => cases h
  | cons key rest ih =>
    by_cases hkey : a = key
    · rw [hkey, List.map_cons, List.lookup_cons_self]
    · have hrest := (List.mem_cons.mp h).resolve_left hkey
      rw [List.map_cons, List.lookup_cons, beq_false_of_ne hkey]
      exact ih hrest

/-- The inside of a placeholder. -/
def Piece.inner? : Piece → Option (List Char)
  | .plain _ => none
  | .placeholder inner => some inner

theorem filterMap_inner?_pieces (s : Split) : s.pieces.filterMap Piece.inner? = s.inners := by
  have hplain : ∀ text : List Char, (text.map Piece.plain).filterMap Piece.inner? = [] := by
    intro text
    rw [List.filterMap_map]
    exact List.filterMap_eq_nil_iff.mpr fun c _ => rfl
  have hspan : ∀ span : List Char × List Char,
      (Piece.placeholder span.1 :: span.2.map .plain).filterMap Piece.inner? = [span.1] := by
    intro span
    rw [List.filterMap_cons, hplain]
    rfl
  rw [Split.pieces, List.filterMap_append, hplain, List.nil_append, List.filterMap_flatMap]
  rw [Split.inners, List.map_eq_flatMap, funext hspan]

theorem distinctInners_pieces (s : Split) : distinctInners s.pieces = s.inners.eraseDups :=
  congrArg List.eraseDups (filterMap_inner?_pieces s)

/-- Every placeholder gives way to the text for its inside. -/
theorem flatMap_fill_pieces (s : Split) (texts : List (List Char × String)) (value : List Char → String)
    (h : ∀ inner ∈ s.inners, texts.lookup inner = some (value inner)) :
    s.pieces.flatMap (·.fill texts) = s.filled fun inner => (value inner).toList := by
  have hplain : ∀ text : List Char, (text.map Piece.plain).flatMap (·.fill texts) = text := by
    intro text
    rw [List.flatMap_map]
    exact List.flatMap_singleton' text
  have hspans : ∀ span ∈ s.spans, (Piece.placeholder span.1 :: span.2.map .plain).flatMap (·.fill texts) =
      (value span.1).toList ++ span.2 := by
    intro span hspan
    have hlookup := h span.1 (List.mem_map_of_mem hspan)
    rw [List.flatMap_cons, hplain, Piece.fill, hlookup, Option.getD_some]
  rw [Split.pieces, Split.filled, List.flatMap_append, hplain, List.flatMap_assoc]
  rw [List.flatMap_def, List.flatMap_def, List.map_congr_left hspans]

/-- Every text is cut at its placeholders in one way. Filled in are the answers, and asked is once for
each. -/
theorem substitute_recording (template : String) :
    ∃ s : Split, s.IsOf template.toList ∧ (∀ other : Split, other.IsOf template.toList → other = s) ∧
      substitute (recording f) template [] =
        (String.ofList (s.filled (valueOf f (answer f "name(/*)"))),
          queriesOf (answer f "name(/*)") s.inners) := by
  have hs := isOf_splitOf template.toList
  refine ⟨splitOf (pieces template.toList), hs, fun other => eq_splitOf_of_isOf, ?_⟩
  have hpieces := pieces_splitOf (pieces template.toList)
  generalize splitOf (pieces template.toList) = s at hs hpieces
  rw [substitute, ← hpieces, distinctInners_pieces]
  generalize hroot : answer f "name(/*)" = root
  cases hinners : s.inners with
  | nil =>
    have hspans : s.spans = [] := List.map_eq_nil_iff.mp hinners
    have htext : s.filled (valueOf f root) = template.toList := by
      rw [← hs.1, Split.filled, Split.text, hspans]
      rfl
    rw [htext, String.ofList_toList]
    rfl
  | cons inner rest =>
    have hfill := flatMap_fill_pieces s _ _ fun inner hinner =>
      lookup_map (fun inner => answer f (queryOf root inner)) (List.mem_eraseDups.mpr hinner)
    have htexts := resolveAll_recording f root s.inners.eraseDups ["name(/*)"]
    rw [hinners, List.eraseDups_cons] at hfill htexts
    rw [List.eraseDups_cons]
    simp only [rootName, bind, StateT.bind, askTrimmed_recording, hroot, List.nil_append, htexts, hfill,
      queriesOf, List.eraseDups_cons]
    rfl

end ComputedField.Template

import Mathlib.Data.List.Infix
import ComputedField.Proofs.Sql.Text
import ComputedField.Sql.Condition

/-!
# What a written pattern finds

How a server matches a text against a pattern, and that the pattern of a condition finds just the
texts in which the wanted one stands where it should. The pattern is escaped twice, for the wildcards
and for the quotes; reading the literal undoes the one, matching the other.
-/

namespace ComputedField.Sql

open ComputedField.Filter

/-- Whether a text begins with such a character and the others are as they should be. -/
def matchesNext (accepts : Char → Bool) (others : List Char → Bool) : List Char → Bool
  | [] => false
  | c :: rest => accepts c && others rest

/-- Whether a text matches a pattern: `%` stands for any characters, `_` for any single one, and a
character behind a backslash for itself. -/
def matchesPattern : List Char → List Char → Bool
  | [] => List.isEmpty
  | '%' :: p => fun s => s.tails.any (matchesPattern p)
  | '_' :: p => matchesNext (fun _ => true) (matchesPattern p)
  | '\\' :: c :: p => matchesNext (· == c) (matchesPattern p)
  | c :: p => matchesNext (· == c) (matchesPattern p)

section Matching

variable {p s : List Char}

theorem matchesNext_beq (c : Char) (others : List Char → Bool) :
    matchesNext (· == c) others s = true ↔ ∃ rest, s = c :: rest ∧ others rest = true := by
  cases s with
  | nil => simp [matchesNext]
  | cons d rest => simp [matchesNext]

theorem matchesPattern_nil : matchesPattern [] s = true ↔ s = [] := by
  rw [matchesPattern, List.isEmpty_iff]

theorem matchesPattern_percent :
    matchesPattern ('%' :: p) s = true ↔ ∃ rest, rest <:+ s ∧ matchesPattern p rest = true := by
  simp [matchesPattern]

/-- Any text matches a single `%`. -/
theorem matchesPattern_percent_nil : matchesPattern ['%'] s = true :=
  matchesPattern_percent.mpr ⟨[], List.nil_suffix, matchesPattern_nil.mpr rfl⟩

/-- An escaped character matches itself and nothing else. -/
theorem matchesPattern_escapeLikeChar (c : Char) :
    matchesPattern (escapeLikeChar c ++ p) = matchesNext (· == c) (matchesPattern p) := by
  unfold escapeLikeChar
  split
  · rfl
  · rename_i hc
    simp only [not_or] at hc
    obtain ⟨hslash, hpercent, hunderscore⟩ := hc
    -- A character that is not escaped is no wildcard and no backslash.
    rw [List.singleton_append, matchesPattern]
    · exact hpercent
    · exact hunderscore
    · intro d tail hd
      exact absurd hd hslash

/-- An escaped text matches itself, in front of what the rest of the pattern matches. -/
theorem matchesPattern_escapeLike (text : List Char) :
    matchesPattern (escapeLike text ++ p) s = true ↔
      ∃ rest, s = text ++ rest ∧ matchesPattern p rest = true := by
  induction text generalizing s with
  | nil => simp [escapeLike]
  | cons c text ih =>
    have hcons : escapeLike (c :: text) ++ p = escapeLikeChar c ++ (escapeLike text ++ p) := by
      simp [escapeLike]
    rw [hcons, matchesPattern_escapeLikeChar, matchesNext_beq]
    constructor
    · rintro ⟨tail, rfl, htail⟩
      obtain ⟨rest, rfl, hrest⟩ := ih.mp htail
      exact ⟨rest, rfl, hrest⟩
    · rintro ⟨rest, rfl, hrest⟩
      exact ⟨text ++ rest, rfl, ih.mpr ⟨rest, rfl, hrest⟩⟩

end Matching

/-- Whether `s` holds a text where `kind` says. -/
def IsFound (kind : MatchKind) (text s : List Char) : Prop :=
  match kind with
  | .startsWith => text <+: s
  | .endsWith => text <:+ s
  | .contains => text <:+: s

/-- The wildcards around an escaped text say where it may stand. -/
theorem matchesPattern_likePattern (kind : MatchKind) (text s : List Char) :
    matchesPattern (likePattern kind text) s = true ↔ IsFound kind text s := by
  have hwhole : ∀ t, matchesPattern (escapeLike text) t = true ↔ t = text := by
    intro t
    have h := matchesPattern_escapeLike (p := []) (s := t) text
    simpa [matchesPattern_nil] using h
  have hfront : ∀ t, matchesPattern (escapeLike text ++ ['%']) t = true ↔ text <+: t := by
    intro t
    rw [matchesPattern_escapeLike]
    constructor
    · rintro ⟨rest, rfl, -⟩
      exact List.prefix_append text rest
    · rintro ⟨rest, rfl⟩
      exact ⟨rest, rfl, matchesPattern_percent_nil⟩
  cases kind with
  | startsWith => exact hfront s
  | endsWith =>
    change matchesPattern ('%' :: escapeLike text) s = true ↔ text <:+ s
    rw [matchesPattern_percent]
    simp [hwhole]
  | contains =>
    change matchesPattern ('%' :: (escapeLike text ++ ['%'])) s = true ↔ text <:+: s
    rw [matchesPattern_percent]
    simp only [hfront]
    rw [List.infix_iff_prefix_suffix]
    exact exists_congr fun rest => and_comm

/-- The literal of a written `LIKE` is read as a pattern that matches just the texts which begin with,
end with or contain the text that was given. -/
theorem matchesPattern_written (column : ColumnRef) (kind : MatchKind) (text : String) :
    ∃ body pattern,
      (writeCondition (.like column kind text)).toList =
        column.name.toList ++ " LIKE '".toList ++ body ∧
      readText body = some (pattern, []) ∧
      ∀ s, matchesPattern pattern s = true ↔ IsFound kind text.toList s := by
  have hread : readText (escapeLiteral (likePattern kind text.toList) ++ ['\'']) =
      some (likePattern kind text.toList, []) := readText_escapeLiteral _ (by simp)
  have hwritten : (writeCondition (.like column kind text)).toList =
      column.name.toList ++ " LIKE '".toList ++
        (escapeLiteral (likePattern kind text.toList) ++ ['\'']) := by
    rw [writeCondition, String.toList_ofList]
    change column.name.toList ++ " LIKE ".toList ++ quoted (likePattern kind text.toList) = _
    simp [quoted]
  exact ⟨_, _, hwritten, hread, matchesPattern_likePattern kind text.toList⟩

/-- A backslash at the end of the text does not reach the wildcard behind it. -/
example : matchesPattern (likePattern .startsWith ['%', '\\']) ['%', '\\', 'a'] = true ∧
    matchesPattern (likePattern .startsWith ['%', '\\']) ['a', '\\', '%'] = false := by decide

end ComputedField.Sql

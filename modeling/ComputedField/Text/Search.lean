/-!
# Finding one text in another

The first occurrence of a pattern splits a text in two; containment, beginnings and ends follow the
same convention that the empty pattern occurs at once.
-/

namespace ComputedField.Text

/-- What stands before and after the first occurrence of `pattern`. -/
def splitOnce? (pattern : List Char) : List Char → Option (List Char × List Char)
  | [] => if pattern.isEmpty then some ([], []) else none
  | c :: rest =>
    if pattern.isPrefixOf (c :: rest) then some ([], (c :: rest).drop pattern.length)
    else (splitOnce? pattern rest).map fun (before, after) => (c :: before, after)

def occursIn (pattern s : List Char) : Bool := (splitOnce? pattern s).isSome

/-- What follows `start`, if the text begins with it. -/
def stripPrefix? (start s : List Char) : Option (List Char) :=
  if start.isPrefixOf s then some (s.drop start.length) else none

theorem splitOnce?_eq_some {pattern s before after : List Char}
    (h : splitOnce? pattern s = some (before, after)) : s = before ++ pattern ++ after := by
  induction s generalizing before after with
  | nil =>
    simp only [splitOnce?] at h
    split at h <;> simp_all
  | cons c rest ih =>
    simp only [splitOnce?] at h
    split at h
    · rename_i hp
      obtain ⟨tail, ht⟩ := List.isPrefixOf_iff_prefix.mp hp
      simp only [Option.some.injEq, Prod.mk.injEq] at h
      obtain ⟨rfl, rfl⟩ := h
      simp [← ht]
    · obtain ⟨⟨b, a⟩, hb, heq⟩ := Option.map_eq_some_iff.mp h
      simp only [Prod.mk.injEq] at heq
      obtain ⟨rfl, rfl⟩ := heq
      simp [ih hb]

end ComputedField.Text

import ComputedField.Markup.Content
import ComputedField.Markup.Reference
import ComputedField.Markup.Token

/-!
# The inside of a start tag

A start tag holds the name, up to the first blank, and then attributes. A repeated name is noticed
before its value is read.
-/

namespace ComputedField.Markup

def tagName (tag : List Char) : List Char := tag.takeWhile (!isSpace ·)

def attributeText (tag : List Char) : List Char := tag.dropWhile (!isSpace ·)

def endsName (c : Char) : Bool := c == '=' || isSpace c

/-- The quoted value that begins the text after an equals sign, and what follows it. -/
def quotedValue (s : List Char) : Except AttributeFault (List Char × List Char) :=
  match s.dropWhile isSpace with
  | [] => .error .valueExpected
  | q :: rest =>
    if isQuote q then
      match rest.dropWhile (· != q) with
      | [] => .error .quoteExpected
      | _ :: after => .ok (rest.takeWhile (· != q), after)
    else .error .unquotedValue

theorem length_quotedValue {s value after : List Char} (h : quotedValue s = .ok (value, after)) :
    after.length ≤ s.length := by
  have hs := length_dropWhile_le isSpace s
  simp only [quotedValue] at h
  split at h
  · simp at h
  · rename_i q rest hq
    split at h
    · split at h
      · simp at h
      · rename_i c a ha
        simp only [Except.ok.injEq, Prod.mk.injEq] at h
        obtain ⟨-, rfl⟩ := h
        have hr := length_dropWhile_le (· != q) rest
        rw [ha] at hr
        rw [hq] at hs
        simp only [List.length_cons] at hr hs
        omega
    · simp at h

/-- Reads attributes to the end of a tag; `seen` are the names met before. -/
def readAttributes (seen : List String) (s : List Char) : Except Error (List Attribute) :=
  match hs : s.dropWhile isSpace with
  | [] => .ok []
  | c :: rest =>
    let name := String.ofList (c :: rest.takeWhile (!endsName ·))
    match hr : (rest.dropWhile (!endsName ·)).dropWhile isSpace with
    | '=' :: text =>
      if name ∈ seen then .error (.attribute .duplicated)
      else
        match hv : quotedValue text with
        | .error fault => .error (.attribute fault)
        | .ok (raw, after) =>
          match unescape? raw with
          | none => .error .attributeValue
          | some value =>
            have : after.length < s.length := by
              have h1 := length_dropWhile_le isSpace s
              have h2 := length_dropWhile_le isSpace (rest.dropWhile (!endsName ·))
              have h3 := length_dropWhile_le (!endsName ·) rest
              have h4 := length_quotedValue hv
              rw [hs] at h1
              rw [hr] at h2
              simp only [List.length_cons] at h1 h2
              omega
            (readAttributes (name :: seen) after).map (⟨name, String.ofList value⟩ :: ·)
    | _ => .error (.attribute .equalsExpected)
termination_by s.length

def attributesOf (tag : List Char) : Except Error (List Attribute) :=
  readAttributes [] (attributeText tag)

end ComputedField.Markup

import ComputedField.Markup.Error
import ComputedField.Text.AnyCase
import ComputedField.Text.Search

/-!
# Pieces of markup

A document text is cut into tags, references, character data and runs of plain text. Comments,
instructions, declarations and the document type are recognised and leave nothing behind. Cutting
stops at the first fault; `tokens` gives the pieces before it.
-/

namespace ComputedField.Markup

open Text

/-- The blanks that separate the parts of a tag. -/
def isSpace (c : Char) : Bool := c == ' ' || c == '\t' || c == '\r' || c == '\n'

inductive Token where
  | text (s : List Char)
  | reference (name : List Char)
  | startTag (tag : List Char)
  | emptyTag (tag : List Char)
  | endTag (name : List Char)
  /-- What contributes neither text nor structure. -/
  | aside
  deriving DecidableEq, Repr

def isQuote (c : Char) : Bool := c == '\'' || c == '"'

/-- The quote that is open after `c`, given the one that was open before it. -/
def nextQuote (quote : Option Char) (c : Char) : Option Char :=
  match quote with
  | none => if isQuote c then some c else none
  | some q => if c = q then none else some q

/-- The tag up to the first `>` outside quotes, and what follows it. -/
def scanTag : Option Char → List Char → Except MarkupFault (List Char × List Char)
  | none, [] => .error .openTag
  | some q, [] => .error (if q = '\'' then .openSingleQuote else .openDoubleQuote)
  | quote, c :: rest =>
    if c = '>' ∧ quote = none then .ok ([], rest)
    else (scanTag (nextQuote quote c) rest).map fun (tag, after) => (c :: tag, after)

/-- A start tag that ends in a slash closes its own element. -/
def openingTag (tag : List Char) : Token :=
  if tag.getLast? = some '/' then .emptyTag tag.dropLast else .startTag tag

/-- The name in an end tag, without the blanks behind it; a name of blanks alone stays whole. -/
def closingTag (tag : List Char) : Token :=
  match tag.reverse.dropWhile isSpace with
  | [] => .endTag tag
  | last :: before => .endTag (last :: before).reverse

/-- Reads an instruction from its question mark on. -/
def scanInstruction (s : List Char) : Except MarkupFault (Token × List Char) :=
  let declares :=
    match stripPrefix? "?xml".toList s with
    | some [] => true
    | some (c :: _) => isSpace c || c == '?'
    | none => false
  match splitOnce? "?>".toList s with
  | some (_ :: _, after) => .ok (.aside, after)
  | _ => .error (if declares then .openDeclaration else .openInstruction)

/-- Where in a document type a character stands. -/
inductive DoctypePlace where
  | name (quote : Option Char)
  | subset
  | comment
  | instruction
  | literals (quote : Option Char)
  | plainMarkup
  | afterSubset

/-- The declarations that hold literals, each by what follows its `<`. -/
def literalDeclarations : List String := ["!ATTLIST", "!ENTITY", "!NOTATION"]

def holdsLiterals (s : List Char) : Bool :=
  literalDeclarations.any fun keyword => (stripPrefix? keyword.toList s).isSome

/-- What follows a document type; its subset may hold comments, instructions, declarations and other
markup, in which brackets count for nothing. A declaration with literals ends at the first `>`
outside quotes, other markup at the first `>` of all. -/
def skipDoctype : DoctypePlace → List Char → Option (List Char)
  | _, [] => none
  | .name quote, c :: rest =>
    if c = '>' ∧ quote = none then some rest
    else if c = '[' ∧ quote = none then skipDoctype .subset rest
    else skipDoctype (.name (nextQuote quote c)) rest
  | .subset, ']' :: rest => skipDoctype .afterSubset rest
  | .subset, '<' :: '!' :: '-' :: '-' :: rest => skipDoctype .comment rest
  | .subset, '<' :: '?' :: rest => skipDoctype .instruction rest
  | .subset, '<' :: rest =>
    skipDoctype (if holdsLiterals rest then .literals none else .plainMarkup) rest
  | .subset, _ :: rest => skipDoctype .subset rest
  | .comment, '-' :: '-' :: '>' :: rest => skipDoctype .subset rest
  | .comment, _ :: rest => skipDoctype .comment rest
  | .instruction, '?' :: '>' :: rest => skipDoctype .subset rest
  | .instruction, _ :: rest => skipDoctype .instruction rest
  | .literals quote, c :: rest =>
    if c = '>' ∧ quote = none then skipDoctype .subset rest
    else skipDoctype (.literals (nextQuote quote c)) rest
  | .plainMarkup, '>' :: rest => skipDoctype .subset rest
  | .plainMarkup, _ :: rest => skipDoctype .plainMarkup rest
  | .afterSubset, '>' :: rest => some rest
  | .afterSubset, _ :: rest => skipDoctype .afterSubset rest

def scanDoctype (s : List Char) : Except MarkupFault (Token × List Char) :=
  if startsInAnyCase "doctype".toList s then
    let body := s.drop 7
    match skipDoctype (.name none) body with
    | none => .error .openDoctype
    | some after =>
      if (body.dropWhile isSpace).head? = some '>' then .error .namelessDoctype
      else .ok (.aside, after)
  else .error .openDoctype

def scanComment (s : List Char) : Except MarkupFault (Token × List Char) :=
  match (stripPrefix? "--".toList s).bind (splitOnce? "-->".toList) with
  | some (_, after) => .ok (.aside, after)
  | none => .error .openComment

def scanCharacterData (s : List Char) : Except MarkupFault (Token × List Char) :=
  match (stripPrefix? "[CDATA[".toList s).bind (splitOnce? "]]>".toList) with
  | some (content, after) => .ok (.text content, after)
  | none => .error .openCharacterData

/-- Reads what a `<` begins. -/
def scanMarkup : List Char → Except MarkupFault (Token × List Char)
  | '/' :: rest => (scanTag none rest).map fun (tag, after) => (closingTag tag, after)
  | '?' :: rest => scanInstruction ('?' :: rest)
  | '!' :: rest =>
    match rest with
    | '[' :: _ => scanCharacterData rest
    | '-' :: _ => scanComment rest
    | 'D' :: _ | 'd' :: _ => scanDoctype rest
    | _ => .error .unknownDeclaration
  | s => (scanTag none s).map fun (tag, after) => (openingTag tag, after)

/-- The name between `&` and `;`. -/
def scanReference : List Char → Except MarkupFault (List Char × List Char)
  | [] => .error .openReference
  | c :: rest =>
    if c = ';' then .ok ([], rest)
    else if c = '&' ∨ c = '<' then .error .openReference
    else (scanReference rest).map fun (name, after) => (c :: name, after)

def isPlain (c : Char) : Bool := c != '<' && c != '&'

/-- The piece that begins with `c`, and what follows it. -/
def scan (c : Char) (rest : List Char) : Except MarkupFault (Token × List Char) :=
  if c = '<' then scanMarkup rest
  else if c = '&' then (scanReference rest).map fun (name, after) => (.reference name, after)
  else .ok (.text (c :: rest.takeWhile isPlain), rest.dropWhile isPlain)

theorem length_dropWhile_le (p : Char → Bool) (s : List Char) :
    (s.dropWhile p).length ≤ s.length :=
  (List.dropWhile_suffix p).length_le

theorem length_scanTag {quote : Option Char} {s tag after : List Char}
    (h : scanTag quote s = .ok (tag, after)) : after.length ≤ s.length := by
  induction s generalizing quote tag with
  | nil => cases quote <;> simp [scanTag] at h
  | cons c rest ih =>
    rw [scanTag.eq_3] at h
    split at h
    · cases h
      simp
    · cases hr : scanTag (nextQuote quote c) rest with
      | error e => simp [hr, Except.map] at h
      | ok r =>
        obtain ⟨t, a⟩ := r
        simp only [hr, Except.map, Except.ok.injEq, Prod.mk.injEq] at h
        obtain ⟨-, rfl⟩ := h
        exact Nat.le_succ_of_le (ih hr)

theorem length_splitOnce? {pattern s before after : List Char}
    (h : splitOnce? pattern s = some (before, after)) : after.length ≤ s.length := by
  have := splitOnce?_eq_some h
  subst this
  simp only [List.length_append]
  omega

theorem length_stripPrefix? {start s rest : List Char} (h : stripPrefix? start s = some rest) :
    rest.length ≤ s.length := by
  simp only [stripPrefix?] at h
  split at h
  · cases h
    simp
  · simp at h

theorem length_skipDoctype {place : DoctypePlace} {s after : List Char}
    (h : skipDoctype place s = some after) : after.length ≤ s.length := by
  fun_induction skipDoctype place s <;> simp_all <;> omega

theorem length_scanDoctype {s after : List Char} {t : Token} (h : scanDoctype s = .ok (t, after)) :
    after.length ≤ s.length := by
  simp only [scanDoctype] at h
  split at h
  · split at h
    · simp at h
    · rename_i hs
      split at h
      · simp at h
      · simp only [Except.ok.injEq, Prod.mk.injEq] at h
        obtain ⟨-, rfl⟩ := h
        exact Nat.le_trans (length_skipDoctype hs) (by simp)
  · simp at h

theorem length_scanReference {s name after : List Char}
    (h : scanReference s = .ok (name, after)) : after.length ≤ s.length := by
  induction s generalizing name with
  | nil => simp [scanReference] at h
  | cons c rest ih =>
    simp only [scanReference] at h
    split at h
    · cases h
      simp
    · split at h
      · simp at h
      · cases hr : scanReference rest with
        | error e => simp [hr, Except.map] at h
        | ok r =>
          obtain ⟨n, a⟩ := r
          simp only [hr, Except.map, Except.ok.injEq, Prod.mk.injEq] at h
          obtain ⟨-, rfl⟩ := h
          exact Nat.le_succ_of_le (ih hr)

theorem length_scanMarkup {s after : List Char} {t : Token} (h : scanMarkup s = .ok (t, after)) :
    after.length ≤ s.length := by
  have tag : ∀ {u : List Char} {f : List Char → Token},
      (scanTag none u).map (fun (x, a) => (f x, a)) = .ok (t, after) → after.length ≤ u.length := by
    intro u f hu
    cases hs : scanTag none u with
    | error e => simp [hs, Except.map] at hu
    | ok r =>
      simp only [hs, Except.map, Except.ok.injEq, Prod.mk.injEq] at hu
      obtain ⟨-, rfl⟩ := hu
      exact length_scanTag hs
  unfold scanMarkup at h
  split at h
  · exact Nat.le_succ_of_le (tag h)
  · simp only [scanInstruction] at h
    split at h
    · rename_i hs
      simp only [Except.ok.injEq, Prod.mk.injEq] at h
      obtain ⟨-, rfl⟩ := h
      exact length_splitOnce? hs
    · simp at h
  · refine Nat.le_succ_of_le ?_
    split at h
    · simp only [scanCharacterData] at h
      split at h
      · rename_i hs
        simp only [Except.ok.injEq, Prod.mk.injEq] at h
        obtain ⟨-, rfl⟩ := h
        obtain ⟨r, hr, ha⟩ := Option.bind_eq_some_iff.mp hs
        exact Nat.le_trans (length_splitOnce? ha) (length_stripPrefix? hr)
      · simp at h
    · simp only [scanComment] at h
      split at h
      · rename_i hs
        simp only [Except.ok.injEq, Prod.mk.injEq] at h
        obtain ⟨-, rfl⟩ := h
        obtain ⟨r, hr, ha⟩ := Option.bind_eq_some_iff.mp hs
        exact Nat.le_trans (length_splitOnce? ha) (length_stripPrefix? hr)
      · simp at h
    · exact length_scanDoctype h
    · exact length_scanDoctype h
    · simp at h
  · exact tag h

theorem length_scan {c : Char} {rest after : List Char} {t : Token}
    (h : scan c rest = .ok (t, after)) : after.length ≤ rest.length := by
  simp only [scan] at h
  split at h
  · exact length_scanMarkup h
  · split at h
    · cases hs : scanReference rest with
      | error e => simp [hs, Except.map] at h
      | ok r =>
        simp only [hs, Except.map, Except.ok.injEq, Prod.mk.injEq] at h
        obtain ⟨-, rfl⟩ := h
        exact length_scanReference hs
    · simp only [Except.ok.injEq, Prod.mk.injEq] at h
      obtain ⟨-, rfl⟩ := h
      exact length_dropWhile_le isPlain rest

/-- The pieces of a text up to its end or to the first fault. -/
def tokens : List Char → List Token × Option MarkupFault
  | [] => ([], none)
  | c :: rest =>
    match h : scan c rest with
    | .error fault => ([], some fault)
    | .ok (t, after) =>
      have := length_scan h
      let (others, fault) := tokens after
      (t :: others, fault)
termination_by s => s.length

end ComputedField.Markup

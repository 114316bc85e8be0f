import ComputedField.Proofs.Query.Anchoring
import ComputedField.Proofs.Query.Axes
import ComputedField.Proofs.Text.Ascii

/-!
# Elements of a name

Two slashes and a name ask for all elements of that name, wherever they stand. No name made of ASCII
letters, digits and the usual marks is mistaken for an operator or a test behind the slashes.
-/

namespace ComputedField.Query

open Markup (Document NodeId NodeKind)
open Text

def beginsPlainName (c : Char) : Bool := c.isAlpha || c == '_'

def continuesPlainName (c : Char) : Bool := c.isAlphanum || c == '_' || c == '-' || c == '.'

/-- Whether a text is a letter or underscore with letters, digits, underscores, dashes and points
behind it, all of them ASCII characters. -/
def isPlainName (name : String) : Bool :=
  match name.toList with
  | [] => false
  | c :: rest => beginsPlainName c && rest.all continuesPlainName

section Scanning

variable {c : Char} {s : List Char}

theorem continuesName_of_plain (h : continuesPlainName c = true) : continuesName c = true := by
  simp only [continuesPlainName, Bool.or_eq_true] at h
  simp only [continuesName, Bool.or_eq_true]
  refine h.imp_left (Or.imp_left (Or.imp_left fun halpha => ?_))
  have hc : c.toNat < 0x80 := Nat.lt_trans (toNat_of_isAlphanum halpha) (by decide)
  simpa [isLetterOrNumber, isLetter_ascii hc, isNumber_ascii hc, Char.isAlphanum] using halpha

theorem beginsName_of_plain (h : beginsPlainName c = true) : beginsName c = true := by
  simp only [beginsPlainName, Bool.or_eq_true] at h
  simp only [beginsName, Bool.or_eq_true]
  refine h.imp_left fun halpha => ?_
  have hc : c.toNat < 0x80 := Nat.lt_trans (toNat_of_isAlpha halpha).2 (by decide)
  rwa [isLetter_ascii hc]

theorem isBlank_of_plain (h : beginsPlainName c = true) : isBlank c = false := by
  have hc : 0x41 ≤ c.toNat ∧ c.toNat < 0x7B := by
    rcases Bool.or_eq_true_iff.mp h with halpha | hline
    · exact toNat_of_isAlpha halpha
    · rw [beq_iff_eq.mp hline]
      decide
  simp [isBlank]
  omega

theorem scanName_plain (h : s.all continuesPlainName = true) : scanName s = (s, []) := by
  induction s with
  | nil => rfl
  | cons c rest ih =>
    rw [List.all_cons, Bool.and_eq_true] at h
    rw [scanName, continuesName_of_plain h.1, ih h.2]
    rfl

/-- Where no operator may stand, the whole text is one name, though it may spell an operator. -/
theorem scanToken_plain (hc : beginsPlainName c = true) (hs : s.all continuesPlainName = true) :
    scanToken false c s = .ok (.name (String.ofList (c :: s)), []) := by
  unfold scanToken
  split
  · rename_i t ht
    unfold singleToken? at ht
    split at ht <;> first | cases hc | cases ht
  · split
    case h_9 =>
      have hquote : ¬ (c = '"' ∨ c = '\'') := by rintro (rfl | rfl) <;> cases hc
      have hdigit : c.isDigit = false := by
        rcases Bool.or_eq_true_iff.mp hc with halpha | hline
        · exact isDigit_of_isAlpha halpha
        · rw [beq_iff_eq.mp hline]
          rfl
      rw [if_neg hquote, hdigit, if_neg Bool.false_ne_true, if_pos (beginsName_of_plain hc),
        scanName_plain hs]
      rfl
    all_goals cases hc

/-- A name behind two slashes is a name, though it may spell an operator. -/
theorem tokenize_anywhere {name : String} (h : isPlainName name = true) :
    tokenize ("//" ++ name) = .ok [.doubleSlash, .name name] := by
  rw [tokenize_eq_ok_iff, String.toList_append]
  cases hname : name.toList with
  | nil => simp [isPlainName, hname] at h
  | cons c s =>
    simp only [isPlainName, hname, Bool.and_eq_true] at h
    have hscan : scanToken ((none : Option Token).any (!·.expectsOperand)) c s =
        .ok (.name name, []) := by
      rw [← String.ofList_toList (s := name), hname]
      exact scanToken_plain h.1 h.2
    change tokensAfter none ('/' :: '/' :: c :: s) = _
    rw [tokensAfter_slash_slash, tokensAfter_cons (isBlank_of_plain h.1) hscan, tokensAfter]
    rfl

end Scanning

section Reading

variable {name : String}

theorem ofTokens_anywhere (name : String) : Expr.ofTokens [.doubleSlash, .name name] =
    .ok (.path true [.anywhereBelow, .mk .child (.name name) []]) := by
  cbv

/-- Behind a double slash every plain name is a test, whatever else it may be elsewhere. -/
theorem parse_anywhere (h : isPlainName name = true) :
    Expr.parse ("//" ++ name) = .ok (.path true [.anywhereBelow, .mk .child (.name name) []]) := by
  rw [parse_of_tokenize (tokenize_anywhere h), ofTokens_anywhere]

end Reading

section Walking

variable {d : Document}

/-- A step without predicates cannot fail. -/
theorem walk_cons_plain (axis : Axis) (test : NodeTest) (steps : List Step) (ns : List NodeId) :
    walk d (.mk axis test [] :: steps) ns =
      walk d steps
        (documentOrder (ns.flatMap fun n => (axis.nodes d n).filter (test.holds d axis))) := by
  exact bind_of_ok (gather_of_ok fun _ _ => rfl) rfl

theorem holds_name_iff {name : String} {n : NodeId} : (NodeTest.name name).holds d .child n = true ↔
    d.kind? n = some .element ∧ d.name n = name := by
  simp [NodeTest.holds, Axis.principal]

/-- A step down from everywhere leads to all nodes but the root and attributes. -/
theorem walk_everywhere (wf : d.WellFormed) (test : NodeTest) :
    walk d [.anywhereBelow, .mk .child test []] [Document.root] =
      .ok ((List.range d.size).filter fun n =>
        n ≠ Document.root ∧ d.kind? n ≠ some .attribute ∧ test.holds d .child n) := by
  rw [Step.anywhereBelow, walk_cons_plain, walk_cons_plain, walk]
  refine congrArg Except.ok (eq_of_ascending (ascending_documentOrder _) ?_ fun m => ?_)
  · exact List.pairwise_lt_range.filter _
  · simp only [mem_documentOrder, List.mem_flatMap, List.mem_filter, List.mem_singleton,
      mem_nodes_iff wf, Axis.Reaches, List.mem_range, decide_eq_true_eq]
    constructor
    · rintro ⟨p, -, ⟨hkind, hparent⟩, htest⟩
      have hne : m ≠ Document.root := Nat.ne_of_gt (Nat.zero_lt_of_lt (lt_of_parent? wf hparent))
      exact ⟨lt_size_of_parent? hparent, hne, hkind, htest⟩
    · rintro ⟨hlt, hne, hkind, htest⟩
      obtain ⟨p, hp, hparent, -⟩ := wf.parent m (Nat.pos_of_ne_zero hne) hlt
      refine ⟨p, ⟨_, rfl, ?_, rfl⟩, ⟨hkind, hparent⟩, htest⟩
      rcases Nat.eq_zero_or_pos p with hroot | hpos
      · exact .inl hroot
      · exact .inr ⟨(not_leaf_of_parent? wf hparent).1, encloses_root wf hpos (Nat.lt_trans hp hlt)⟩

end Walking

/-- Two slashes and a plain name select the elements of that name from a document, in document order. -/
theorem evaluate_anywhere {text : String} {d : Document} (hd : Document.parse text = .ok d)
    {name : String} (hname : isPlainName name = true) :
    evaluate d ("//" ++ name) = .ok (.nodes ((List.range d.size).filter fun n =>
      d.kind? n = some .element ∧ d.name n = name)) := by
  have wf := Markup.wellFormed_of_parse hd
  have hwalk := walk_everywhere wf (.name name)
  rw [evaluate, parse_anywhere hname]
  change (walk d [.anywhereBelow, .mk .child (.name name) []] [Document.root]).map Value.nodes = _
  rw [hwalk]
  refine congrArg (fun ns => Except.ok (Value.nodes ns)) (List.filter_congr fun n _ => ?_)
  rw [decide_eq_decide, holds_name_iff]
  constructor
  · rintro ⟨-, -, h⟩
    exact h
  · rintro ⟨hkind, h⟩
    refine ⟨?_, by simp [hkind], hkind, h⟩
    rintro rfl
    simp [wf.root.1] at hkind

/-- Elements of a name that spells an operator, one of them inside the other, and an attribute of that
name. -/
theorem evaluate_anywhere_div :
    ∃ d, Document.parse "<div div='1'><mod/><div/></div>" = .ok d ∧ isPlainName "div" = true ∧
      evaluate d "//div" = .ok (.nodes [1, 4]) := by
  have hd : Document.parse "<div div='1'><mod/><div/></div>" = .ok (.ofContent [.element "div"
      [⟨"div", "1"⟩] [.element "mod" [] [], .element "div" [] []]]) := by
    decide +kernel
  have hname : isPlainName "div" = true := by decide +kernel
  refine ⟨_, hd, hname, (evaluate_anywhere hd hname).trans ?_⟩
  decide +kernel

end ComputedField.Query

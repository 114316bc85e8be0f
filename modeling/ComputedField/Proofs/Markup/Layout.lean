import Mathlib.Data.List.Count
import Mathlib.Data.List.Nodup
import Mathlib.Logic.Relation
import ComputedField.Proofs.Markup.StringValue
import ComputedField.Proofs.Markup.Tidy

/-!
# Layout of a document

In a document that has been read, every node but the root stands in one of the two lists of a parent
with a smaller number, lists ascend, and an element fills an unbroken stretch of numbers with all that
belongs to it. `Placed` says what a node may be; each of these facts is read off it.
-/

namespace ComputedField.Markup

open Text

/-- Whether `n` is `top` or stands somewhere below it. -/
def Document.Within (d : Document) (top n : NodeId) : Prop :=
  Relation.ReflTransGen (fun m p => d.parent? m = some p) n top

/-- The document is a root that holds the content, with all nodes numbered in order. -/
structure Document.Holds (d : Document) (content : List Content) : Prop where
  root : d.node? Document.root = some ⟨.root, "", "", none, d.children Document.root, []⟩
  content : NumberedAll d Document.root 1 content (d.children Document.root) d.size

theorem holds_ofContent (content : List Content) : (Document.ofContent content).Holds content := by
  have hroot : (Document.ofContent content).node? Document.root =
      some ⟨.root, "", "", none, numbers 1 content, []⟩ := by
    simp [Document.node?, Document.ofContent, Document.root]
  have hchildren := children_of_node hroot
  constructor
  · rw [hchildren, hroot]
  · rw [hchildren]
    exact numberedAll_ofContent content

variable {d : Document}

def Content.kind : Content → NodeKind
  | .text _ => .text
  | .element .. => .element

theorem parent?_of_node {n : NodeId} {node : Node} (h : d.node? n = some node) :
    d.parent? n = node.parent := by
  simp [Document.parent?, h]

section Numbered

variable {parent first next n : Nat} {c : Content} {content : List Content} {ids : List Nat}
  {attributes : List Attribute}

theorem exists_attributeNode
    (owned : ∀ i a, attributes[i]? = some a → d.node? (first + 1 + i) = some (attributeNode first a))
    (hn : first < n) (hlt : n < first + 1 + attributes.length) :
    ∃ a, d.node? n = some (attributeNode first a) := by
  obtain ⟨i, rfl⟩ := Nat.exists_eq_add_of_le hn
  exact ⟨_, owned i _ (List.getElem?_eq_getElem (by omega))⟩

theorem Numbered.parent? (h : Numbered d parent first c next) : d.parent? first = some parent := by
  cases h with
  | text node => exact parent?_of_node node
  | element node owned inside => exact parent?_of_node node

theorem Numbered.kind? (h : Numbered d parent first c next) : d.kind? first = some c.kind := by
  cases h with
  | text node => exact kind?_of_node node
  | element node owned inside => exact kind?_of_node node

/-- Neighbours have their numbers within the stretch that they fill. -/
theorem NumberedAll.bounds (h : NumberedAll d parent first content ids next) (hn : n ∈ ids) :
    first ≤ n ∧ n < next := by
  induction content generalizing first ids with
  | nil =>
    cases h
    cases hn
  | cons c rest ih =>
    cases h with
    | cons head tail =>
      have := head.lt
      have := tail.le
      rcases List.mem_cons.mp hn with rfl | hn
      · omega
      · have := ih tail hn
        omega

/-- Neighbours are numbered in their order. -/
theorem NumberedAll.pairwise (h : NumberedAll d parent first content ids next) :
    ids.Pairwise (· < ·) := by
  induction content generalizing first ids with
  | nil =>
    cases h
    exact .nil
  | cons c rest ih =>
    cases h with
    | cons head tail =>
      refine .cons (fun n hn => ?_) (ih tail)
      have := head.lt
      have := tail.bounds hn
      omega

/-- Each of the neighbours is a piece of content of its own. -/
theorem NumberedAll.exists_numbered (h : NumberedAll d parent first content ids next)
    (hn : n ∈ ids) : ∃ c last, Numbered d parent n c last := by
  induction content generalizing first ids with
  | nil =>
    cases h
    cases hn
  | cons c rest ih =>
    cases h with
    | cons head tail =>
      rcases List.mem_cons.mp hn with rfl | hn
      · exact ⟨_, _, head⟩
      · exact ih tail hn

theorem NumberedAll.kinds (h : NumberedAll d parent first content ids next) :
    ids.map d.kind? = content.map fun c => some c.kind := by
  induction content generalizing first ids with
  | nil =>
    cases h
    rfl
  | cons c rest ih =>
    cases h with
    | cons head tail => rw [List.map_cons, List.map_cons, head.kind?, ih tail]

/-- The texts among neighbours are apart by their numbers if they are in the content. -/
theorem NumberedAll.isChain (h : NumberedAll d parent first content ids next)
    (apart : textsApart content = true) :
    ids.IsChain fun m n => ¬ (d.kind? m = some .text ∧ d.kind? n = some .text) := by
  have hcontent : (content.map fun c => some c.kind).IsChain
      fun k l => ¬ (k = some NodeKind.text ∧ l = some NodeKind.text) := by
    rw [List.isChain_map]
    refine (textsApart_iff.mp apart).imp fun c e hce hkinds => hce ?_
    cases c <;> cases e <;> simp_all [Content.kind, Content.isText]
  rwa [← h.kinds, List.isChain_map] at hcontent

end Numbered

mutual

/-- Whatever has a number within the stretch of a node stands below it. -/
theorem Numbered.within {parent first next n : Nat} {c : Content}
    (h : Numbered d parent first c next) (hn : first ≤ n) (hlt : n < next) : d.Within first n := by
  cases h with
  | text node =>
    have he : n = first := by omega
    rw [he]
    exact .refl
  | @element _ _ _ _ attributes _ _ node owned inside =>
    rcases Nat.eq_or_lt_of_le hn with rfl | hlater
    · exact .refl
    · by_cases hattribute : n < first + 1 + attributes.length
      · obtain ⟨a, ha⟩ := exists_attributeNode owned hlater hattribute
        exact .single (parent?_of_node ha)
      · exact inside.within (by omega) hlt

theorem NumberedAll.within {parent first next n : Nat} {content : List Content} {ids : List Nat}
    (h : NumberedAll d parent first content ids next) (hn : first ≤ n) (hlt : n < next) :
    d.Within parent n := by
  cases h with
  | nil => omega
  | @cons _ _ middle _ _ _ _ head tail =>
    by_cases hhead : n < middle
    · exact (head.within hn hhead).tail head.parent?
    · exact tail.within (by omega) hlt

end

/-- What a node may be that has a number below `bound`, as has all that stands below it. -/
inductive Placed (d : Document) (bound n : Nat) : Prop where
  | content {parent next : Nat} {c : Content} (numbered : Numbered d parent n c next)
      (tidy : c.Tidy) (listed : n ∈ d.children parent) (after : parent < n) (inside : next ≤ bound)
  | owned {owner : Nat} {a : Attribute} (node : d.node? n = some (attributeNode owner a))
      (listed : n ∈ d.attributes owner) (after : owner < n) (inside : n < bound)

theorem Placed.mono {bound limit n : Nat} (h : Placed d bound n) (hle : bound ≤ limit) :
    Placed d limit n := by
  cases h with
  | content numbered tidy listed after inside =>
    exact .content numbered tidy listed after (Nat.le_trans inside hle)
  | owned node listed after inside =>
    exact .owned node listed after (Nat.lt_of_lt_of_le inside hle)

mutual

/-- A node within a tidy piece of content is a piece itself or an attribute, and its parent lists it. -/
theorem Numbered.place {parent first next n : Nat} {c : Content}
    (h : Numbered d parent first c next) (tidy : c.Tidy) (listed : first ∈ d.children parent)
    (after : parent < first) (hn : first ≤ n) (hlt : n < next) : Placed d next n := by
  rcases Nat.eq_or_lt_of_le hn with rfl | hlater
  · exact .content h tidy listed after (Nat.le_refl next)
  · cases h with
    | text node => omega
    | @element _ _ _ _ attributes _ _ node owned inside =>
      by_cases hattribute : n < first + 1 + attributes.length
      · obtain ⟨a, ha⟩ := exists_attributeNode owned hlater hattribute
        refine .owned ha ?_ hlater hlt
        rw [attributes_of_node node, List.mem_range'_1]
        omega
      · -- Below the element its own children are the list that the content stands in.
        refine inside.place tidy.2.2 (fun m hm => ?_) (by omega) (by omega) hlt
        rwa [children_of_node node]

theorem NumberedAll.place {parent first next n : Nat} {content : List Content} {ids : List Nat}
    (h : NumberedAll d parent first content ids next) (tidy : AllTidy content)
    (listed : ∀ m ∈ ids, m ∈ d.children parent) (after : parent < first) (hn : first ≤ n)
    (hlt : n < next) : Placed d next n := by
  cases h with
  | nil => omega
  | @cons _ _ middle _ _ _ _ head tail =>
    have := head.lt
    have hle := tail.le
    by_cases hhead : n < middle
    · exact (head.place tidy.1 (listed first List.mem_cons_self) after hn hhead).mono hle
    · exact tail.place tidy.2 (fun m hm => listed m (List.mem_cons_of_mem _ hm)) (by omega)
        (by omega) hlt

end

inductive Lists (d : Document) (bound n : Nat) : Prop where
  | intro {attributes : List Attribute} {content : List Content} {next : Nat}
      (attributes_eq : d.attributes n = List.range' (n + 1) attributes.length)
      (owned : ∀ i a, attributes[i]? = some a → d.node? (n + 1 + i) = some (attributeNode n a))
      (distinct : (attributes.map (·.name)).Nodup)
      (children : NumberedAll d n (n + 1 + attributes.length) content (d.children n) next)
      (apart : textsApart content = true) (inside : next ≤ bound)

theorem lists_of_nil {bound n : Nat} (hchildren : d.children n = [])
    (hattributes : d.attributes n = []) (hlt : n < bound) : Lists d bound n := by
  have hinside : NumberedAll d n (n + 1) [] (d.children n) (n + 1) := by
    rw [hchildren]
    exact .nil
  exact @Lists.intro d bound n [] [] (n + 1) hattributes (by simp) .nil hinside rfl hlt

/-- What a node lists follows it in the order of the numbers, whichever kind of node it is. -/
theorem Placed.lists {bound n : Nat} (h : Placed d bound n) : Lists d bound n := by
  cases h with
  | content numbered tidy listed after inside =>
    cases numbered with
    | text node => exact lists_of_nil (children_of_node node) (attributes_of_node node) inside
    | element node owned inner =>
      refine .intro (attributes_of_node node) owned tidy.1 ?_ tidy.2.1 inside
      rwa [children_of_node node]
  | owned node listed after inside =>
    exact lists_of_nil (children_of_node node) (attributes_of_node node) inside

namespace Lists

variable {bound n m : Nat}

/-- A child has the node as parent and follows it. -/
theorem of_mem_children (h : Lists d bound n) (hm : m ∈ d.children n) :
    d.parent? m = some n ∧ (d.kind? m = some .element ∨ d.kind? m = some .text) ∧
      n < m ∧ m < bound := by
  obtain ⟨-, -, -, children, -, inside⟩ := h
  obtain ⟨c, last, hc⟩ := children.exists_numbered hm
  have := children.bounds hm
  refine ⟨hc.parent?, ?_, by omega, by omega⟩
  cases c with
  | text value => exact .inr hc.kind?
  | element name attributes content => exact .inl hc.kind?

theorem of_mem_attributes (h : Lists d bound n) (hm : m ∈ d.attributes n) :
    d.parent? m = some n ∧ d.kind? m = some .attribute ∧ n < m ∧ m < bound := by
  obtain ⟨attributes_eq, owned, -, children, -, inside⟩ := h
  rw [attributes_eq, List.mem_range'_1] at hm
  have := children.le
  obtain ⟨a, ha⟩ := exists_attributeNode owned hm.1 hm.2
  exact ⟨parent?_of_node ha, kind?_of_node ha, hm.1, by omega⟩

theorem of_mem (h : Lists d bound n) (hm : m ∈ d.children n ++ d.attributes n) :
    n < m ∧ m < bound := by
  rcases List.mem_append.mp hm with hchild | hattribute
  · exact (h.of_mem_children hchild).2.2
  · exact (h.of_mem_attributes hattribute).2.2

theorem pairwise_children (h : Lists d bound n) : (d.children n).Pairwise (· < ·) := by
  obtain ⟨-, -, -, children, -, -⟩ := h
  exact children.pairwise

theorem pairwise_attributes (h : Lists d bound n) : (d.attributes n).Pairwise (· < ·) := by
  obtain ⟨attributes_eq, -, -, -, -, -⟩ := h
  rw [attributes_eq]
  exact List.pairwise_lt_range'

/-- No two attributes of a node have the same name. -/
theorem names_attributes (h : Lists d bound n) : ((d.attributes n).map d.name).Nodup := by
  obtain ⟨attributes_eq, owned, distinct, -, -, -⟩ := h
  rename_i attributes _ _
  have hnames : (d.attributes n).map d.name = attributes.map (·.name) := by
    rw [attributes_eq]
    refine List.ext_getElem (by simp) fun i hi hi' => ?_
    rw [List.length_map] at hi'
    have hnode := owned i _ (List.getElem?_eq_getElem hi')
    simp [name_of_node hnode, attributeNode]
  rwa [hnames]

/-- No text follows another one among the children. -/
theorem isChain_children (h : Lists d bound n) : (d.children n).IsChain fun m k =>
    ¬ (d.kind? m = some .text ∧ d.kind? k = some .text) := by
  obtain ⟨-, -, -, children, apart, -⟩ := h
  exact children.isChain apart

/-- No number stands in the two lists of a node more than once. -/
theorem nodup (h : Lists d bound n) : (d.children n ++ d.attributes n).Nodup := by
  refine List.nodup_append.mpr ⟨h.pairwise_children.imp Nat.ne_of_lt,
    h.pairwise_attributes.imp Nat.ne_of_lt, ?_⟩
  rintro m hchild k hattribute rfl
  obtain ⟨-, hkind, -, -⟩ := h.of_mem_children hchild
  obtain ⟨-, hkind', -, -⟩ := h.of_mem_attributes hattribute
  simp [hkind'] at hkind

end Lists

namespace Document.Holds

variable {content : List Content} {n : Nat}

theorem placed (h : d.Holds content) (tidy : AllTidy content) (hn : Document.root < n)
    (hlt : n < d.size) : Placed d d.size n :=
  h.content.place tidy (fun _ hm => hm) Nat.one_pos hn hlt

/-- What the root lists follows it, and it has no attributes. -/
theorem lists_root (h : d.Holds content) (single : AtMostOneElement content) :
    Lists d d.size Document.root := by
  have apart : textsApart content = true := by
    rcases single with rfl | ⟨name, attributes, inner, rfl⟩
    · rfl
    · rfl
  exact @Lists.intro d d.size Document.root [] content d.size (attributes_of_node h.root) (by simp)
    .nil h.content apart (Nat.le_refl _)

/-- A node is the root, or it has a place below the root, or there is no such node. -/
theorem cases_node (h : d.Holds content) (tidy : AllTidy content) (n : Nat) :
    n = Document.root ∨ Placed d d.size n ∨ d.node? n = none := by
  rcases Nat.eq_zero_or_pos n with hroot | hpos
  · exact .inl hroot
  · by_cases hlt : n < d.size
    · exact .inr (.inl (h.placed tidy hpos hlt))
    · exact .inr (.inr (Array.getElem?_eq_none (Nat.le_of_not_lt hlt)))

theorem exists_lists (h : d.Holds content) (tidy : AllTidy content)
    (single : AtMostOneElement content) (n : Nat) : ∃ bound, Lists d bound n := by
  rcases h.cases_node tidy n with rfl | hplaced | hnone
  · exact ⟨d.size, h.lists_root single⟩
  · exact ⟨d.size, hplaced.lists⟩
  · refine ⟨n + 1, lists_of_nil ?_ ?_ (Nat.lt_succ_self n)⟩
    · simp [Document.children, hnone]
    · simp [Document.attributes, hnone]

/-- Every node but the root has a parent in front of it. -/
theorem exists_parent (h : d.Holds content) (tidy : AllTidy content) (hn : Document.root < n)
    (hlt : n < d.size) : ∃ p < n, d.parent? n = some p := by
  cases h.placed tidy hn hlt with
  | @content parent _ _ numbered _ _ after _ => exact ⟨parent, after, numbered.parent?⟩
  | @owned owner _ node _ after _ => exact ⟨owner, after, parent?_of_node node⟩

/-- A node is listed by its parent. -/
theorem mem_of_parent? (h : d.Holds content) (tidy : AllTidy content) {p : Nat}
    (hp : d.parent? n = some p) : n ∈ d.children p ++ d.attributes p := by
  rcases h.cases_node tidy n with rfl | hplaced | hnone
  · simp [Document.parent?, h.root] at hp
  · cases hplaced with
    | content numbered tidy listed after inside =>
      cases numbered.parent?.symm.trans hp
      exact List.mem_append_left _ listed
    | owned node listed after inside =>
      cases (parent?_of_node node).symm.trans hp
      exact List.mem_append_right _ listed
  · simp [Document.parent?, hnone] at hp

/-- A leaf has nothing in its lists, and a text is not blank. -/
theorem leaf (h : d.Holds content) (tidy : AllTidy content)
    (hkind : d.kind? n = some .attribute ∨ d.kind? n = some .text) :
    d.children n = [] ∧ d.attributes n = [] ∧
      ∀ value, d.text? n = some value → isAllBlank value = false := by
  rcases h.cases_node tidy n with rfl | hplaced | hnone
  · simp [kind?_of_node h.root] at hkind
  · cases hplaced with
    | content numbered tidy listed after inside =>
      cases numbered with
      | text node =>
        refine ⟨children_of_node node, attributes_of_node node, fun value hvalue => ?_⟩
        rw [text?_of_node node] at hvalue
        cases hvalue
        exact tidy
      | element node owned inner => simp [kind?_of_node node] at hkind
    | owned node listed after inside =>
      refine ⟨children_of_node node, attributes_of_node node, fun value hvalue => ?_⟩
      simp [text?_of_node node, attributeNode] at hvalue
  · simp [Document.kind?, hnone] at hkind

/-- What stands below an element has the numbers from its own to the end of its content. -/
theorem interval (h : d.Holds content) (tidy : AllTidy content) (hkind : d.kind? n = some .element) :
    ∃ next ≤ d.size, ∀ m, d.Within n m ↔ n ≤ m ∧ m < next := by
  rcases h.cases_node tidy n with rfl | hplaced | hnone
  · simp [kind?_of_node h.root] at hkind
  · cases hplaced with
    | @content _ next _ numbered ctidy listed after inside =>
      refine ⟨next, inside, fun m => ⟨fun hwithin => ?_, fun hm => numbered.within hm.1 hm.2⟩⟩
      -- Upwards from `m`: its parent is in the interval, so all that the parent's lists hold is too.
      induction hwithin using Relation.ReflTransGen.head_induction_on with
      | refl => exact ⟨Nat.le_refl n, numbered.lt⟩
      | head hparent _ ih =>
        have hlists := (numbered.place ctidy listed after ih.1 ih.2).lists
        obtain ⟨hlt, hbound⟩ := hlists.of_mem (h.mem_of_parent? tidy hparent)
        exact ⟨Nat.le_trans ih.1 (Nat.le_of_lt hlt), hbound⟩
    | owned node listed after inside =>
      rw [kind?_of_node node] at hkind
      cases hkind
  · simp [Document.kind?, hnone] at hkind

end Document.Holds

/-- The nodes are one tree in document order, and the tree is tidy. -/
structure Document.WellFormed (d : Document) : Prop where
  root : d.kind? Document.root = some .root ∧ d.parent? Document.root = none
  parent : ∀ n, Document.root < n → n < d.size → ∃ p < n, d.parent? n = some p ∧
    (d.children p ++ d.attributes p).count n = 1
  children : ∀ p, ∀ n ∈ d.children p,
    d.parent? n = some p ∧ (d.kind? n = some .element ∨ d.kind? n = some .text)
  attributes : ∀ p, ∀ n ∈ d.attributes p, d.parent? n = some p ∧ d.kind? n = some .attribute
  ascending : ∀ p, (d.children p).Pairwise (· < ·) ∧ (d.attributes p).Pairwise (· < ·)
  attributesFirst : ∀ n, d.kind? n = some .element →
    d.attributes n = List.range' (n + 1) (d.attributes n).length ∧
      ((d.attributes n).map d.name).Nodup
  leaves : ∀ n, d.kind? n = some .attribute ∨ d.kind? n = some .text →
    d.children n = [] ∧ d.attributes n = []
  outermost : d.attributes Document.root = [] ∧ (d.children Document.root = [] ∨
    ∃ e, d.children Document.root = [e] ∧ d.kind? e = some .element)
  texts : ∀ n value, d.text? n = some value → isAllBlank value = false
  textsApart : ∀ p, (d.children p).IsChain fun m n =>
    ¬ (d.kind? m = some .text ∧ d.kind? n = some .text)
  interval : ∀ n, d.kind? n = some .element →
    ∃ next ≤ d.size, ∀ m, d.Within n m ↔ n ≤ m ∧ m < next

/-- All that is asked of a document holds where the numbers follow tidy content. -/
theorem Document.Holds.wellFormed {content : List Content} (h : d.Holds content)
    (tidy : AllTidy content) (single : AtMostOneElement content) : d.WellFormed where
  root := ⟨kind?_of_node h.root, parent?_of_node h.root⟩
  parent n hn hlt := by
    obtain ⟨p, hp, hparent⟩ := h.exists_parent tidy hn hlt
    obtain ⟨bound, hlists⟩ := h.exists_lists tidy single p
    exact ⟨p, hp, hparent,
      List.count_eq_one_of_mem hlists.nodup (h.mem_of_parent? tidy hparent)⟩
  children p n hn := by
    obtain ⟨bound, hlists⟩ := h.exists_lists tidy single p
    obtain ⟨hparent, hkind, -, -⟩ := hlists.of_mem_children hn
    exact ⟨hparent, hkind⟩
  attributes p n hn := by
    obtain ⟨bound, hlists⟩ := h.exists_lists tidy single p
    obtain ⟨hparent, hkind, -, -⟩ := hlists.of_mem_attributes hn
    exact ⟨hparent, hkind⟩
  ascending p := by
    obtain ⟨bound, hlists⟩ := h.exists_lists tidy single p
    exact ⟨hlists.pairwise_children, hlists.pairwise_attributes⟩
  attributesFirst n _ := by
    obtain ⟨bound, hlists⟩ := h.exists_lists tidy single n
    refine ⟨?_, hlists.names_attributes⟩
    obtain ⟨attributes_eq, -, -, -, -, -⟩ := hlists
    rw [attributes_eq, List.length_range']
  leaves n hkind := by
    obtain ⟨hchildren, hattributes, -⟩ := h.leaf tidy hkind
    exact ⟨hchildren, hattributes⟩
  outermost := by
    refine ⟨attributes_of_node h.root, ?_⟩
    have hkinds := h.content.kinds
    rcases single with rfl | ⟨name, attributes, inner, rfl⟩
    · exact .inl (List.map_eq_nil_iff.mp hkinds)
    · obtain ⟨e, he, hkind⟩ := List.map_eq_singleton_iff.mp hkinds
      exact .inr ⟨e, he, hkind⟩
  texts n value hvalue := by
    obtain ⟨-, -, hblank⟩ := h.leaf tidy (.inr (kind?_of_text? hvalue))
    exact hblank value hvalue
  textsApart p := by
    obtain ⟨bound, hlists⟩ := h.exists_lists tidy single p
    exact hlists.isChain_children
  interval n hkind := h.interval tidy hkind

theorem wellFormed_ofContent {content : List Content} (tidy : AllTidy content)
    (single : AtMostOneElement content) : (Document.ofContent content).WellFormed :=
  (holds_ofContent content).wellFormed tidy single

/-- Whatever text it was read from, a document is one tidy tree in document order. -/
theorem wellFormed_of_parse {s : String} (h : Document.parse s = .ok d) : d.WellFormed := by
  obtain ⟨content, hread, rfl⟩ := ok_of_map h
  obtain ⟨tidy, single⟩ := tidy_of_readContent hread
  exact wellFormed_ofContent tidy single

/-- A text that goes on after a comment and is quoted in part, before an empty element and blanks. -/
theorem wellFormed_of_parse_comment_and_quote :
    Document.parse "<a x='1' y='&lt;'>b<!-- c --><![CDATA[<d>]]><e/> </a>" =
        .ok (.ofContent [.element "a" [⟨"x", "1"⟩, ⟨"y", "<"⟩] [.text "b<d>", .element "e" [] []]]) ∧
      (Document.ofContent
        [.element "a" [⟨"x", "1"⟩, ⟨"y", "<"⟩] [.text "b<d>", .element "e" [] []]]).WellFormed := by
  have h : Document.parse "<a x='1' y='&lt;'>b<!-- c --><![CDATA[<d>]]><e/> </a>" =
      .ok (.ofContent [.element "a" [⟨"x", "1"⟩, ⟨"y", "<"⟩] [.text "b<d>", .element "e" [] []]]) := by
    decide +kernel
  exact ⟨h, wellFormed_of_parse h⟩

end ComputedField.Markup

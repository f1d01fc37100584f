import AliasCatalog.Namespace.Fingerprint
import AliasCatalog.Proofs.Naming.Grammar
import AliasCatalog.Proofs.Namespace.Bare

/-!
# The canonical text of a tree

The text that a fingerprint digests can be read back.  It falls apart into its lines, of which one has
a single field, the kind, and the others have three, the last being the declared name if there is one.
So two trees have one canonical text exactly when they are of one kind and declare the same names
(`canonicalText_lines_eq_iff`).
-/

namespace AliasCatalog.Namespace

open Naming

/-! ## From a text to its lines -/

/-- Lines can be read off the text in which each has a line feed after it. -/
theorem splitOn_join_lines {lines : List String} (h : ∀ line ∈ lines, '\n' ∉ line.toList) :
    (String.join (lines.map (· ++ "\n"))).toList.splitOn '\n' = lines.map (·.toList) ++ [[]] := by
  rw [String.toList_join]
  induction lines with
  | nil => rfl
  | cons line rest ih =>
      obtain ⟨hline, hrest⟩ := List.forall_mem_cons.mp h
      have hfirst : (line ++ "\n").toList ++ (rest.map (· ++ "\n")).flatMap String.toList =
          line.toList ++ '\n' :: (rest.map (· ++ "\n")).flatMap String.toList := by
        simp
      rw [List.map_cons, List.flatMap_cons, hfirst, List.splitOn_append_cons_self,
        List.splitOn_eq_singleton hline, ih hrest]
      rfl

/-- Texts of lines that are equal have equal lines, if no line has a line feed in it. -/
theorem eq_of_join_lines_eq {lines others : List String} (h : ∀ line ∈ lines, '\n' ∉ line.toList)
    (hothers : ∀ line ∈ others, '\n' ∉ line.toList)
    (heq : String.join (lines.map (· ++ "\n")) = String.join (others.map (· ++ "\n"))) :
    lines = others := by
  have hsplit := congrArg (fun text : String => text.toList.splitOn '\n') heq
  simp only [splitOn_join_lines h, splitOn_join_lines hothers] at hsplit
  exact (List.map_inj_right fun _ _ => String.toList_inj.mp).mp (List.append_cancel_right hsplit)

/-- Sorting forgets the order in which the lines came, and nothing else. -/
theorem mergeSort_eq_iff {lines others : List String} :
    lines.mergeSort (fun a b => decide (a ≤ b)) = others.mergeSort (fun a b => decide (a ≤ b)) ↔
      lines.Perm others := by
  have hsorted : ∀ texts : List String,
      (texts.mergeSort fun a b => decide (a ≤ b)).Pairwise fun a b => a ≤ b := by
    intro texts
    have hpairwise := @List.pairwise_mergeSort String (fun a b => decide (a ≤ b))
      (by simpa using fun _ _ _ => String.le_trans) (by simpa using String.le_total) texts
    exact hpairwise.imp of_decide_eq_true
  constructor
  · intro heq
    exact (List.mergeSort_perm lines _).symm.trans (heq ▸ List.mergeSort_perm others _)
  · intro hperm
    refine List.Perm.eq_of_pairwise (fun a b _ _ => String.le_antisymm) (hsorted lines)
      (hsorted others) ?_
    exact (List.mergeSort_perm lines _).trans (hperm.trans (List.mergeSort_perm others _).symm)

/-- **A canonical text stands for its lines in any order.** -/
theorem canonicalText_eq_iff {lines others : List String}
    (h : ∀ line ∈ lines, '\n' ∉ line.toList) (hothers : ∀ line ∈ others, '\n' ∉ line.toList) :
    canonicalText lines = canonicalText others ↔ lines.Perm others := by
  rw [← mergeSort_eq_iff]
  constructor
  · exact eq_of_join_lines_eq (by simpa using h) (by simpa using hothers)
  · intro heq
    rw [canonicalText, canonicalText, heq]

/-! ## Characters of names -/

/-- The characters of the text are those of segments, and dots. -/
def IsPlain (text : String) : Prop :=
  ∀ c ∈ text.toList, isSegmentChar c = true ∨ c = '.'

/-- A plain text has no character but dots and those of segments. -/
theorem IsPlain.notMem {text : String} {c : Char} (h : IsPlain text)
    (hc : isSegmentChar c = false) (hdot : c ≠ '.') : c ∉ text.toList := by
  intro hmem
  rcases h c hmem with hsegment | heq
  · rw [hc] at hsegment
    cases hsegment
  · exact hdot heq

/-- Plain parts are plain when joined by dots. -/
theorem isPlain_joinDots {parts : List String}
    (h : ∀ part ∈ parts, ∀ c ∈ part.toList, isSegmentChar c = true) : IsPlain (joinDots parts) := by
  unfold IsPlain joinDots
  rw [String.toList_intercalate]
  induction parts with
  | nil => simp
  | cons part rest ih =>
      obtain ⟨hpart, hrest⟩ := List.forall_mem_cons.mp h
      intro c hc
      cases rest with
      | nil => exact .inl (hpart c (by simpa using hc))
      | cons next others =>
          rw [List.map_cons, List.map_cons, List.intercalate_cons_cons] at hc
          rcases List.mem_append.mp hc with hfirst | hlater
          · rcases List.mem_append.mp hfirst with hfirst | hdot
            · exact .inl (hpart c hfirst)
            · exact .inr (by simpa using hdot)
          · exact ih hrest c hlater

/-- An identifier has the characters of a segment. -/
theorem isSegmentChar_of_mem_identifier (segment : Segment) :
    ∀ c ∈ segment.identifier.text.toList, isSegmentChar c = true := by
  obtain ⟨first, rest, htext, hlower, hrest⟩ := segment.isCamel_identifier
  rw [htext]
  refine List.forall_mem_cons.mpr ⟨?_, fun c hc => ?_⟩
  · simp [isSegmentChar, isAlphanum_of_isLower hlower]
  · simp [isSegmentChar, hrest c hc]

/-- An alias is plain. -/
theorem isPlain_of_accepted {name : String} (h : Accepted name) : IsPlain name := by
  rw [← h.joinDots_segmentsOf]
  apply isPlain_joinDots
  intro part hpart
  obtain ⟨segment, _, rfl⟩ := List.mem_map.mp hpart
  exact segment.isSegmentChar_of_mem

/-- An alias is not empty. -/
theorem ne_empty_of_accepted {name : String} (h : Accepted name) : name ≠ "" := by
  rw [← h.joinDots_segmentsOf]
  exact joinDots_ne_empty h.segmentsOf_ne_nil

/-! ## Lines and their fields -/

/-- The fields of a line, between its bars. -/
def fields (line : String) : List String :=
  (line.toList.splitOn '|').map String.ofList

/-- The kind that a line of one field states. -/
def kindOfLine? (line : String) : Option String :=
  match fields line with
  | [text] => some text
  | _ => none

/-- The name that a line of three fields declares. -/
def nameOfLine? (line : String) : Option String :=
  match fields line with
  | [_, _, declared] => if declared.isEmpty then none else some declared
  | _ => none

def kindLine (kind : Kind) : String :=
  s!"kind={kind.name}"

/-- The line of a kind has one field, so it is no line of a node. -/
theorem fields_kindLine (kind : Kind) : fields (kindLine kind) = [kindLine kind] := by
  cases kind <;> decide +kernel

namespace Node

variable {node : Node}

/-- The identifiers of a node with dots between them. -/
def dotted (node : Node) : String :=
  joinDots (node.identifiers.map (·.text))

/-- The name that a node declares, empty if there is none. -/
def declaredName (node : Node) : String :=
  (node.leaf.map (·.name)).getD ""

/-- The line of a node has three fields with a bar between any two. -/
theorem toList_line (node : Node) :
    node.line.toList = node.dotted.toList ++ '|' :: (node.shape.name.toList ++
      '|' :: node.declaredName.toList) := by
  have hline : node.line =
      node.dotted ++ "|" ++ node.shape.name ++ "|" ++ node.declaredName := rfl
  rw [hline]
  simp

theorem isPlain_dotted (node : Node) : IsPlain node.dotted := by
  apply isPlain_joinDots
  intro part hpart
  obtain ⟨identifier, hidentifier, rfl⟩ := List.mem_map.mp hpart
  obtain ⟨segment, _, rfl⟩ := List.mem_map.mp hidentifier
  exact isSegmentChar_of_mem_identifier segment

theorem isPlain_shape (shape : Shape) : IsPlain shape.name := by
  cases shape <;> simp [IsPlain, Shape.name] <;> decide

variable (h : ∀ d, node.leaf = some d → Accepted d.name)
include h

/-- The declared name of a node is plain, be it empty. -/
theorem isPlain_declaredName : IsPlain node.declaredName := by
  unfold declaredName
  cases hleaf : node.leaf with
  | none => simp [IsPlain]
  | some d => exact isPlain_of_accepted (h d hleaf)

/-- The fields are read back from the line of a node. -/
theorem fields_line : fields node.line = [node.dotted, node.shape.name, node.declaredName] := by
  have hbar : ∀ {text : String}, IsPlain text → '|' ∉ text.toList :=
    fun hplain => hplain.notMem (by decide) (by decide)
  rw [fields, toList_line, List.splitOn_append_cons_self, List.splitOn_append_cons_self,
    List.splitOn_eq_singleton (hbar (isPlain_dotted node)),
    List.splitOn_eq_singleton (hbar (isPlain_shape node.shape)),
    List.splitOn_eq_singleton (hbar (isPlain_declaredName h))]
  simp

/-- The line of a node has no line feed in it. -/
theorem lineFeed_notMem_line : '\n' ∉ node.line.toList := by
  have hfeed : ∀ {text : String}, IsPlain text → '\n' ∉ text.toList :=
    fun hplain => hplain.notMem (by decide) (by decide)
  rw [toList_line]
  simp [hfeed (isPlain_dotted node), hfeed (isPlain_shape node.shape), hfeed (isPlain_declaredName h)]

/-- The declared name is read back from the line of a node. -/
theorem nameOfLine?_line : nameOfLine? node.line = node.leaf.map (·.name) := by
  rw [nameOfLine?, fields_line h]
  unfold declaredName
  cases hleaf : node.leaf with
  | none => rfl
  | some d => simp [ne_empty_of_accepted (h d hleaf)]

end Node

/-! ## From the lines to the names -/

namespace Tree

variable {kind : Kind} {declarations : List Declaration} {tree : Tree}

/-- What the nodes of a built tree hold has an accepted alias. -/
theorem accepted_of_ofDeclarations (h : ofDeclarations kind declarations = .ok tree) :
    ∀ node ∈ tree.nodes, ∀ d, node.leaf = some d → Accepted d.name := by
  intro node hnode d hleaf
  have hd := (((represents_of_ofDeclarations h).2.leaf_iff hnode).mp hleaf).1
  exact (admissible_of_ofDeclarations h).1.accepted d hd

/-- No line of a built tree has a line feed in it. -/
theorem lineFeed_notMem_lines (h : ofDeclarations kind declarations = .ok tree) :
    ∀ line ∈ tree.lines, '\n' ∉ line.toList := by
  intro line hline
  rcases List.mem_cons.mp hline with rfl | hline
  · show '\n' ∉ (kindLine tree.kind).toList
    cases tree.kind <;> decide +kernel
  · obtain ⟨node, hnode, rfl⟩ := List.mem_map.mp hline
    exact Node.lineFeed_notMem_line (accepted_of_ofDeclarations h node hnode)

/-- The lines state the kind once. -/
theorem filterMap_kindOfLine? (h : ofDeclarations kind declarations = .ok tree) :
    tree.lines.filterMap kindOfLine? = [kindLine kind] := by
  have hkind : kindOfLine? (kindLine tree.kind) = some (kindLine kind) := by
    rw [kindOfLine?, fields_kindLine, (represents_of_ofDeclarations h).1]
  have hnodes : (tree.nodes.map (·.line)).filterMap kindOfLine? = [] := by
    rw [List.filterMap_map, List.filterMap_eq_nil_iff]
    intro node hnode
    rw [Function.comp_apply, kindOfLine?, Node.fields_line (accepted_of_ofDeclarations h node hnode)]
  have hlines : tree.lines = kindLine tree.kind :: tree.nodes.map (·.line) := rfl
  rw [hlines, List.filterMap_cons_some hkind, hnodes]

/-- The lines list the declared names. -/
theorem filterMap_nameOfLine? (h : ofDeclarations kind declarations = .ok tree) :
    tree.lines.filterMap nameOfLine? = tree.declarations.map (·.name) := by
  have hkind : nameOfLine? (kindLine tree.kind) = none := by
    rw [nameOfLine?, fields_kindLine]
  have hlines : tree.lines = kindLine tree.kind :: tree.nodes.map (·.line) := rfl
  rw [hlines, List.filterMap_cons_none hkind, List.filterMap_map, ← filterMap_leaf_nodes,
    List.map_filterMap]
  exact List.filterMap_congr fun node hnode =>
    Node.nameOfLine?_line (accepted_of_ofDeclarations h node hnode)

variable {kind' : Kind} {others : List Declaration} {other : Tree}

/-- **Trees with the same lines are of one kind and declare the same names.** -/
theorem same_names_of_perm (h : ofDeclarations kind declarations = .ok tree)
    (hother : ofDeclarations kind' others = .ok other) (hperm : tree.lines.Perm other.lines) :
    kind = kind' ∧ SameNames declarations others := by
  constructor
  · have hkinds := hperm.filterMap kindOfLine?
    rw [filterMap_kindOfLine? h, filterMap_kindOfLine? hother, List.singleton_perm_singleton]
      at hkinds
    revert hkinds
    cases kind <;> cases kind' <;> decide
  · have hnames := hperm.filterMap nameOfLine?
    rw [filterMap_nameOfLine? h, filterMap_nameOfLine? hother] at hnames
    have hdeclared := ((represents_of_ofDeclarations h).2.perm_declarations.map (·.name)).symm.trans
      (hnames.trans ((represents_of_ofDeclarations hother).2.perm_declarations.map (·.name)))
    intro name
    rw [← List.mem_map, ← List.mem_map, hdeclared.mem_iff]

/-! ## From the names to the text -/

/-- A line says of a declaration its name only. -/
theorem lines_bare (tree : Tree) : tree.bare.lines = tree.lines := by
  have hline : ∀ node ∈ tree.nodes, ((·.line) ∘ Node.bare) node = node.line := by
    intro node _
    have hleaf : node.bare.leaf.map (·.name) = node.leaf.map (·.name) := by
      cases hcase : node.leaf <;> simp [Node.bare, hcase, Declaration.bare, Declaration.bundle]
    rw [Function.comp_apply, Node.line, Node.line, Node.shape_bare, hleaf]
    rfl
  have hlines : tree.bare.lines = kindLine tree.kind :: tree.bare.nodes.map (·.line) := rfl
  rw [hlines, nodes_bare, List.map_map, List.map_congr_left hline]
  rfl

/-- **The canonical text identifies the declared names.** -/
theorem canonicalText_lines_eq_iff (h : ofDeclarations kind declarations = .ok tree)
    (hother : ofDeclarations kind' others = .ok other) :
    canonicalText tree.lines = canonicalText other.lines ↔
      kind = kind' ∧ SameNames declarations others := by
  rw [canonicalText_eq_iff (lineFeed_notMem_lines h) (lineFeed_notMem_lines hother)]
  constructor
  · exact same_names_of_perm h hother
  · intro hgiven
    obtain ⟨rfl, hnames⟩ := hgiven
    rw [← lines_bare tree, ← lines_bare other, bare_eq_of_same_names h hother hnames]

end Tree

end AliasCatalog.Namespace

import Mathlib.Data.List.Lex
import AliasCatalog.Proofs.Namespace.Mirror

/-!
# Collision reports

The identifiers of a forest are allocated one set of siblings after the other, and the first set in
which two siblings share a key ends the build with a report.  There may be many such sets, with many
spellings of one key in each, but the report can be read off the declared names
(`canonicalReport_of_ofDeclarations`): a node comes before the nodes below it and later siblings come
before earlier ones, and in the first set with a collision the report is on the least part that repeats a
key, together with the least part that has this key.  The same names have one such report
(`CanonicalReport.unique`).
-/

namespace AliasCatalog.Naming

/-- Two segments of a list with one key: the second is the least of all that have a smaller one with
their key, and the first is the least with that key. -/
structure LeastClash (segments : List Segment) (first second : Segment) : Prop where
  first_mem : first ∈ segments
  second_mem : second ∈ segments
  text_lt : first.text < second.text
  key_eq : first.key = second.key
  second_least : ∀ s ∈ segments, ∀ t ∈ segments, t.text < s.text → t.key = s.key →
    second.text ≤ s.text
  first_least : ∀ s ∈ segments, s.key = first.key → first.text ≤ s.text

/-- A text before another is not after it. -/
theorem text_le_of_lt {text other : String} (h : text < other) : text ≤ other :=
  String.not_lt.mp fun hge => String.lt_irrefl _ (String.lt_trans h hge)

/-- In text order the first segment that repeats a key makes the least clash: no smaller segment repeats a
key, since those before it all have different ones. -/
theorem leastClash_of_sorted {before after : List Segment} {first second : Segment}
    (hsorted : (before ++ second :: after).Pairwise fun a b => a.text < b.text)
    (hnodup : (before.map (·.key)).Nodup) (hfirst : first ∈ before)
    (hkey : first.key = second.key) : LeastClash (before ++ second :: after) first second := by
  obtain ⟨_, hrest, hcross⟩ := List.pairwise_append.mp hsorted
  have hlt : first.text < second.text := hcross first hfirst second List.mem_cons_self
  have hge : ∀ s ∈ second :: after, second.text ≤ s.text := by
    intro s hs
    rcases List.mem_cons.mp hs with rfl | hlater
    · exact String.le_refl _
    · exact text_le_of_lt ((List.pairwise_cons.mp hrest).1 s hlater)
  refine ⟨List.mem_append_left _ hfirst, by simp, hlt, hkey, ?_, ?_⟩
  · intro s hs t ht htext hsame
    rcases List.mem_append.mp hs with hbefore | hlater
    · rcases List.mem_append.mp ht with hbefore' | hlater'
      · rw [List.inj_on_of_nodup_map hnodup hbefore' hbefore hsame] at htext
        exact absurd htext (String.lt_irrefl _)
      · exact absurd (String.lt_trans htext (hcross s hbefore t hlater')) (String.lt_irrefl _)
    · exact hge s hlater
  · intro s hs hsame
    rcases List.mem_append.mp hs with hbefore | hlater
    · obtain rfl := List.inj_on_of_nodup_map hnodup hbefore hfirst hsame
      exact String.le_refl _
    · exact String.le_trans (text_le_of_lt hlt) (hge s hlater)

/-- **Segments in text order that share a key are reported by their least clash.** -/
theorem Allocator.allocateAll_of_sorted {segments : List Segment}
    (hsorted : segments.Pairwise fun a b => a.text < b.text)
    (h : ¬ (segments.map (·.key)).Nodup) (kind : Kind) (parent : String) :
    ∃ first second, LeastClash segments first second ∧
      (start kind parent).allocateAll (segments.map (·.text)) =
        .error (.collision kind parent first.text second.text second.identifier) := by
  obtain ⟨second, before, after, rfl, hnodup, hrepeat⟩ := exists_isFirstRepeat h
  obtain ⟨first, hfirst, hkey⟩ := List.mem_map.mp hrepeat
  have hleast := leastClash_of_sorted hsorted hnodup hfirst hkey
  refine ⟨first, second, hleast, ?_⟩
  rw [allocateAll_eq_error hnodup hfirst hkey, clash, if_pos (text_le_of_lt hleast.text_lt)]
  rfl

end AliasCatalog.Naming

namespace AliasCatalog.Namespace

open Naming

/-! ## The order of the visits -/

/-- A path of parts is visited before those that go on from it, and where two paths part the one with
the greater part is visited first. -/
def VisitedBefore (parts others : List String) : Prop :=
  List.Lex (fun part other => other < part) parts others

/-- A path is not visited before its own fronts. -/
theorem not_visitedBefore_of_prefix {parts front : List String} (h : front <+: parts) :
    ¬ VisitedBefore parts front := by
  obtain ⟨more, rfl⟩ := h
  intro hbefore
  induction front with
  | nil => cases hbefore
  | cons part front ih =>
      cases hbefore with
      | rel hlt => exact String.lt_irrefl _ hlt
      | cons hrest => exact ih hrest

/-- Of two paths at most one is visited before the other. -/
theorem VisitedBefore.asymm {parts others : List String} (h : VisitedBefore parts others) :
    ¬ VisitedBefore others parts := by
  induction h with
  | nil => exact fun hback => nomatch hback
  | rel hlt =>
      intro hback
      cases hback with
      | rel hgt => exact String.lt_irrefl _ (String.lt_trans hlt hgt)
      | cons => exact String.lt_irrefl _ hlt
  | cons _ ih =>
      intro hback
      cases hback with
      | rel hlt => exact String.lt_irrefl _ hlt
      | cons hrest => exact ih hrest

/-- The nodes of a forest in the order in which the identifiers of their children are allocated: later
siblings first, and a node before those below it. -/
def visits (path : List Segment) : Forest Entry → List Node
  | .nil => []
  | .cons entry children siblings =>
      visits path siblings ++
        .below path entry children :: visits (path ++ [entry.segment]) children

/-- The visits to a whole forest start at the root above it. -/
def allVisits (forest : Forest Entry) : List Node :=
  ⟨[], none, forest⟩ :: visits [] forest

/-- Allocates the identifiers of the children of a node. -/
def checkNode (kind : Kind) (node : Node) : Except NamingError Unit :=
  checkSiblings kind node.path node.children

variable {forest : Forest Entry} {path : List Segment} {node : Node} {kind : Kind}

/-- Each node of a forest is visited once. -/
theorem visits_perm (path : List Segment) (forest : Forest Entry) :
    (visits path forest).Perm (preorder path forest) := by
  induction forest generalizing path with
  | nil => exact .refl _
  | cons entry children siblings below beside =>
      refine List.perm_append_comm.trans ?_
      exact ((below _).append (beside _)).cons _

/-- **Allocation visits the nodes in their order**, up to the first that is refused. -/
theorem checkBelow_eq_forM (path : List Segment) (forest : Forest Entry) :
    checkBelow kind path forest = (visits path forest).forM (checkNode kind) := by
  induction forest generalizing path with
  | nil => rfl
  | cons entry children siblings below beside =>
      have happend := @List.forM_append (Except NamingError) _ _ _ (visits path siblings)
        (.below path entry children :: visits (path ++ [entry.segment]) children) (checkNode kind)
      rw [checkBelow, beside, below]
      exact happend.symm

/-- To finish a forest is to check its nodes as they are visited and then to sort it. -/
theorem Tree.finish_eq_bind (kind : Kind) (forest : Forest Entry) :
    finish kind forest =
      ((allVisits forest).forM (checkNode kind)).bind fun _ => .ok ⟨kind, sortByKey forest⟩ := by
  have hroot : checkSiblings kind [] forest = checkNode kind ⟨[], none, forest⟩ := rfl
  rw [finish, checkBelow_eq_forM, hroot]
  show _ = Except.bind (checkNode kind ⟨[], none, forest⟩ >>= fun _ => _) _
  cases checkNode kind ⟨[], none, forest⟩ <;> rfl

/-- A visited node goes on from the path with the segment of a root. -/
theorem exists_root_of_mem_visits (h : node ∈ visits path forest) :
    ∃ entry ∈ forest.roots, ∃ rest, node.parts =
      path.map (·.text) ++ entry.segment.text :: rest := by
  obtain ⟨entry, hentry, rest, hpath⟩ :=
    exists_root_of_mem_preorder ((visits_perm path forest).mem_iff.mp h)
  exact ⟨entry, hentry, rest.map (·.text), by rw [Node.parts, hpath, List.map_append]; rfl⟩

/-- **The visits run through the nodes in their order.** -/
theorem pairwise_visits (hord : forest.Ordered Entry.TextBefore) :
    (visits path forest).Pairwise fun a b => VisitedBefore a.parts b.parts := by
  induction forest generalizing path with
  | nil => exact .nil
  | cons entry children siblings below beside =>
      have hparts : (Node.below path entry children).parts =
          path.map (·.text) ++ [entry.segment.text] := by
        simp [Node.parts, Node.below]
      rw [visits, List.pairwise_append, List.pairwise_cons]
      refine ⟨beside hord.2.2, ⟨?_, below hord.2.1⟩, ?_⟩
      · intro node hnode
        obtain ⟨root, _, rest, hnode⟩ := exists_root_of_mem_visits hnode
        rw [hparts, hnode, List.map_append, List.append_assoc]
        exact .append_left _ (.cons .nil) _
      · intro node hnode other hother
        obtain ⟨root, hroot, rest, hnode⟩ := exists_root_of_mem_visits hnode
        obtain ⟨more, hother⟩ : ∃ more, other.parts =
            path.map (·.text) ++ entry.segment.text :: more := by
          rcases List.mem_cons.mp hother with rfl | hother
          · exact ⟨[], hparts⟩
          · obtain ⟨inner, _, more, hother⟩ := exists_root_of_mem_visits hother
            exact ⟨inner.segment.text :: more, by simpa using hother⟩
        rw [hnode, hother]
        have hlt : entry.segment.text < root.segment.text := hord.1 root hroot
        exact List.Lex.append_left (fun part other => other < part) (.rel hlt) _

/-- The nodes are visited in the order of visits. -/
theorem pairwise_allVisits (hord : forest.Ordered Entry.TextBefore) :
    (allVisits forest).Pairwise fun a b => VisitedBefore a.parts b.parts := by
  refine List.pairwise_cons.mpr ⟨fun node hnode => ?_, pairwise_visits hord⟩
  obtain ⟨root, _, rest, hparts⟩ := exists_root_of_mem_visits hnode
  rw [hparts]
  exact .nil

/-! ## Parts of names -/

/-- Some declared name goes on with the part right after the given ones. -/
def NextPart (declarations : List Declaration) (parts : List String) (part : String) : Prop :=
  ∃ d ∈ declarations, ∃ rest, splitDots d.name = parts ++ part :: rest

/-- Two different parts with one key come right after the given ones. -/
def Collides (declarations : List Declaration) (parts : List String) : Prop :=
  ∃ a b, NextPart declarations parts a ∧ NextPart declarations parts b ∧ a ≠ b ∧ key? a = key? b

/-- The place of a collision as it is printed. -/
def place : List String → String
  | [] => "<root>"
  | parts => joinDots parts

section Gathers

variable {declarations : List Declaration} {parts : List String} {part : String}

/-- What comes next after the parts of a visited node are the segments of its children. -/
theorem nextPart_iff (hgathers : Gathers forest (declarations.map located))
    (haccepted : ∀ d ∈ declarations, Accepted d.name) (hnode : node ∈ allVisits forest) :
    NextPart declarations node.parts part ↔
      part ∈ (node.children.roots.map (·.segment)).map (·.text) := by
  have hdist := hgathers.ordered.imp fun _ _ => Entry.TextBefore.distinct
  obtain ⟨hground, hholds⟩ : Grounded node.children ∧ ∀ segment rest d,
      (segment :: rest, d) ∈ declared node.children ↔
        (node.path ++ segment :: rest, d) ∈ declared forest := by
    rcases List.mem_cons.mp hnode with rfl | hvisited
    · exact ⟨hgathers.grounded, fun _ _ _ => Iff.rfl⟩
    · obtain ⟨way, _, hpath, _, hground, hholds, _⟩ :=
        declared_of_mem_preorder (fun _ _ => id) hdist hgathers.grounded
          ((visits_perm [] forest).mem_iff.mp hvisited)
      refine ⟨hground, fun segment rest d => ?_⟩
      rw [hpath, List.nil_append, ← hholds, Node.declared, mem_declaredFrom]
      simp
  have hmem : ∀ path d, (path, d) ∈ declared forest ↔ d ∈ declarations ∧ segmentsOf d.name = path := by
    intro path d
    rw [hgathers.declared.mem_iff]
    simp only [List.mem_map, located, Prod.mk.injEq]
    constructor
    · rintro ⟨e, he, hpath, rfl⟩
      exact ⟨he, hpath⟩
    · exact fun hd => ⟨d, hd.1, hd.2, rfl⟩
  rw [List.map_map, List.mem_map]
  constructor
  · rintro ⟨d, hd, rest, hsplit⟩
    obtain ⟨path, hpath, htexts⟩ := (Node.splitDots_eq_append_iff (haccepted d hd)).mp hsplit
    obtain ⟨segment, more, rfl, rfl, _⟩ := List.map_eq_cons_iff.mp htexts
    have hbelow := (hholds segment more d).mpr ((hmem _ d).mpr ⟨hd, hpath⟩)
    obtain ⟨entry, hentry, rfl⟩ := exists_root_of_mem_declared hbelow
    exact ⟨entry, hentry, rfl⟩
  · rintro ⟨entry, hentry, rfl⟩
    rw [Forest.roots_eq_map_trees] at hentry
    obtain ⟨tree, htree, rfl⟩ := List.mem_map.mp hentry
    obtain ⟨rest, d, hfound⟩ := hground.exists_mem_tree htree
    have hbelow : (tree.1.segment :: rest, d) ∈ declared node.children :=
      mem_declared_iff.mpr ⟨tree, htree, rest, rfl, hfound⟩
    obtain ⟨hd, hpath⟩ := (hmem _ d).mp ((hholds _ _ _).mp hbelow)
    exact ⟨d, hd, rest.map (·.text), (Node.splitDots_eq_append_iff (haccepted d hd)).mpr
      ⟨_, hpath, rfl⟩⟩

/-- Parts after which a name goes on are those of a visited node. -/
theorem exists_visit_of_nextPart (hgathers : Gathers forest (declarations.map located))
    (haccepted : ∀ d ∈ declarations, Accepted d.name) (h : NextPart declarations parts part) :
    ∃ node ∈ allVisits forest, node.parts = parts := by
  obtain ⟨d, hd, rest, hsplit⟩ := h
  rw [← (haccepted d hd).texts_segmentsOf] at hsplit
  obtain ⟨way, more, hway, rfl, _⟩ := List.map_eq_append_iff.mp hsplit
  by_cases hne : way = []
  · exact ⟨_, List.mem_cons_self, by rw [hne]; rfl⟩
  · have hdeclared : (way ++ more, d) ∈ declared forest :=
      hgathers.declared.mem_iff.mpr (List.mem_map.mpr ⟨d, hd, by rw [located, hway]⟩)
    obtain ⟨node, hnode, hpath⟩ := @exists_mem_preorder _ [] _ _ _ hne hdeclared
    exact ⟨node, List.mem_cons_of_mem _ ((visits_perm [] forest).mem_iff.mpr hnode),
      by rw [Node.parts, hpath, List.nil_append]⟩

/-- Where names collide a visited node has children with one key. -/
theorem exists_visit_of_collides (hgathers : Gathers forest (declarations.map located))
    (haccepted : ∀ d ∈ declarations, Accepted d.name) (h : Collides declarations parts) :
    ∃ node ∈ allVisits forest, node.parts = parts ∧
      ¬ ((node.children.roots.map (·.segment)).map (·.key)).Nodup := by
  obtain ⟨a, b, ha, hb, hne, hkey⟩ := h
  obtain ⟨node, hnode, rfl⟩ := exists_visit_of_nextPart hgathers haccepted ha
  obtain ⟨s, hs, rfl⟩ := List.mem_map.mp ((nextPart_iff hgathers haccepted hnode).mp ha)
  obtain ⟨t, ht, rfl⟩ := List.mem_map.mp ((nextPart_iff hgathers haccepted hnode).mp hb)
  refine ⟨node, hnode, rfl, fun hnodup => hne ?_⟩
  rw [Segment.key?_text, Segment.key?_text, Option.some.injEq] at hkey
  rw [List.inj_on_of_nodup_map hnodup hs ht hkey]

end Gathers

/-! ## The report -/

/-- **What a collision report says of the declared names.**  The parts are a place where names go on, and
the report is on two of the parts that come next there. -/
structure CanonicalReport (declarations : List Declaration) (parts : List String)
    (first second : String) (identifier : Identifier) : Prop where
  first_next : NextPart declarations parts first
  second_next : NextPart declarations parts second
  first_lt_second : first < second
  key_first : key? first = some identifier.key
  /-- The identifier is that of the second part, which has the same key. -/
  identifier_eq : normalize second = some identifier
  /-- The second part is the least with a smaller sibling that has its key. -/
  second_least : ∀ part smaller, NextPart declarations parts part →
    NextPart declarations parts smaller → smaller < part → key? smaller = key? part → second ≤ part
  /-- The first part is the least with that key. -/
  first_least : ∀ part, NextPart declarations parts part → key? part = key? second → first ≤ part
  /-- All other places with a collision are visited later. -/
  visited_first : ∀ others, Collides declarations others →
    others = parts ∨ VisitedBefore parts others
  /-- Nothing collides above the place. -/
  outer_apart : ∀ front, front <+: parts → front ≠ parts → ¬ Collides declarations front

section Unique

variable {declarations others : List Declaration} {parts otherParts : List String}
  {first second otherFirst otherSecond : String} {identifier otherIdentifier : Identifier}

/-- A part that comes next in some names comes next in more. -/
theorem NextPart.mono {part : String} (h : NextPart declarations parts part)
    (hnames : declarations.map (·.name) ⊆ others.map (·.name)) : NextPart others parts part := by
  obtain ⟨d, hd, rest, hsplit⟩ := h
  obtain ⟨e, he, hname⟩ := List.mem_map.mp (hnames (List.mem_map_of_mem hd))
  exact ⟨e, he, rest, by rw [hname, hsplit]⟩

/-- What collides among some names collides among more. -/
theorem Collides.mono (h : Collides declarations parts)
    (hnames : declarations.map (·.name) ⊆ others.map (·.name)) : Collides others parts := by
  obtain ⟨a, b, ha, hb, hne, hkey⟩ := h
  exact ⟨a, b, ha.mono hnames, hb.mono hnames, hne, hkey⟩

namespace CanonicalReport

/-- The two reported parts have one key. -/
theorem keys_eq (h : CanonicalReport declarations parts first second identifier) :
    key? first = key? second := by
  rw [h.key_first, key?_of_normalize h.identifier_eq]

/-- What is reported collides. -/
theorem collides (h : CanonicalReport declarations parts first second identifier) :
    Collides declarations parts := by
  refine ⟨first, second, h.first_next, h.second_next, ?_, h.keys_eq⟩
  rintro rfl
  exact String.lt_irrefl _ h.first_lt_second

/-- Reports on the same names are on one place. -/
theorem parts_eq (h : CanonicalReport declarations parts first second identifier)
    (h' : CanonicalReport others otherParts otherFirst otherSecond otherIdentifier)
    (hnames : declarations.map (·.name) ⊆ others.map (·.name))
    (hnames' : others.map (·.name) ⊆ declarations.map (·.name)) : otherParts = parts := by
  rcases h.visited_first _ (h'.collides.mono hnames') with heq | hlater
  · exact heq
  rcases h'.visited_first _ (h.collides.mono hnames) with heq | hearlier
  · exact heq.symm
  · exact absurd hearlier hlater.asymm

/-- **The same names have one canonical report.** -/
theorem unique (h : CanonicalReport declarations parts first second identifier)
    (h' : CanonicalReport others otherParts otherFirst otherSecond otherIdentifier)
    (hnames : declarations.map (·.name) ⊆ others.map (·.name))
    (hnames' : others.map (·.name) ⊆ declarations.map (·.name)) :
    otherParts = parts ∧ otherFirst = first ∧ otherSecond = second ∧
      otherIdentifier = identifier := by
  obtain rfl := h.parts_eq h' hnames hnames'
  obtain rfl : otherSecond = second := by
    apply String.le_antisymm
    · exact h'.second_least _ _ (h.second_next.mono hnames) (h.first_next.mono hnames)
        h.first_lt_second h.keys_eq
    · exact h.second_least _ _ (h'.second_next.mono hnames') (h'.first_next.mono hnames')
        h'.first_lt_second h'.keys_eq
  refine ⟨rfl, ?_, rfl, Option.some.inj (h'.identifier_eq.symm.trans h.identifier_eq)⟩
  apply String.le_antisymm
  · exact h'.first_least _ (h.first_next.mono hnames) h.keys_eq
  · exact h.first_least _ (h'.first_next.mono hnames') h'.keys_eq

end CanonicalReport

end Unique

section Report

variable {declarations : List Declaration} {error : NamingError}

/-- The children of a node are checked one set of segments in text order. -/
theorem checkNode_cases (hord : node.children.Ordered Entry.TextBefore) (kind : Kind) :
    (((node.children.roots.map (·.segment)).map (·.key)).Nodup ∧ checkNode kind node = .ok ()) ∨
      ∃ first second, LeastClash (node.children.roots.map (·.segment)) first second ∧
        checkNode kind node = .error
          (.collision kind (joinDots node.parts) first.text second.text second.identifier) := by
  by_cases hnodup : ((node.children.roots.map (·.segment)).map (·.key)).Nodup
  · exact .inl ⟨hnodup, checkSiblings_eq_ok (nodup_keys_iff.mp hnodup)⟩
  · have hsorted : (node.children.roots.map (·.segment)).Pairwise fun a b => a.text < b.text :=
      List.pairwise_map.mpr (Forest.ordered_iff.mp hord).1
    obtain ⟨first, second, hleast, hrun⟩ :=
      Allocator.allocateAll_of_sorted hsorted hnodup kind (pathText node.path)
    refine .inr ⟨first, second, hleast, ?_⟩
    rw [checkNode, checkSiblings_eq_map, hrun]
    rfl

/-- Below each visited node the forest is in text order. -/
theorem ordered_of_mem_allVisits (hord : forest.Ordered Entry.TextBefore) (hground : Grounded forest)
    (hnode : node ∈ allVisits forest) : node.children.Ordered Entry.TextBefore := by
  rcases List.mem_cons.mp hnode with rfl | hvisited
  · exact hord
  · obtain ⟨_, _, _, hordered, _⟩ :=
      declared_of_mem_preorder (fun _ _ => Entry.TextBefore.distinct) hord hground
        ((visits_perm [] forest).mem_iff.mp hvisited)
    exact hordered

/-- The first visited node that is refused makes the canonical report, since nothing collides at the nodes
visited before. -/
theorem canonicalReport_of_isFirst (hgathers : Gathers forest (declarations.map located))
    (haccepted : ∀ d ∈ declarations, Accepted d.name)
    (hfirst : IsFirst (fun node => checkNode kind node ≠ .ok ()) (allVisits forest) node)
    {first second : Segment}
    (hleast : LeastClash (node.children.roots.map (·.segment)) first second) :
    CanonicalReport declarations node.parts first.text second.text second.identifier := by
  have hnode := hfirst.mem.1
  have hnext := fun part => @nextPart_iff _ _ _ part hgathers haccepted hnode
  have hvisited : ∀ others, Collides declarations others →
      others = node.parts ∨ VisitedBefore node.parts others := by
    intro others hcollides
    obtain ⟨other, hother, rfl, hnodup⟩ := exists_visit_of_collides hgathers haccepted hcollides
    have hsorted := pairwise_allVisits hgathers.ordered
    have hordered := ordered_of_mem_allVisits hgathers.ordered hgathers.grounded hother
    obtain ⟨before, after, hsplit, _, hbefore⟩ := hfirst
    rw [hsplit] at hother hsorted
    rcases List.mem_append.mp hother with hearlier | hlater
    · rcases checkNode_cases hordered kind with ⟨hapart, _⟩ | ⟨_, _, _, hrefused⟩
      · exact absurd hapart hnodup
      · refine absurd (fun hpassed => ?_) (hbefore other hearlier)
        cases hrefused.symm.trans hpassed
    · rcases List.mem_cons.mp hlater with rfl | hlater
      · exact .inl rfl
      · exact .inr ((List.pairwise_cons.mp (List.pairwise_append.mp hsorted).2.1).1 other hlater)
  constructor
  · exact (hnext _).mpr (List.mem_map_of_mem hleast.first_mem)
  · exact (hnext _).mpr (List.mem_map_of_mem hleast.second_mem)
  · exact hleast.text_lt
  · rw [Segment.key?_text, hleast.key_eq]
    rfl
  · exact second.normalize_text
  · intro part smaller hpart hsmaller hlt hkey
    obtain ⟨s, hs, rfl⟩ := List.mem_map.mp ((hnext part).mp hpart)
    obtain ⟨t, ht, rfl⟩ := List.mem_map.mp ((hnext smaller).mp hsmaller)
    rw [Segment.key?_text, Segment.key?_text, Option.some.injEq] at hkey
    exact hleast.second_least s hs t ht hlt hkey
  · intro part hpart hkey
    obtain ⟨s, hs, rfl⟩ := List.mem_map.mp ((hnext part).mp hpart)
    rw [Segment.key?_text, Segment.key?_text, Option.some.injEq] at hkey
    exact hleast.first_least s hs (hkey.trans hleast.key_eq.symm)
  · exact hvisited
  · intro front hprefix hne hcollides
    rcases hvisited front hcollides with rfl | hbefore
    · exact hne rfl
    · exact not_visitedBefore_of_prefix hprefix hbefore

/-- Only admissible declarations end in a collision. -/
theorem admissible_of_collision
    (h : Tree.ofDeclarations kind declarations = .error error) {other : Kind}
    (hcollision : error.IsCollision other) : Admissible kind declarations := by
  obtain ⟨parent, first, second, identifier, rfl⟩ := hcollision
  have hread : ∀ d ∈ declarations, Readable kind d := by
    apply Classical.byContradiction
    intro hnot
    obtain ⟨name, reason, hrefused⟩ := Tree.ofDeclarations_isInvalid hnot
    rw [hrefused] at h
    cases h
  refine ⟨hread, Classical.byContradiction fun hnot => ?_⟩
  obtain ⟨d, hrepeat⟩ := exists_isFirstRepeat hnot
  rw [Tree.ofDeclarations_repeated hread hrepeat] at h
  cases h

/-- An empty place is printed as the root. -/
theorem place_pathText (way : List Segment) :
    (if (pathText way).isEmpty then "<root>" else pathText way) = place (way.map (·.text)) := by
  cases way with
  | nil => rfl
  | cons segment rest =>
      exact if_neg fun h => joinDots_ne_empty (by simp) (String.isEmpty_iff.mp h)

/-- A collision at a node is printed with its place. -/
theorem message_collision (kind : Kind) (node : Node) (first second : String)
    (identifier : Identifier) :
    (NamingError.collision kind node.name first second identifier).message =
      s!"Naming collision in {kind.name} namespace '{place node.parts}': segments '{first}' and '{second}' "
        ++ s!"both map to identifier '{identifier.text}'" := by
  rw [Node.parts, ← place_pathText]
  rfl

/-- **A collision is reported from the declared names alone.**  The report is on the first place with a
collision, and there on the least part that repeats a key. -/
theorem Tree.canonicalReport_of_ofDeclarations {reported : Kind} {parent first second : String}
    {identifier : Identifier}
    (h : ofDeclarations kind declarations =
      .error (.collision reported parent first second identifier)) :
    ∃ parts, parent = joinDots parts ∧ reported = kind ∧
      (NamingError.collision reported parent first second identifier).message =
        s!"Naming collision in {kind.name} namespace '{place parts}': segments '{first}' and '{second}' "
          ++ s!"both map to identifier '{identifier.text}'" ∧
      CanonicalReport declarations parts first second identifier := by
  have hadm := admissible_of_collision h ⟨parent, first, second, identifier, rfl⟩
  obtain ⟨forest, hgathers, hbuild⟩ := exists_gathers hadm
  rw [hbuild, finish_eq_bind] at h
  have hrefused : ¬ ∀ node ∈ allVisits forest, checkNode kind node = .ok () := by
    intro hpassed
    rw [forM_eq_ok hpassed] at h
    cases h
  obtain ⟨node, error, hfirst, herror, hrun⟩ := exists_forM_eq_error hrefused
  rw [hrun] at h
  cases h
  have hordered := ordered_of_mem_allVisits hgathers.ordered hgathers.grounded hfirst.mem.1
  rcases checkNode_cases hordered kind with ⟨_, hpassed⟩ | ⟨low, high, hleast, hreport⟩
  · cases hpassed.symm.trans herror
  · cases hreport.symm.trans herror
    exact ⟨node.parts, rfl, rfl, message_collision kind node _ _ _,
      canonicalReport_of_isFirst hgathers hadm.accepted hfirst hleast⟩

/-- Two places and three spellings collide here: the report is on the later place and on the least
spelling that comes second. -/
theorem Tree.canonicalReport_among_spellings :
    ∃ parts, joinDots parts = "z" ∧
      CanonicalReport [.version "a.b-c" "1", .version "a.bC" "2", .version "z.bC" "3",
        .version "z.b-c" "4", .version "z.B_c" "5"] parts "B_c" "b-c" ⟨"bC"⟩ := by
  have hrefused : ofDeclarations .version [.version "a.b-c" "1", .version "a.bC" "2",
      .version "z.bC" "3", .version "z.b-c" "4", .version "z.B_c" "5"] =
        .error (.collision .version "z" "B_c" "b-c" ⟨"bC"⟩) := by
    decide +kernel
  obtain ⟨parts, hparent, _, _, hreport⟩ := canonicalReport_of_ofDeclarations hrefused
  exact ⟨parts, hparent.symm, hreport⟩

end Report

end AliasCatalog.Namespace

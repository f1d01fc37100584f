import AliasCatalog.Proofs.Namespace.Mirror
import AliasCatalog.Proofs.Naming.AliasGrammar
import AliasCatalog.Proofs.Naming.Spelling

/-!
# The closed form of a name

Over the alphabet of aliases a name counts for its letters and digits alone: their lowercase run, with a
`v` before a leading digit, is the folded normal form of the name.  So a child is found by exactly the names
that have the closed form of its segment, and no two siblings share a closed form
(`closedForm_tells_names`).
-/

namespace AliasCatalog

open Naming Text

namespace Naming

/-- The letters and digits of a text in lowercase and in order, with a `v` in front when the first is a
digit; a text without letters and digits has no closed form. -/
def closedForm (text : String) : Option String :=
  match letters text.toList with
  | [] => none
  | first :: rest =>
      some (String.ofList (if first.isDigit then 'v' :: first :: rest else first :: rest))

/-- What normalisation makes of a text. -/
structure NormalForm (text : String) : Prop where
  /-- With a letter or digit the text has a camel word for its normal form, which is its own normal form
  and folds to the closed form of the text. -/
  named : (∃ c ∈ text.toList, LetterOrDigit c) → ∃ identifier,
    normalize text = some identifier ∧ IsCamel identifier.text.toList ∧
      normalize identifier.text = some identifier ∧
        closedForm text = some (foldCase identifier.text)
  /-- Without one it has neither. -/
  nameless : (∀ c ∈ text.toList, ¬ LetterOrDigit c) → normalize text = none ∧ closedForm text = none

variable {text : String}

/-- The closed form of a segment is its key. -/
theorem closedForm_text (segment : Segment) : closedForm segment.text = some segment.key := by
  rw [segment.key_eq, closedForm]
  cases hletters : letters segment.text.toList with
  | nil =>
      obtain ⟨c, hmem, hletter⟩ := (segmentText_iff.mpr segment.valid).letter
      have hlower : c.toLower ∈ letters segment.text.toList :=
        List.mem_map_of_mem (List.mem_filter.mpr ⟨hmem, letterOrDigit_iff.mp hletter⟩)
      simp [hletters] at hlower
  | cons first rest => rw [shieldDigit]

/-- A text without letters and digits has no closed form. -/
theorem closedForm_eq_none (h : ∀ c ∈ text.toList, ¬ LetterOrDigit c) : closedForm text = none := by
  have hnone : text.toList.filter Char.isAlphanum = [] :=
    List.filter_eq_nil_iff.mpr fun c hc halpha => h c hc (letterOrDigit_iff.mpr halpha)
  rw [closedForm, letters, hnone]
  rfl

/-- A text over the alphabet is a segment as soon as it has a letter or a digit. -/
theorem exists_segment (h : ∀ c ∈ text.toList, InAlphabet c)
    (hletter : ∃ c ∈ text.toList, LetterOrDigit c) : ∃ segment : Segment, segment.text = text :=
  ⟨⟨text, segmentText_iff.mp ⟨h, hletter⟩⟩, rfl⟩

/-- A text that has separators alone has no normal form. -/
theorem normalize_eq_none_of_blank (h : ∀ c ∈ text.toList, InAlphabet c)
    (hblank : ∀ c ∈ text.toList, ¬ LetterOrDigit c) : normalize text = none := by
  refine normalize_eq_none_iff.mpr fun c hc => ?_
  rcases (h c hc).resolve_left (hblank c hc) with rfl | rfl <;> rfl

/-- **Over the alphabet the closed form is the key.** -/
theorem key?_eq_closedForm (h : ∀ c ∈ text.toList, InAlphabet c) : key? text = closedForm text := by
  by_cases hletter : ∃ c ∈ text.toList, LetterOrDigit c
  · obtain ⟨segment, rfl⟩ := exists_segment h hletter
    rw [closedForm_text, Segment.key?_text]
  · have hblank : ∀ c ∈ text.toList, ¬ LetterOrDigit c := fun c hc hc' => hletter ⟨c, hc, hc'⟩
    rw [closedForm_eq_none hblank, key?_eq_none_iff, normalize_eq_none_of_blank h hblank]

/-- **Over the alphabet of aliases normalisation has the closed form.** -/
theorem normalForm_of_alphabet (h : ∀ c ∈ text.toList, InAlphabet c) : NormalForm text where
  named hletter := by
    obtain ⟨segment, rfl⟩ := exists_segment h hletter
    exact ⟨segment.identifier, segment.normalize_text, segment.isCamel_identifier,
      segment.normalize_identifier, closedForm_text segment⟩
  nameless hblank := ⟨normalize_eq_none_of_blank h hblank, closedForm_eq_none hblank⟩

end Naming

namespace Namespace

/-- Names over the alphabet find children by their closed forms alone. -/
structure Tree.FindsByClosedForm (tree : Tree) : Prop where
  /-- What a name finds is a child. -/
  mem_members : ∀ parent ∈ tree.nodes, ∀ name child,
    parent.child? name = some child → child ∈ parent.members
  /-- A name finds a child exactly when it has the closed form of the child's segment. -/
  child?_iff : ∀ parent ∈ tree.nodes, ∀ child ∈ parent.members, ∀ segment,
    child.path = parent.path ++ [segment] → ∀ name : String, (∀ c ∈ name.toList, InAlphabet c) →
      (parent.child? name = some child ↔ closedForm name = closedForm segment.text)
  /-- Names with one closed form find the same. -/
  child?_congr : ∀ parent ∈ tree.nodes, ∀ name other : String,
    (∀ c ∈ name.toList, InAlphabet c) → (∀ c ∈ other.toList, InAlphabet c) →
      closedForm name = closedForm other → parent.child? name = parent.child? other
  /-- No two children have segments with one closed form. -/
  apart : ∀ parent ∈ tree.nodes, ∀ child ∈ parent.members, ∀ sibling ∈ parent.members,
    ∀ segment another, child.path = parent.path ++ [segment] →
      sibling.path = parent.path ++ [another] →
        closedForm segment.text = closedForm another.text → child = sibling

namespace Tree

variable {tree : Tree} {declarations : List Declaration} {parent child : Node}

/-- A child is found by the names with the key of its segment. -/
theorem Represents.child?_iff_key? (h : tree.Represents declarations) (hparent : parent ∈ tree.nodes)
    (hchild : child ∈ parent.members) {segment : Segment}
    (hpath : child.path = parent.path ++ [segment]) (name : String) :
    parent.child? name = some child ↔ key? name = some segment.key := by
  rw [h.child?_iff hparent]
  constructor
  · rintro ⟨_, found, hfound, hkey⟩
    rw [hpath] at hfound
    rwa [List.singleton_inj.mp (List.append_cancel_left hfound)]
  · exact fun hkey => ⟨((h.mem_members_iff hparent).mp hchild).1, segment, hpath, hkey⟩

/-- **In a tree of declarations names find children by their closed forms.** -/
theorem Represents.findsByClosedForm (h : tree.Represents declarations) :
    tree.FindsByClosedForm where
  mem_members parent hparent name child hfound := by
    obtain ⟨hnode, segment, hpath, _⟩ := (h.child?_iff hparent).mp hfound
    exact (h.mem_members_iff hparent).mpr ⟨hnode, segment, hpath⟩
  child?_iff parent hparent child hchild segment hpath name halphabet := by
    rw [h.child?_iff_key? hparent hchild hpath, key?_eq_closedForm halphabet, closedForm_text]
  child?_congr parent _ name other halphabet hother hsame := by
    have hkey : key? name = key? other := by
      rw [key?_eq_closedForm halphabet, key?_eq_closedForm hother, hsame]
    rw [Node.child?, Node.child?, hkey]
  apart parent hparent child hchild sibling hsibling segment another hpath hother hsame := by
    rw [closedForm_text, closedForm_text] at hsame
    have hfirst := (h.child?_iff_key? hparent hchild hpath segment.text).mpr segment.key?_text
    have hsecond := (h.child?_iff_key? hparent hsibling hother segment.text).mpr
      (segment.key?_text.trans hsame)
    exact Option.some.inj (hfirst.symm.trans hsecond)

/-- **Names are told by their closed forms**, in normalisation and among siblings. -/
theorem closedForm_tells_names :
    (∀ text : String, (∀ c ∈ text.toList, InAlphabet c) → NormalForm text) ∧
    ∀ kind declarations tree, ofDeclarations kind declarations = .ok tree →
      tree.FindsByClosedForm :=
  ⟨fun _ => normalForm_of_alphabet, fun _ _ _ h => (represents_of_ofDeclarations h).2.findsByClosedForm⟩

/-- A segment with a leading digit is found under another spelling of its closed form. -/
theorem closedForm_of_leading_digit :
    NormalForm "3d-Engine" ∧ closedForm "3d-Engine" = some "v3dengine" ∧
      ∃ tree child, ofDeclarations .library [.library "3d-Engine" "g" "a"] = .ok tree ∧
        tree.root.child? "_3D_ENGINE" = some child ∧ child.name = "3d-Engine" := by
  let segment : Segment := ⟨"3d-Engine", by decide⟩
  let child : Node := ⟨[segment], some (.library "3d-Engine" "g" "a"), .nil⟩
  let tree : Tree := ⟨.library, .cons ⟨segment, some (.library "3d-Engine" "g" "a")⟩ .nil .nil⟩
  have hbuild : ofDeclarations .library [.library "3d-Engine" "g" "a"] = .ok tree := by
    decide +kernel
  have htext : SegmentText "3d-Engine".toList := segmentText_iff.mpr segment.valid
  have hname : SegmentText "_3D_ENGINE".toList := segmentText_iff.mpr (by decide)
  obtain ⟨hnormal, hfinds⟩ := closedForm_tells_names
  refine ⟨hnormal "3d-Engine" htext.alphabet, by decide +kernel, tree, child, hbuild, ?_, rfl⟩
  exact ((hfinds _ _ _ hbuild).child?_iff tree.root List.mem_cons_self child List.mem_cons_self
    segment rfl "_3D_ENGINE" hname.alphabet).mpr (by decide +kernel)

end Tree

end Namespace

end AliasCatalog

import AliasCatalog.Digest.Sha256
import AliasCatalog.Namespace.Node

/-!
# Fingerprints

A fingerprint digests everything the accessors of a tree depend on: for each node its identifiers,
its shape and the name it declares.  The digest is taken of a canonical text, lines in text order, so
that it does not depend on the order of the declarations.
-/

namespace AliasCatalog.Namespace

open Naming

/-- The lines in text order, each with a line feed after it. -/
def canonicalText (lines : List String) : String :=
  String.join ((lines.mergeSort (fun a b => decide (a ≤ b))).map (· ++ "\n"))

def digestLines (lines : List String) : String :=
  Sha256.hexDigest (canonicalText lines)

def Node.line (node : Node) : String :=
  let identifiers := joinDots (node.identifiers.map (·.text))
  let declared := (node.leaf.map (·.name)).getD ""
  s!"{identifiers}|{node.shape.name}|{declared}"

def Tree.lines (tree : Tree) : List String :=
  s!"kind={tree.kind.name}" :: tree.nodes.map (·.line)

/-- What is kept of a tree to tell it from others. -/
structure Fingerprint where
  kind : Kind
  nodes : Nat
  declarations : Nat
  hash : String
  deriving DecidableEq, Repr

namespace Fingerprint

/-- The first twelve characters of the hash, for display. -/
def short (fingerprint : Fingerprint) : String :=
  String.ofList (fingerprint.hash.toList.take 12)

/-- Do two fingerprints stand for the same accessors? -/
def agrees (a b : Fingerprint) : Bool :=
  a.kind == b.kind && a.hash == b.hash

end Fingerprint

def Tree.fingerprint (tree : Tree) : Fingerprint :=
  ⟨tree.kind, tree.nodeCount, tree.leafCount, digestLines tree.lines⟩

end AliasCatalog.Namespace

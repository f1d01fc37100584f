import AliasCatalog.Accessor.View

/-!
# Views and values for logs

One-line renderings that show the type and the fields of views, accessors and values, with texts in
quotes.
-/

namespace AliasCatalog.Accessor

open Namespace Text

/-- A character between quotes: quotes, backslashes and control characters are escaped. -/
def inspectChar (c : Char) : List Char :=
  if c = '"' ∨ c = '\\' then ['\\', c]
  else if c = '\n' then ['\\', 'n']
  else if c = '\r' then ['\\', 'r']
  else if c = '\t' then ['\\', 't']
  else if c = '\x00' then ['\\', '0']
  else if c.toNat < 0x20 ∨ c.toNat = 0x7f then
    ['\\', 'u', '\x7b'] ++ Nat.toDigits 16 c.toNat ++ ['\x7d']
  else [c]

/-- A text in quotes. -/
def inspectText (text : String) : String :=
  String.ofList ('"' :: text.toList.flatMap inspectChar ++ ['"'])

def inspectOption : Option String → String
  | some text => "Some(" ++ inspectText text ++ ")"
  | none => "None"

def inspectRecord (name : String) (fields : List (String × String)) : String :=
  name ++ " \x7b " ++ ", ".intercalate (fields.map fun (key, value) => key ++ ": " ++ value)
    ++ " \x7d"

def inspectKind (kind : Kind) : String :=
  capitalize kind.name

def Value.inspect : Value → String
  | .library d =>
    inspectRecord "DependencyNotation"
      [("alias", inspectText d.name), ("group", inspectText d.group),
        ("artifact", inspectText d.artifact), ("version", inspectOption d.version),
        ("version_ref", inspectOption d.versionRef)]
  | .version text => inspectText text
  | .bundle b =>
    inspectRecord "BundleNotation"
      [("alias", inspectText b.name),
        ("members", "[" ++ ", ".intercalate (b.members.map inspectText) ++ "]")]
  | .plugin p =>
    inspectRecord "PluginNotation"
      [("alias", inspectText p.name), ("id", inspectText p.id),
        ("version", inspectOption p.version)]

def View.inspect (view : View) : String :=
  inspectRecord "NamespaceView" [("kind", inspectKind view.kind), ("path", inspectText view.path)]

def Child.inspect : Child → String
  | .leaf provider => "Leaf(" ++ provider.value.inspect ++ ")"
  | .group view => "Group(" ++ view.inspect ++ ")"
  | .ambiguous provider view =>
    inspectRecord "Ambiguous" [("value", provider.value.inspect), ("group", view.inspect)]

def inspectChild : Option Child → String
  | some child => "Some(" ++ child.inspect ++ ")"
  | none => "None"

def Surface.inspect (surface : Surface) : String :=
  inspectRecord "KindCatalog"
    [("kind", inspectKind surface.kind), ("nodes", toString surface.tree.nodeCount),
      ("declarations", toString surface.tree.leafCount)]

end AliasCatalog.Accessor

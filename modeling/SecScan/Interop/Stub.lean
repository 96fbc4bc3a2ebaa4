import SecScan.Data

/-! The place of a parser for other languages, which is not there yet. -/
namespace SecScan.Interop

def isInstalled : Bool := false

def stubGraph : Value :=
  .obj [("nodes", .list []), ("edges", .list []), ("metadata", .obj [("parser", .text "joern-stub")])]

def stubText : Try String := Json.render (Json.indented 2) stubGraph

end SecScan.Interop

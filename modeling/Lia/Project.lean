import Lia.Archive
import Lia.Asset
import Lia.Lowering
import Lia.Value.Json

/-!
# Projects

The document of a project with one stage, and the archive that holds the document
and the backdrop.
-/

namespace Lia

structure Parameters where
  stageName : String := "Stage"
  /-- What the document names as its maker. -/
  agent : Value := "liac"
  /-- The document indented and sorted. -/
  pretty : Bool := false
  grid : Lowering.Grid := {}

namespace Project

/-- The stage as the document has it: under the name of the parameters, with the
placeholder backdrop as its only costume. The target itself stays as it is. -/
def stage (t : Target) (p : Parameters) : Value :=
  { t with name := p.stageName, costumes := [Asset.backdrop.costume 240 180] }.toValue

def document (t : Target) (p : Parameters) : Value :=
  .record [
    ("targets", .list [stage t p]),
    ("monitors", .list []),
    ("extensions", .list []),
    ("meta", .record [("semver", "3.0.0"), ("vm", "0.2.0"), ("agent", p.agent)])]

def style (pretty : Bool) : Json.Style := if pretty then ⟨some 4, true, true⟩ else .compact

def entries (t : Target) (p : Parameters) : List Entry :=
  [{ name := "project.json", content := Json.write (style p.pretty) (document t p) },
    { name := Asset.backdrop.fileName, content := Asset.backdrop.content }]

end Project

def Program.compile (p : Program) (params : Parameters) (source : IdSource) : Compiled Unit :=
  Lia.compile p params.grid params.stageName source

/-- The style of `.lia` files, which keep characters beyond ASCII. -/
def recordStyle : Json.Style := ⟨some 2, false, false⟩

end Lia

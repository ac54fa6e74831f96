import Lia.Value
import Lia.Digest.Md5

/-!
# Assets

A file of a project, named by the digest of its content.
-/

namespace Lia

structure Asset where
  name : String
  dataFormat : String
  content : String

namespace Asset

def id (a : Asset) : String := Md5.digest (Bytes.ofText a.content)

def fileName (a : Asset) : String := a.id ++ "." ++ a.dataFormat

/-- The record of the asset as a costume that turns around a point. -/
def costume (a : Asset) (x y : Number) : Value :=
  .record [
    ("name", .text a.name),
    ("assetId", .text a.id),
    ("md5ext", .text a.fileName),
    ("dataFormat", .text a.dataFormat),
    ("rotationCenterX", .number x),
    ("rotationCenterY", .number y)]

/-- An empty picture of the size of the stage. -/
def backdrop : Asset where
  name := "backdrop1"
  dataFormat := "svg"
  content := "<svg xmlns=\"http://www.w3.org/2000/svg\" width=\"480\" height=\"360\"></svg>"

end Asset

end Lia

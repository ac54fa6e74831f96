import Lia.Project

/-!
# Project documents

The document of a compiled target says everything that the target says of itself, but for its
name and its costumes (`Project.document_describes`). Beside it the archive holds the one
costume, under the name that the document gives it (`Asset.backdrop_fileName`).
-/

namespace Lia

theorem Asset.backdrop_fileName :
    Asset.backdrop.fileName = "0ac33de9d7138a386563727540d10055.svg" := by
  have hid : Asset.backdrop.id = "0ac33de9d7138a386563727540d10055" := by decide +kernel
  rw [fileName, hid]
  rfl

namespace Project

/-- A document of one stage, made from a target as parameters ask. -/
structure Describes (t : Target) (p : Parameters) (document : Value) : Prop where
  stage : ∃ stage, document.get? "targets" = some (.list [stage]) ∧ ∀ key, stage.get? key =
    if key = "name" then some (.text p.stageName)
    else if key = "costumes" then some (.list [Asset.backdrop.costume 240 180])
    else t.toValue.get? key
  monitors : document.get? "monitors" = some (.list [])
  extensions : document.get? "extensions" = some (.list [])
  maker : document.get? "meta" =
    some (.record [("semver", "3.0.0"), ("vm", "0.2.0"), ("agent", p.agent)])

theorem stage_get? (t : Target) (p : Parameters) (key : String) : (stage t p).get? key =
    if key = "name" then some (.text p.stageName)
    else if key = "costumes" then some (.list [Asset.backdrop.costume 240 180])
    else t.toValue.get? key := by
  split
  next h => rw [h]; rfl
  next hname =>
    split
    next h => rw [h]; rfl
    next hcostumes =>
      have hn : (key == "name") = false := beq_false_of_ne hname
      have hc : (key == "costumes") = false := beq_false_of_ne hcostumes
      simp only [stage, Target.toValue, Value.get?, List.cons_append, List.lookup_cons, hn, hc]
      rfl

theorem document_describes (t : Target) (p : Parameters) : Describes t p (document t p) where
  stage := ⟨stage t p, rfl, stage_get? t p⟩
  monitors := rfl
  extensions := rfl
  maker := rfl

theorem entries_isPlain (t : Target) (p : Parameters) :
    (entries t p).all Entry.isPlain = true := by
  have hdocument : Entry.isPlainName "project.json" = true := by decide
  have hbackdrop : Entry.isPlainName "0ac33de9d7138a386563727540d10055.svg" = true := by decide
  rw [entries, Asset.backdrop_fileName]
  simp [Entry.isPlain, hdocument, hbackdrop]

end Project

end Lia

import ClientGen.Proofs.Source.Nesting
import ClientGen.Thrift.Parser

/-! # Nested declarations in Thrift

Every production is made of moves. Types, constants, annotations and headers
register nothing; constants, typedefs, enumerations with their members,
structures with their fields, and services with their functions and the fields of
those are nested.
-/

namespace ClientGen
namespace Thrift

open Source
open Source.Parser

variable {registers : Bool}

/-! ## Parts without declarations -/

instance : Made registers annotationValue := by
  unfold annotationValue
  infer_instance

instance : Made registers annotation := by
  unfold annotation
  infer_instance

instance : Made registers annotations := by
  unfold annotations
  infer_instance

instance : Made registers foreignType := by
  unfold foreignType
  infer_instance

instance (fuel : Nat) : Made registers (fieldType fuel) := by
  induction fuel with
  | zero => exact .illegal
  | succ fuel ih =>
      unfold fieldType
      refine .bind inferInstance fun position => ?_
      exact .branch (.bind inferInstance fun _ => .bind inferInstance fun _ => inferInstance)
        (.branch inferInstance (.branch inferInstance inferInstance))

instance : Made registers type := .fuelled fun _ => inferInstance

instance (fuel : Nat) : Made registers (constValue fuel) := by
  induction fuel with
  | zero => exact .illegal
  | succ fuel ih =>
      unfold constValue
      refine .bind inferInstance fun kind => ?_
      split <;> infer_instance

instance : Made registers const := .fuelled fun _ => inferInstance

instance : Made registers includeHeader := by
  unfold includeHeader
  infer_instance

instance : Made registers namespaceHeader := by
  unfold namespaceHeader
  infer_instance

instance : Made registers memberValue := by
  unfold memberValue
  infer_instance

instance : Made registers fieldId := by
  have hlook : Made registers
      (look fun c => c.is .integerDecimal || c.is .integerHex || c.is .minus) :=
    .look fun _ _ _ => rfl
  unfold fieldId
  infer_instance

instance : Made registers requirement := by
  unfold requirement
  refine .bind inferInstance fun word => ?_
  split <;> infer_instance

instance : Made registers fieldDefault := by
  unfold fieldDefault
  infer_instance

instance : Made registers result := by
  unfold result
  infer_instance

instance : Made registers parentName := by
  unfold parentName
  infer_instance

/-! ## Declarations -/

instance : Made true constDefinition := by
  unfold constDefinition
  infer_instance

instance : Nests constDefinition := by
  unfold constDefinition
  exact .production fun _ => .token fun _ => .part fun _ => .part fun _ => .part fun _ =>
    .part fun _ => .part fun _ => .declare _

instance : Made true typedefDefinition := by
  unfold typedefDefinition
  infer_instance

instance : Nests typedefDefinition := by
  unfold typedefDefinition
  exact .production fun _ => .token fun _ => .part fun _ => .part fun _ => .part fun _ =>
    .part fun _ => .declare _

instance : Made true enumMember := by
  unfold enumMember
  infer_instance

instance : Nests enumMember := by
  unfold enumMember
  exact .production fun _ => .token fun _ => .part fun _ => .part fun _ => .part fun _ => .declare _

instance : Made true enumDefinition := by
  unfold enumDefinition
  infer_instance

instance : Nests enumDefinition := by
  unfold enumDefinition
  exact .production fun _ => .token fun _ => .part fun _ => .part fun _ => .part fun _ =>
    .part fun _ => .part fun _ => .declare _

instance : Made true field := by
  unfold field
  infer_instance

-- The number and the requirement may be absent, so the name is the first sure token.
instance : Nests field := by
  unfold field
  exact .production fun _ => .optional fun _ => .optional fun _ => .optional fun _ =>
    .optional fun _ => .token fun _ => .part fun _ => .part fun _ => .part fun _ => .declare _

instance : Made true structDefinition := by
  unfold structDefinition
  infer_instance

instance : Nests structDefinition := by
  unfold structDefinition
  exact .production fun _ => .token fun _ => .part fun _ => .part fun _ => .part fun _ =>
    .part fun _ => .part fun _ => .part fun _ => .declare _

instance : Made true fieldList := by
  unfold fieldList
  infer_instance

instance : Wraps fieldList := by
  unfold fieldList
  infer_instance

instance : Made true throwsClause := by
  unfold throwsClause
  infer_instance

instance : Wraps throwsClause := by
  unfold throwsClause
  infer_instance

instance : Made true function := by
  unfold function
  infer_instance

instance : Nests function := by
  unfold function
  exact .production fun _ => .optional fun _ => .optional fun _ => .optional fun _ =>
    .token fun _ => .part fun _ => .part fun _ => .part fun _ => .part fun _ => .declare _

instance : Made true serviceDefinition := by
  unfold serviceDefinition
  infer_instance

instance : Nests serviceDefinition := by
  unfold serviceDefinition
  exact .production fun _ => .token fun _ => .part fun _ => .part fun _ => .part fun _ =>
    .part fun _ => .part fun _ => .part fun _ => .declare _

/-! ## Files -/

instance : Made true definition := by
  unfold definition
  exact .branch inferInstance (.branch inferInstance (.branch inferInstance
    (.branch inferInstance (.branch inferInstance .illegal))))

instance : Nests definition := by
  unfold definition
  exact .branch inferInstance (.branch inferInstance (.branch inferInstance
    (.branch inferInstance (.branch inferInstance inferInstance))))

instance : Made true item := by
  unfold item
  infer_instance

instance : Nests item := by
  unfold item
  infer_instance

instance : Made true file := by
  have hfailed : Made true (look (·.failed)) := .look fun _ _ _ => rfl
  have hitems : Made true (whileDo (fun c => !c.atEnd) item) :=
    .whileDo (fun _ _ _ => rfl) inferInstance
  unfold file
  infer_instance

instance : Nests file := by
  have hfailed : Made false (look (·.failed)) := .look fun _ _ _ => rfl
  unfold file
  infer_instance

end Thrift
end ClientGen

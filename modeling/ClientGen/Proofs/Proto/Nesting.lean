import ClientGen.Proofs.Source.Nesting
import ClientGen.Proto.Parser

/-! # Nested declarations in Protobuf

Every production is made of moves. Options and skipped statements register
nothing. Messages with their fields, enumerations with their members, and services
with their procedures are nested; a choice between fields is no declaration, and
its fields belong to the message around it.
-/

namespace ClientGen
namespace Proto

open Source
open Source.Parser

variable {registers : Bool} {α : Type}

/-! ## Parts without declarations -/

instance : Made registers typeName := by
  unfold typeName
  infer_instance

instance (sign : String) : Made registers (signedConst sign) := by
  unfold signedConst
  refine .bind inferInstance fun _ => .bind inferInstance fun word => ?_
  cases word <;> infer_instance

instance : Made registers scalarConst := by
  have htexts : Made registers (whileDo (fun c => c.is .text) (expect .text)) :=
    .whileDo (fun _ _ _ => rfl) inferInstance
  unfold scalarConst
  refine .bind inferInstance fun kind => ?_
  split <;> infer_instance

instance {item : Parser α} [Made registers item] (fuel : Nat) :
    Made registers (listItems item fuel) := by
  induction fuel with
  | zero => exact .illegal
  | succ fuel ih =>
      unfold listItems
      infer_instance

instance : Made registers aggregateKey := by
  unfold aggregateKey
  infer_instance

instance {value : String → Parser α} [∀ name, Made registers (value name)] (name : String) :
    Made registers (aggregateField value name) := by
  unfold aggregateField
  infer_instance

instance (position : Position) (fuel : Nat) (name : String) :
    Made registers (optionValueAux position fuel name) := by
  induction fuel generalizing name with
  | zero => exact .illegal
  | succ fuel ih =>
      unfold optionValueAux
      refine .bind inferInstance fun kind => ?_
      split <;> infer_instance

instance (position : Position) (name : String) : Made registers (optionValue position name) :=
  .fuelled (p := fun fuel => optionValueAux position fuel name) fun _ => inferInstance

instance : Made registers optionNamePart := by
  unfold optionNamePart
  infer_instance

instance : Made registers optionName := by
  unfold optionName
  infer_instance

instance : Made registers option := by
  unfold option
  infer_instance

instance : Made registers optionStatement := by
  unfold optionStatement
  infer_instance

instance : Made registers bracketOptions := by
  unfold bracketOptions
  infer_instance

instance : Made registers skipStatement := by
  have hskip : Made registers (whileDo (fun c => !c.atEnd && !c.is .semicolon) advance) :=
    .whileDo (fun _ _ _ => rfl) inferInstance
  unfold skipStatement
  infer_instance

instance (depth fuel : Nat) : Made registers (skipBraces depth fuel) := by
  induction fuel generalizing depth with
  | zero => cases depth <;> simp only [skipBraces] <;> infer_instance
  | succ fuel ih =>
      cases depth with
      | zero =>
          unfold skipBraces
          infer_instance
      | succ depth =>
          unfold skipBraces
          refine .bind inferInstance fun kind => ?_
          split <;> infer_instance

instance : Made registers skipExtend := by
  unfold skipExtend
  exact .bind inferInstance fun _ => .bind inferInstance fun _ => .bind inferInstance fun _ =>
    .fuelled fun _ => inferInstance

instance : Made registers label := by
  unfold label
  refine .bind inferInstance fun word => ?_
  split <;> infer_instance

instance : Made registers fieldType := by
  have hmap : Made registers
      (look fun c => c.isWord ["map"] && (c.peekAt 1).any fun t => t.kind == .angleOpen) :=
    .look fun _ _ _ => rfl
  unfold fieldType
  exact .branch (.bind inferInstance fun _ => .bind inferInstance fun _ => inferInstance)
    inferInstance

instance : Made registers rpcEnd := by
  have hstream : Made registers (look fun c =>
      c.isWord ["stream"] && (c.peekAt 1).any fun t => t.kind != .parenClose) :=
    .look fun _ _ _ => rfl
  unfold rpcEnd
  infer_instance

instance : Made registers rpcItem := by
  unfold rpcItem
  infer_instance

instance : Made registers rpcBody := by
  unfold rpcBody
  infer_instance

instance : Made registers modifier := by
  unfold modifier
  refine .bind inferInstance fun word => ?_
  split <;> infer_instance

instance : Made registers importStatement := by
  unfold importStatement
  infer_instance

/-! ## Declarations -/

instance (oneof : Option String) : Made true (field oneof) := by
  unfold field
  infer_instance

-- The label may be absent, so the name is the first sure token.
instance (oneof : Option String) : Nests (field oneof) := by
  unfold field
  exact .production fun _ => .optional fun _ => .optional fun _ => .optional fun _ =>
    .token fun _ => .part fun _ => .part fun _ => .part fun _ => .part fun _ => .declare _

instance (name : String) : Made true (oneofItem name) := by
  unfold oneofItem
  infer_instance

instance (name : String) : Nests (oneofItem name) := by
  unfold oneofItem
  infer_instance

instance : Made true oneof := by
  unfold oneof
  infer_instance

instance : Nests oneof := by
  unfold oneof
  infer_instance

instance : Made true enumMember := by
  unfold enumMember
  infer_instance

instance : Nests enumMember := by
  unfold enumMember
  exact .production fun _ => .token fun _ => .part fun _ => .part fun _ => .part fun _ =>
    .part fun _ => .declare _

instance : Made true enumItem := by
  unfold enumItem
  infer_instance

instance : Nests enumItem := by
  unfold enumItem
  infer_instance

instance : Made true enumDefinition := by
  unfold enumDefinition
  infer_instance

instance : Nests enumDefinition := by
  unfold enumDefinition
  exact .production fun _ => .token fun _ => .part fun _ => .part fun _ => .part fun _ => .declare _

section Messages

variable {nested : Parser MessageTree}

instance [Made true nested] : Made true (messageItem nested) := by
  unfold messageItem
  exact .branch inferInstance (.branch inferInstance (.branch inferInstance
    (.branch inferInstance (.branch inferInstance (.branch inferInstance
      (.branch inferInstance inferInstance))))))

instance [Nests nested] : Nests (messageItem nested) := by
  unfold messageItem
  exact .branch inferInstance (.branch inferInstance (.branch inferInstance
    (.branch inferInstance (.branch inferInstance (.branch inferInstance
      (.branch inferInstance inferInstance))))))

instance (fuel : Nat) : Made true (messageAux fuel) := by
  induction fuel with
  | zero => exact .illegal
  | succ fuel ih =>
      unfold messageAux
      infer_instance

instance (fuel : Nat) : Nests (messageAux fuel) := by
  induction fuel with
  | zero =>
      unfold messageAux
      infer_instance
  | succ fuel ih =>
      unfold messageAux
      exact .production fun _ => .token fun _ => .part fun _ => .part fun _ => .part fun _ =>
        .declare _

instance : Made true message := .fuelled fun _ => inferInstance

instance : Nests message := ⟨fun c => Nests.encloses (p := messageAux (c.rest.length + 1)) c⟩

end Messages

instance : Made true rpc := by
  unfold rpc
  infer_instance

instance : Nests rpc := by
  unfold rpc
  exact .production fun _ => .token fun _ => .part fun _ => .part fun _ => .part fun _ =>
    .part fun _ => .part fun _ => .declare _

instance : Made true serviceItem := by
  unfold serviceItem
  infer_instance

instance : Nests serviceItem := by
  unfold serviceItem
  infer_instance

instance : Made true serviceDefinition := by
  unfold serviceDefinition
  infer_instance

instance : Nests serviceDefinition := by
  unfold serviceDefinition
  exact .production fun _ => .token fun _ => .part fun _ => .part fun _ => .part fun _ => .declare _

/-! ## Files -/

instance : Made true fileItem := by
  unfold fileItem
  exact .branch inferInstance (.branch inferInstance (.branch inferInstance
    (.branch inferInstance (.branch inferInstance (.branch inferInstance
      (.branch inferInstance (.branch inferInstance (.branch inferInstance .illegal))))))))

instance : Nests fileItem := by
  unfold fileItem
  exact .branch inferInstance (.branch inferInstance (.branch inferInstance
    (.branch inferInstance (.branch inferInstance (.branch inferInstance
      (.branch inferInstance (.branch inferInstance (.branch inferInstance inferInstance))))))))

instance : Made true file := by
  have hfailed : Made true (look (·.failed)) := .look fun _ _ _ => rfl
  have hitems : Made true (whileDo (fun c => !c.atEnd) fileItem) :=
    .whileDo (fun _ _ _ => rfl) inferInstance
  unfold file
  infer_instance

instance : Nests file := by
  have hfailed : Made false (look (·.failed)) := .look fun _ _ _ => rfl
  unfold file
  infer_instance

end Proto
end ClientGen

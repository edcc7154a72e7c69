import ClientGen.Proofs.Proto.RoundTrip
import ClientGen.Proofs.Source.Lockstep
import Mathlib.Data.List.ReduceOption

/-! # Protobuf in lockstep

Every production of the grammar runs in lockstep with itself: it reads the kinds
and values of tokens only. No production drops a failure, so a parse reports once
when it has no value and never otherwise, whatever faces are ahead.
-/

namespace ClientGen
namespace Proto

open Source
open Source.Parser

variable {ok : List Face → Bool}

/-! ## Names and constants -/

theorem steps_typeName : Lockstep ok (fun s => s) typeName typeName := by
  unfold typeName
  refine (Lockstep.accept .dot).bind fun rooted _ h => ?_
  subst h
  refine Lockstep.dottedName.bind fun name _ h => Lockstep.pure ?_
  rw [h]

theorem steps_signedConst (sign : String) :
    Lockstep ok (fun v => v) (signedConst sign) (signedConst sign) := by
  unfold signedConst
  refine Lockstep.advance.bind fun _ _ _ => (Lockstep.acceptWord _).bind fun w _ h => ?_
  subst h
  cases w with
  | some word => exact Lockstep.pure rfl
  | none =>
      exact (Lockstep.expectOf _).bind fun t u h => Lockstep.pure (Const.ofNumber_eq sign h)

theorem steps_scalarConst : Lockstep ok (fun v => v) scalarConst scalarConst := by
  unfold scalarConst
  refine Lockstep.kind?.bind fun k _ h => ?_
  subst h
  split
  · refine (Lockstep.whileDo ?_ (Lockstep.expect _)).bind fun ts us h => Lockstep.pure ?_
    · intro c d h
      rw [Cursor.is_eq, Cursor.is_eq, h]
    · rw [Token.map_value_eq h]
  · exact steps_signedConst "-"
  · exact steps_signedConst ""
  · exact (Lockstep.expectOf _).bind fun t u h => Lockstep.pure (Const.ofNumber_eq "" h)
  · exact (Lockstep.expectOf _).bind fun t u h => Lockstep.pure (Const.ofNumber_eq "" h)
  · exact (Lockstep.expectOf _).bind fun t u h => Lockstep.pure (Const.ofNumber_eq "" h)
  · exact Lockstep.dottedName.bind fun name _ h => Lockstep.pure (congrArg nameConst h)
  · exact Lockstep.illegal

/-! ## Options -/

theorem steps_listItems {α γ : Type} {e : α → γ} {p q : Parser α} (hp : Lockstep ok e p q)
    (fuel : Nat) : Lockstep ok (List.map e) (listItems p fuel) (listItems q fuel) := by
  induction fuel with
  | zero => exact Lockstep.illegal
  | succ fuel ih =>
      unfold listItems
      refine (Lockstep.is _).branch _ (Lockstep.pure rfl) (hp.bind fun x y hxy => ?_)
      refine (Lockstep.accept _).branch _ (ih.bind fun xs ys hxs => Lockstep.pure ?_)
        (Lockstep.pure ?_)
      · rw [List.map_cons, List.map_cons, hxy, hxs]
      · rw [List.map_singleton, List.map_singleton, hxy]

theorem steps_aggregateKey : Lockstep ok (fun s => s) aggregateKey aggregateKey := by
  unfold aggregateKey
  refine (Lockstep.accept _).branch _ (Lockstep.dottedName.bind fun name _ h => ?_) ?_
  · exact (Lockstep.expect _).bind fun _ _ _ => Lockstep.pure h
  · exact Lockstep.identifier.bind fun t u h => Lockstep.pure (Token.face_eq_iff.mp h).2

theorem steps_aggregateField {α γ : Type} {e : α → γ} {value value' : String → Parser α}
    (h : ∀ name, Lockstep ok e (value name) (value' name)) (name : String) :
    Lockstep ok e (aggregateField value name) (aggregateField value' name) := by
  unfold aggregateField
  refine steps_aggregateKey.bind fun key _ hkey => ?_
  subst hkey
  refine (Lockstep.accept _).bind fun colon _ hcolon => ?_
  subst hcolon
  have hvalue := (h (name ++ "." ++ key)).bind fun a b hab =>
    Lockstep.separator.bind fun _ _ _ => Lockstep.pure hab
  refine (Lockstep.is _).bind fun curly _ hcurly => ?_
  subst hcurly
  refine (Lockstep.is _).branch (fun angle => colon || curly || angle) hvalue ?_
  exact (Lockstep.illegal (e := fun _ => ())).bind fun _ _ _ => hvalue

theorem steps_optionValueAux (position position' : Position) (fuel : Nat) (name : String) :
    Lockstep ok (List.map OptionTree.erase) (optionValueAux position fuel name)
      (optionValueAux position' fuel name) := by
  induction fuel generalizing name with
  | zero => exact Lockstep.illegal
  | succ fuel ih =>
      have hflatten : ∀ xs ys : List (List OptionTree),
          xs.map (List.map OptionTree.erase) = ys.map (List.map OptionTree.erase) →
          xs.flatten.map OptionTree.erase = ys.flatten.map OptionTree.erase := by
        intro xs ys h
        rw [List.map_flatten, List.map_flatten, h]
      unfold optionValueAux
      refine Lockstep.kind?.bind fun k _ h => ?_
      subst h
      split
      · refine Lockstep.advance.bind fun _ _ _ => ?_
        refine (Lockstep.upTo _ (steps_aggregateField ih name)).bind fun xs ys h => ?_
        exact Lockstep.pure (hflatten xs ys h)
      · refine Lockstep.advance.bind fun _ _ _ => ?_
        refine (steps_listItems (ih name) _).bind fun xs ys h => ?_
        exact (Lockstep.expect _).bind fun _ _ _ => Lockstep.pure (hflatten xs ys h)
      · refine steps_scalarConst.bind fun v _ h => Lockstep.pure ?_
        simp only [List.map_singleton, OptionTree.erase, h]

theorem steps_optionValue (position position' : Position) (name : String) :
    Lockstep ok (List.map OptionTree.erase) (optionValue position name)
      (optionValue position' name) :=
  Lockstep.fuelled fun fuel => steps_optionValueAux position position' fuel name

theorem steps_optionNamePart : Lockstep ok (fun s => s) optionNamePart optionNamePart := by
  unfold optionNamePart
  refine (Lockstep.accept _).branch _ ((Lockstep.accept _).bind fun _ _ _ => ?_) ?_
  · refine Lockstep.dottedName.bind fun name _ h => ?_
    exact (Lockstep.expect _).bind fun _ _ _ => Lockstep.pure h
  · exact Lockstep.identifier.bind fun t u h => Lockstep.pure (Token.face_eq_iff.mp h).2

theorem steps_optionName : Lockstep ok (fun s => s) optionName optionName := by
  unfold optionName
  refine (Lockstep.sepBy1 _ steps_optionNamePart).bind fun ps qs h => Lockstep.pure ?_
  rw [List.map_id', List.map_id'] at h
  rw [h]

theorem steps_option : Lockstep ok (List.map OptionTree.erase) option option := by
  unfold option
  refine Lockstep.here.bind fun position position' _ => ?_
  refine steps_optionName.bind fun name _ h => ?_
  subst h
  exact (Lockstep.expect _).bind fun _ _ _ => steps_optionValue position position' name

theorem steps_optionStatement :
    Lockstep ok (List.map OptionTree.erase) optionStatement optionStatement := by
  unfold optionStatement
  refine (Lockstep.expectWord _).bind fun _ _ _ => steps_option.bind fun os os' h => ?_
  exact (Lockstep.expect _).bind fun _ _ _ => Lockstep.pure h

theorem steps_bracketOptions :
    Lockstep ok (List.map OptionTree.erase) bracketOptions bracketOptions := by
  unfold bracketOptions
  refine (Lockstep.accept _).branch _ ?_ (Lockstep.pure rfl)
  refine (Lockstep.sepBy1 _ steps_option).bind fun xs ys h => ?_
  refine (Lockstep.expect _).bind fun _ _ _ => Lockstep.pure ?_
  rw [List.map_flatten, List.map_flatten, h]

/-! ## Statements that are passed over -/

theorem steps_skipStatement : Lockstep ok (fun _ => ()) skipStatement skipStatement := by
  unfold skipStatement
  refine (Lockstep.whileDo ?_ Lockstep.advance).bind fun _ _ _ => ?_
  · intro c d h
    simp only [Cursor.atEnd_eq, Cursor.is_eq, h]
  · exact (Lockstep.expect _).bind fun _ _ _ => Lockstep.pure rfl

theorem steps_skipBraces (depth fuel : Nat) :
    Lockstep ok (fun _ => ()) (skipBraces depth fuel) (skipBraces depth fuel) := by
  induction fuel generalizing depth with
  | zero =>
      cases depth with
      | zero => exact Lockstep.pure rfl
      | succ depth => exact Lockstep.illegal
  | succ fuel ih =>
      cases depth with
      | zero => exact Lockstep.pure rfl
      | succ depth =>
          unfold skipBraces
          refine Lockstep.kind?.bind fun k _ h => ?_
          subst h
          split
          · exact Lockstep.illegal
          · exact Lockstep.advance.bind fun _ _ _ => ih (depth + 2)
          · exact Lockstep.advance.bind fun _ _ _ => ih depth
          · exact Lockstep.advance.bind fun _ _ _ => ih (depth + 1)

theorem steps_skipExtend : Lockstep ok (fun _ => ()) skipExtend skipExtend := by
  unfold skipExtend
  refine (Lockstep.expectWord _).bind fun _ _ _ => steps_typeName.bind fun _ _ _ => ?_
  refine (Lockstep.expect _).bind fun _ _ _ => ?_
  exact Lockstep.fuelled (steps_skipBraces 1)

/-! ## Fields and enumerations -/

theorem steps_label : Lockstep ok (fun l => l) label label := by
  unfold label
  refine (Lockstep.acceptWord _).bind fun w _ h => ?_
  subst h
  split <;> exact Lockstep.pure rfl

theorem steps_fieldType : Lockstep ok (fun t => t) fieldType fieldType := by
  unfold fieldType
  refine (Lockstep.look (e := fun b => b) ?_).branch _ ?_ ?_
  · intro c d h
    simp only [Cursor.isWord_eq, Cursor.any_peekAt c 1 (· == .angleOpen),
      Cursor.any_peekAt d 1 (· == .angleOpen), h]
  · refine Lockstep.advance.bind fun _ _ _ => Lockstep.advance.bind fun _ _ _ => ?_
    refine steps_typeName.bind fun key _ hkey => (Lockstep.expect _).bind fun _ _ _ => ?_
    refine steps_typeName.bind fun value _ hvalue => ?_
    refine (Lockstep.expect _).bind fun _ _ _ => Lockstep.pure ?_
    rw [hkey, hvalue]
  · exact steps_typeName.bind fun name _ h => Lockstep.pure (congrArg TypeTree.name h)

theorem steps_field (oneof : Option String) :
    Lockstep ok FieldTree.erase (field oneof) (field oneof) := by
  unfold field
  refine Lockstep.place.bind fun first first' _ => ?_
  refine Lockstep.here.bind fun position position' _ => ?_
  refine steps_label.bind fun l l' hl => steps_fieldType.bind fun t t' ht => ?_
  refine Lockstep.identifier.bind fun name name' hname => (Lockstep.expect _).bind fun _ _ _ => ?_
  refine Lockstep.integer.bind fun n n' hn => steps_bracketOptions.bind fun os os' hos => ?_
  refine (Lockstep.expect _).bind fun _ _ _ => ?_
  refine (Lockstep.declare first first').bind fun _ _ _ => Lockstep.pure ?_
  rw [Token.face_eq_iff] at hname
  simp only [FieldTree.erase, hl, ht, hname.2, hn, hos]

theorem steps_oneofItem (name : String) :
    Lockstep ok (Option.map FieldTree.erase) (oneofItem name) (oneofItem name) := by
  unfold oneofItem
  refine (Lockstep.accept _).branch _ (Lockstep.pure rfl) ((Lockstep.isWord _).branch _ ?_ ?_)
  · exact steps_optionStatement.bind fun _ _ _ => Lockstep.pure rfl
  · exact (steps_field (some name)).bind fun f f' h => Lockstep.pure (congrArg some h)

theorem steps_oneof : Lockstep ok (List.map FieldTree.erase) oneof oneof := by
  unfold oneof
  refine (Lockstep.expectWord _).bind fun _ _ _ => ?_
  refine Lockstep.identifier.bind fun name name' hname => (Lockstep.expect _).bind fun _ _ _ => ?_
  rw [(Token.face_eq_iff.mp hname).2]
  refine (Lockstep.upTo _ (steps_oneofItem name'.value)).bind fun xs ys h => Lockstep.pure ?_
  rw [← List.reduceOption_map, ← List.reduceOption_map, h]

theorem steps_enumMember : Lockstep ok MemberTree.erase enumMember enumMember := by
  unfold enumMember
  refine Lockstep.place.bind fun first first' _ => ?_
  refine Lockstep.identifier.bind fun name name' hname => (Lockstep.expect _).bind fun _ _ _ => ?_
  refine Lockstep.integer.bind fun n n' hn => steps_bracketOptions.bind fun os os' hos => ?_
  refine (Lockstep.expect _).bind fun _ _ _ => ?_
  refine (Lockstep.declare first first').bind fun _ _ _ => Lockstep.pure ?_
  rw [Token.face_eq_iff] at hname
  simp only [MemberTree.erase, hname.2, hn, hos]

theorem steps_enumItem : Lockstep ok (BodyItem.erase MemberTree.erase) enumItem enumItem := by
  unfold enumItem
  refine (Lockstep.accept _).branch _ (Lockstep.pure rfl) ((Lockstep.isWord _).branch _ ?_
    ((Lockstep.isWord _).branch _ ?_ ?_))
  · exact steps_optionStatement.bind fun _ _ h => Lockstep.pure (congrArg BodyItem.options h)
  · exact steps_skipStatement.bind fun _ _ _ => Lockstep.pure rfl
  · exact steps_enumMember.bind fun _ _ h => Lockstep.pure (congrArg BodyItem.element h)

theorem steps_enumDefinition : Lockstep ok EnumTree.erase enumDefinition enumDefinition := by
  unfold enumDefinition
  refine Lockstep.place.bind fun first first' _ => ?_
  refine (Lockstep.expectWord _).bind fun _ _ _ => ?_
  refine Lockstep.identifier.bind fun name name' hname => (Lockstep.expect _).bind fun _ _ _ => ?_
  refine (Lockstep.upTo _ steps_enumItem).bind fun xs ys h => ?_
  refine (Lockstep.declare first first').bind fun _ _ _ => Lockstep.pure ?_
  rw [Token.face_eq_iff] at hname
  simp only [EnumTree.erase, hname.2, map_elements, map_allOptions MemberTree.erase, h]

/-! ## Messages -/

theorem steps_messageItem {p : Parser MessageTree} (hp : Lockstep ok MessageTree.erase p p) :
    Lockstep ok MessageItem.erase (messageItem p) (messageItem p) := by
  unfold messageItem
  refine (Lockstep.accept _).branch _ (Lockstep.pure rfl) ((Lockstep.isWord _).branch _ ?_
    ((Lockstep.isWord _).branch _ ?_ ((Lockstep.isWord _).branch _ ?_
      ((Lockstep.isWord _).branch _ ?_ ((Lockstep.isWord _).branch _ ?_
        ((Lockstep.isWord _).branch _ ?_ ?_))))))
  · exact steps_optionStatement.bind fun _ _ h => Lockstep.pure (congrArg MessageItem.options h)
  · exact hp.bind fun _ _ h => Lockstep.pure (congrArg MessageItem.message h)
  · exact steps_enumDefinition.bind fun _ _ h => Lockstep.pure (congrArg MessageItem.enum h)
  · exact steps_oneof.bind fun _ _ h => Lockstep.pure (congrArg MessageItem.fields h)
  · exact steps_skipStatement.bind fun _ _ _ => Lockstep.pure rfl
  · exact steps_skipExtend.bind fun _ _ _ => Lockstep.pure rfl
  · refine (steps_field none).bind fun f f' h => Lockstep.pure ?_
    simp only [MessageItem.erase, List.map_singleton, h]

theorem steps_messageAux (fuel : Nat) :
    Lockstep ok MessageTree.erase (messageAux fuel) (messageAux fuel) := by
  induction fuel with
  | zero => exact Lockstep.illegal
  | succ fuel ih =>
      unfold messageAux
      refine Lockstep.place.bind fun first first' _ => ?_
      refine (Lockstep.expectWord _).bind fun _ _ _ => ?_
      refine Lockstep.identifier.bind fun name name' hname => ?_
      refine (Lockstep.expect _).bind fun _ _ _ => ?_
      refine (Lockstep.upTo _ (steps_messageItem ih)).bind fun xs ys h => ?_
      refine (Lockstep.declare first first').bind fun _ _ _ => Lockstep.pure ?_
      rw [Token.face_eq_iff] at hname
      simp only [erase_ofItems, hname.2, h]

theorem steps_message : Lockstep ok MessageTree.erase message message :=
  Lockstep.fuelled steps_messageAux

/-! ## Services -/

theorem steps_rpcEnd : Lockstep ok (fun r => r) rpcEnd rpcEnd := by
  unfold rpcEnd
  refine (Lockstep.expect _).bind fun _ _ _ => ?_
  have hname : ∀ stream, Lockstep ok (fun r : EndTree => r)
      (do
        let name ← typeName
        let _ ← expect .parenClose
        return { name, stream })
      (do
        let name ← typeName
        let _ ← expect .parenClose
        return { name, stream }) := by
    intro stream
    refine steps_typeName.bind fun name _ h => ?_
    refine (Lockstep.expect _).bind fun _ _ _ => Lockstep.pure ?_
    rw [h]
  refine (Lockstep.look (e := fun b => b) ?_).bind fun stream _ h => ?_
  · intro c d h
    simp only [Cursor.isWord_eq, Cursor.any_peekAt c 1 (· != .parenClose),
      Cursor.any_peekAt d 1 (· != .parenClose), h]
  · subst h
    cases stream with
    | true => exact Lockstep.advance.bind fun _ _ _ => hname true
    | false => exact hname false

theorem steps_rpcItem : Lockstep ok (List.map OptionTree.erase) rpcItem rpcItem := by
  unfold rpcItem
  exact (Lockstep.accept _).branch _ (Lockstep.pure rfl)
    ((Lockstep.isWord _).branch _ steps_optionStatement Lockstep.illegal)

theorem steps_rpcBody : Lockstep ok (List.map OptionTree.erase) rpcBody rpcBody := by
  unfold rpcBody
  refine (Lockstep.accept _).branch _ ?_ ((Lockstep.expect _).bind fun _ _ _ => Lockstep.pure rfl)
  refine (Lockstep.upTo _ steps_rpcItem).bind fun xs ys h => ?_
  refine (Lockstep.accept _).bind fun _ _ _ => Lockstep.pure ?_
  rw [List.map_flatten, List.map_flatten, h]

theorem steps_rpc : Lockstep ok RpcTree.erase rpc rpc := by
  unfold rpc
  refine Lockstep.place.bind fun first first' _ => ?_
  refine (Lockstep.expectWord _).bind fun _ _ _ => ?_
  refine Lockstep.identifier.bind fun name name' hname => ?_
  refine steps_rpcEnd.bind fun q q' hq => (Lockstep.expectWord _).bind fun _ _ _ => ?_
  refine steps_rpcEnd.bind fun r r' hr => steps_rpcBody.bind fun os os' hos => ?_
  refine (Lockstep.declare first first').bind fun _ _ _ => Lockstep.pure ?_
  rw [Token.face_eq_iff] at hname
  simp only [RpcTree.erase, hname.2, hq, hr, hos]

theorem steps_serviceItem : Lockstep ok (BodyItem.erase RpcTree.erase) serviceItem serviceItem := by
  unfold serviceItem
  refine (Lockstep.accept _).branch _ (Lockstep.pure rfl) ((Lockstep.isWord _).branch _ ?_
    ((Lockstep.isWord _).branch _ ?_ Lockstep.illegal))
  · exact steps_optionStatement.bind fun _ _ h => Lockstep.pure (congrArg BodyItem.options h)
  · exact steps_rpc.bind fun _ _ h => Lockstep.pure (congrArg BodyItem.element h)

theorem steps_serviceDefinition :
    Lockstep ok ServiceTree.erase serviceDefinition serviceDefinition := by
  unfold serviceDefinition
  refine Lockstep.place.bind fun first first' _ => ?_
  refine (Lockstep.expectWord _).bind fun _ _ _ => ?_
  refine Lockstep.identifier.bind fun name name' hname => (Lockstep.expect _).bind fun _ _ _ => ?_
  refine (Lockstep.upTo _ steps_serviceItem).bind fun xs ys h => ?_
  refine (Lockstep.declare first first').bind fun _ _ _ => Lockstep.pure ?_
  rw [Token.face_eq_iff] at hname
  simp only [ServiceTree.erase, hname.2, map_elements, map_allOptions RpcTree.erase, h]

/-! ## Files -/

theorem steps_modifier : Lockstep ok (fun m => m) modifier modifier := by
  unfold modifier
  refine (Lockstep.acceptWord _).bind fun w _ h => ?_
  subst h
  split <;> exact Lockstep.pure rfl

theorem steps_importStatement : Lockstep ok ImportTree.erase importStatement importStatement := by
  unfold importStatement
  refine (Lockstep.expectWord _).bind fun _ _ _ => steps_modifier.bind fun m m' hm => ?_
  refine (Lockstep.expect _).bind fun path path' hpath => ?_
  refine (Lockstep.expect _).bind fun _ _ _ => Lockstep.pure ?_
  rw [Token.face_eq_iff] at hpath
  simp only [ImportTree.erase, hm, hpath.2]

theorem steps_fileItem : Lockstep ok FileItem.erase fileItem fileItem := by
  unfold fileItem
  refine (Lockstep.accept _).branch _ (Lockstep.pure rfl) ((Lockstep.isWord _).branch _ ?_
    ((Lockstep.isWord _).branch _ ?_ ((Lockstep.isWord _).branch _ ?_
      ((Lockstep.isWord _).branch _ ?_ ((Lockstep.isWord _).branch _ ?_
        ((Lockstep.isWord _).branch _ ?_ ((Lockstep.isWord _).branch _ ?_
          ((Lockstep.isWord _).branch _ ?_ Lockstep.illegal))))))))
  · refine Lockstep.advance.bind fun _ _ _ => (Lockstep.expect _).bind fun _ _ _ => ?_
    refine (Lockstep.expect _).bind fun v v' hv => (Lockstep.expect _).bind fun _ _ _ => ?_
    exact Lockstep.pure (congrArg FileItem.edition (Token.face_eq_iff.mp hv).2)
  · refine Lockstep.advance.bind fun _ _ _ => Lockstep.dottedName.bind fun name _ h => ?_
    exact (Lockstep.expect _).bind fun _ _ _ => Lockstep.pure (congrArg FileItem.package h)
  · exact steps_importStatement.bind fun _ _ h => Lockstep.pure (congrArg FileItem.imported h)
  · exact steps_optionStatement.bind fun _ _ h => Lockstep.pure (congrArg FileItem.options h)
  · refine steps_message.bind fun _ _ h => Lockstep.pure ?_
    exact congrArg (fun m => FileItem.definition (.message m)) h
  · refine steps_enumDefinition.bind fun _ _ h => Lockstep.pure ?_
    exact congrArg (fun e => FileItem.definition (.enum e)) h
  · refine steps_serviceDefinition.bind fun _ _ h => Lockstep.pure ?_
    exact congrArg (fun s => FileItem.definition (.service s)) h
  · exact steps_skipExtend.bind fun _ _ _ => Lockstep.pure rfl

/-- A file without its check for earlier failures. -/
theorem steps_items : Lockstep ok Tree.erase
    (do
      let items ← whileDo (fun c => !c.atEnd) fileItem
      return items.foldl Tree.add {})
    (do
      let items ← whileDo (fun c => !c.atEnd) fileItem
      return items.foldl Tree.add {}) := by
  refine (Lockstep.whileDo ?_ steps_fileItem).bind fun items items' h => Lockstep.pure ?_
  · intro c d h
    simp only [Cursor.atEnd_eq, h]
  · rw [erase_foldl_add, erase_foldl_add, h]

end Proto
end ClientGen

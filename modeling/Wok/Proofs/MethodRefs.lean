/-
Module: Wok.Proofs.MethodRefs
Layer: Proofs
Purpose: The rewriting of method names in the body of a default is the replacement of the
  free ones exactly when no method's name is bound where the rewriting looks and none is free
  where it does not.
Imports: Wok.Lib.Refinement, Wok.Spec.MethodRefs
Trusted boundary: none
Main exports: rewrite_eq_subst_iff, default_rewritten_iff
-/
import Wok.Lib.Refinement
import Wok.Spec.MethodRefs

namespace Wok.Proofs.MethodRefs

open Wok.Abs Wok.TypeChecking Wok.Spec.MethodRefs
open Wok.Lib (exceptBind_ok)

/-! ### Occurrences that are treated as they should be -/

section Fits

variable {f : String → Option String}

/-- `Apart`, for the names that are mapped. -/
def Fits (f : String → Option String) (os : List Occ) : Prop :=
  ∀ o ∈ os, (f o.name).isSome → o.bound = o.within

theorem fits_nil : Fits f [] := fun _ h => (nomatch h)

theorem fits_append {os os' : List Occ} : Fits f (os ++ os') ↔ Fits f os ∧ Fits f os' := by
  simp only [Fits, List.mem_append, or_imp, forall_and]

theorem fits_cons {o : Occ} {os : List Occ} : Fits f (o :: os) ↔ Fits f [o] ∧ Fits f os := by
  rw [← fits_append, List.singleton_append]

theorem fits_occ {within : Bool} {scope : List String} {n : String} :
    Fits f [occ within scope n] ↔ ((f n).isSome → decide (n ∈ scope) = within) := by
  simp [Fits, occ]

end Fits

/-! ### The two rewritings -/

section Rewrite

variable {ms : List String} {dictNm : String} {idx : Dict Nat}

/-- A binding's name is not the name of a method. -/
def NewNames (f : String → Option String) : Prop := ∀ n s, f n = some s → s ≠ n

theorem varId_iff {f : String → Option String} (hf : NewNames f) (v : VarId)
    (scope : List String) :
    (v = v.subst f scope ↔ Fits f [occ true scope v.text]) ∧
      ((match f v.text with
        | some s => mkVarId s
        | none => v) = v.subst f scope ↔ Fits f [occ false scope v.text]) := by
  have hne : ∀ s, f v.text = some s → v ≠ mkVarId s ∧ mkVarId s ≠ v := by
    intro s hs
    have := hf v.text s hs
    constructor
    · intro heq
      exact this (congrArg VarId.text heq).symm
    · intro heq
      exact this (congrArg VarId.text heq)
  rw [fits_occ, fits_occ, VarId.subst, freeRef]
  by_cases hmem : v.text ∈ scope
  · cases hs : f v.text with
    | none => simp [hmem]
    | some s => simp [hmem, hne s hs]
  · cases hs : f v.text with
    | none => simp [hmem]
    | some s => simp [hmem, hne s hs]

theorem infixOp_iff (hf : NewNames (methodRef ms dictNm idx)) (op : InfixOp) (within : Bool)
    (scope : List String) :
    (if within then op else goOp ms dictNm idx op) = op.subst (methodRef ms dictNm idx) scope ↔
      Fits (methodRef ms dictNm idx) [occ within scope op.text] := by
  cases op with
  | ioBT v =>
      have hv := varId_iff hf v scope
      cases within with
      | true =>
          rw [if_pos rfl, InfixOp.subst, InfixOp.ioBT.injEq]
          exact hv.1
      | false =>
          rw [if_neg Bool.false_ne_true, InfixOp.subst, goOp, InfixOp.text, ← hv.2]
          cases methodRef ms dictNm idx v.text with
          | none => exact ⟨InfixOp.ioBT.inj, congrArg InfixOp.ioBT⟩
          | some s => exact ⟨InfixOp.ioBT.inj, congrArg InfixOp.ioBT⟩
  | ioSym o =>
      rw [InfixOp.subst, goOp, freeRef, InfixOp.text, fits_occ]
      by_cases hmem : o.text ∈ scope <;> cases within <;>
        cases methodRef ms dictNm idx o.text <;> simp [hmem]

/-- `x` is left as it is where the rewriting does not look. -/
def seen {α : Type} (within : Bool) (r : α → α) (x : α) : α := if within then x else r x

theorem seen_true {α : Type} (r : α → α) (x : α) : seen true r x = x := rfl

theorem seen_false {α : Type} (r : α → α) (x : α) : seen false r x = r x := rfl

mutual

theorem exp_iff (hf : NewNames (methodRef ms dictNm idx)) (within : Bool)
    (scope : List String) : ∀ e : Exp,
    seen within (rewriteMethodRefs ms dictNm idx) e = e.subst (methodRef ms dictNm idx) scope ↔
      Fits (methodRef ms dictNm idx) (e.occs within scope)
  | .eVar v => by
      have hv := varId_iff hf v scope
      cases within with
      | true =>
          rw [seen_true, Exp.subst, Exp.eVar.injEq]
          exact hv.1
      | false =>
          rw [seen_false, Exp.subst, rewriteMethodRefs, Exp.occs, ← hv.2]
          cases methodRef ms dictNm idx v.text with
          | none => exact ⟨Exp.eVar.inj, congrArg Exp.eVar⟩
          | some s => exact ⟨Exp.eVar.inj, congrArg Exp.eVar⟩
  | .eParenOp op => by
      rw [Exp.subst, freeRef, Exp.occs, fits_occ]
      by_cases hmem : op.text ∈ scope <;> cases within <;>
        cases hs : methodRef ms dictNm idx op.text <;>
        simp [hmem, hs, seen, rewriteMethodRefs]
  | .eExpr h tails => by
      have hh := exp_iff hf within scope h
      have ht := tails_iff hf within scope tails
      rw [Exp.occs, fits_append, ← hh, ← ht, Exp.subst]
      cases within <;> simp [seen, rewriteMethodRefs]
  | .eApp a b => by
      have ha := exp_iff hf within scope a
      have hb := exp_iff hf within scope b
      rw [Exp.occs, fits_append, ← ha, ← hb, Exp.subst]
      cases within <;> simp [seen, rewriteMethodRefs]
  | .eProj a v => by
      have ha := exp_iff hf within scope a
      rw [Exp.occs, ← ha, Exp.subst]
      cases within <;> simp [seen, rewriteMethodRefs]
  | .eProjC a c => by
      have ha := exp_iff hf within scope a
      rw [Exp.occs, ← ha, Exp.subst]
      cases within <;> simp [seen, rewriteMethodRefs]
  | .eRecord c fs => by
      have hfs := fields_iff hf within scope fs
      rw [Exp.occs, ← hfs, Exp.subst]
      cases within <;> simp [seen, rewriteMethodRefs]
  | .eRecordExt c a mt => by
      have ha := exp_iff hf within scope a
      have hmt := trailing_iff hf within scope mt
      rw [Exp.occs, fits_append, ← ha, ← hmt, Exp.subst]
      cases within <;> simp [seen, rewriteMethodRefs]
  | .eParen a => by
      have ha := exp_iff hf within scope a
      rw [Exp.occs, ← ha, Exp.subst]
      cases within <;> simp [seen, rewriteMethodRefs]
  | .eList xs => by
      have hxs := exps_iff hf within scope xs
      rw [Exp.occs, ← hxs, Exp.subst]
      cases within <;> simp [seen, rewriteMethodRefs]
  | .eTuple a xs => by
      have ha := exp_iff hf within scope a
      have hxs := exps_iff hf within scope xs
      rw [Exp.occs, fits_append, ← ha, ← hxs, Exp.subst]
      cases within <;> simp [seen, rewriteMethodRefs]
  | .eLam ps a => by
      have ha := exp_iff hf within (atomVarsAll ps ++ scope) a
      rw [Exp.occs, ← ha, Exp.subst]
      cases within <;> simp [seen, rewriteMethodRefs]
  | .eLet ds a => by
      have hds := locals_iff hf within (runNames ds ++ scope) ds
      have ha := exp_iff hf within (groupNames ds ++ scope) a
      rw [Exp.occs, fits_append, ← hds, ← ha, Exp.subst]
      cases within <;> simp [seen, rewriteMethodRefs]
  | .eCase a alts => by
      have ha := exp_iff hf within scope a
      have halts := alts_iff hf within scope alts
      rw [Exp.occs, fits_append, ← ha, ← halts, Exp.subst]
      cases within <;> simp [seen, rewriteMethodRefs]
  | .eIf a b c => by
      have ha := exp_iff hf within scope a
      have hb := exp_iff hf within scope b
      have hc := exp_iff hf within scope c
      rw [Exp.occs, fits_append, fits_append, ← ha, ← hb, ← hc, Exp.subst]
      cases within <;> simp [seen, rewriteMethodRefs, and_assoc]
  | .eWith arms a => by
      have harms := arms_iff hf within scope (paramNames arms ++ scope) arms
      have ha := exp_iff hf within scope a
      rw [Exp.occs, fits_append, ← harms, ← ha, Exp.subst]
      cases within <;> simp [seen, rewriteMethodRefs]
  | .eWithH h hs arms a => by
      have harms := arms_iff hf within scope (paramNames arms ++ scope) arms
      have ha := exp_iff hf within scope a
      rw [Exp.occs, fits_append, ← harms, ← ha, Exp.subst]
      cases within <;> simp [seen, rewriteMethodRefs]
  -- from here on the rewriting does not look, whatever the flag
  | .eWithRun runner args a => by
      have hrunner := (varId_iff hf runner scope).1
      have hargs := args_iff hf scope args
      have ha := exp_iff hf true scope a
      rw [Exp.occs, fits_cons, fits_append, ← hrunner, ← hargs, ← ha, Exp.subst]
      cases within <;> simp [seen, rewriteMethodRefs]
  | .eWithNamed self runner args a => by
      have hrunner := (varId_iff hf runner scope).1
      have hargs := args_iff hf scope args
      have ha := exp_iff hf true (self.text :: scope) a
      rw [Exp.occs, fits_cons, fits_append, ← hrunner, ← hargs, ← ha, Exp.subst]
      cases within <;> simp [seen, rewriteMethodRefs]
  | .eWithNamedH self c arms a => by
      have harms := arms_iff hf true scope (paramNames arms ++ scope) arms
      have ha := exp_iff hf true (self.text :: (paramNames arms ++ scope)) a
      rw [Exp.occs, fits_append, ← harms, ← ha, Exp.subst]
      cases within <;> simp [seen, rewriteMethodRefs]
  | .eHandlerV c arms => by
      have harms := arms_iff hf true scope (paramNames arms ++ scope) arms
      rw [Exp.occs, ← harms, Exp.subst]
      cases within <;> simp [seen, rewriteMethodRefs]
  | .eHandleV h args a => by
      have hh := exp_iff hf true scope h
      have hargs := args_iff hf scope args
      have ha := exp_iff hf true scope a
      rw [Exp.occs, fits_append, fits_append, ← hh, ← hargs, ← ha, Exp.subst]
      cases within <;> simp [seen, rewriteMethodRefs, and_assoc]
  | .eHandleN self h args a => by
      have hh := exp_iff hf true scope h
      have hargs := args_iff hf scope args
      have ha := exp_iff hf true (self.text :: scope) a
      rw [Exp.occs, fits_append, fits_append, ← hh, ← hargs, ← ha, Exp.subst]
      cases within <;> simp [seen, rewriteMethodRefs, and_assoc]
  | .eCon _ | .eLitI _ | .eLitS _ | .eLitC _ | .eUnit => by
      rw [Exp.occs, iff_true_right fits_nil, Exp.subst]
      cases within <;> simp [seen, rewriteMethodRefs]

theorem tail_iff (hf : NewNames (methodRef ms dictNm idx)) (within : Bool)
    (scope : List String) : ∀ t : InfixTail,
    seen within (goTail ms dictNm idx) t = t.subst (methodRef ms dictNm idx) scope ↔
      Fits (methodRef ms dictNm idx) (t.occs within scope)
  | .iTail op a => by
      have hop := infixOp_iff hf op within scope
      have ha := exp_iff hf within scope a
      rw [InfixTail.occs, fits_cons, ← hop, ← ha, InfixTail.subst]
      cases within <;> simp [seen, goTail]

theorem field_iff (hf : NewNames (methodRef ms dictNm idx)) (within : Bool)
    (scope : List String) : ∀ fd : RecordFieldExpr,
    seen within (goField ms dictNm idx) fd = fd.subst (methodRef ms dictNm idx) scope ↔
      Fits (methodRef ms dictNm idx) (fd.occs within scope)
  | .rfExpr v a => by
      have ha := exp_iff hf within scope a
      rw [RecordFieldExpr.occs, ← ha, RecordFieldExpr.subst]
      cases within <;> simp [seen, goField]

theorem trailing_iff (hf : NewNames (methodRef ms dictNm idx)) (within : Bool)
    (scope : List String) : ∀ mt : MaybeTrailing,
    seen within (goTrailing ms dictNm idx) mt = mt.subst (methodRef ms dictNm idx) scope ↔
      Fits (methodRef ms dictNm idx) (mt.occs within scope)
  | .tfNone => by
      rw [MaybeTrailing.occs, iff_true_right fits_nil, MaybeTrailing.subst]
      cases within <;> simp [seen, goTrailing]
  | .tfSome fs => by
      have hfs := fields_iff hf within scope fs
      rw [MaybeTrailing.occs, ← hfs, MaybeTrailing.subst]
      cases within <;> simp [seen, goTrailing]

/-- Arguments stand in forms that the rewriting does not look into. -/
theorem arg_iff (hf : NewNames (methodRef ms dictNm idx)) (scope : List String) :
    ∀ arg : WithArg, arg = arg.subst (methodRef ms dictNm idx) scope ↔
      Fits (methodRef ms dictNm idx) (arg.occs true scope)
  | .wrArg a => by
      have ha := exp_iff hf true scope a
      rw [WithArg.occs, ← ha, WithArg.subst, WithArg.wrArg.injEq]
      rfl

theorem local_iff (hf : NewNames (methodRef ms dictNm idx)) (within : Bool)
    (scope : List String) : ∀ d : LocalDecl,
    seen within (goLocal ms dictNm idx) d = d.subst (methodRef ms dictNm idx) scope ↔
      Fits (methodRef ms dictNm idx) (d.occs within scope)
  | .ldEqn lhs a wh => by
      have ha := exp_iff hf within (wh.names ++ (atomVarsAll (lhsAtomPats lhs) ++ scope)) a
      have hwh := where_iff hf within (atomVarsAll (lhsAtomPats lhs) ++ scope) wh
      rw [LocalDecl.occs, fits_append, ← ha, ← hwh, LocalDecl.subst]
      cases within <;> simp [seen, goLocal]
  | .ldSig name names ty => by
      rw [LocalDecl.occs, iff_true_right fits_nil, LocalDecl.subst]
      cases within <;> simp [seen, goLocal]
  | .ldPat p ps a => by
      have ha := exp_iff hf within scope a
      rw [LocalDecl.occs, ← ha, LocalDecl.subst]
      cases within <;> simp [seen, goLocal]

theorem where_iff (hf : NewNames (methodRef ms dictNm idx)) (within : Bool)
    (scope : List String) : ∀ wh : MaybeWhere,
    seen within (goWhere ms dictNm idx) wh = wh.subst (methodRef ms dictNm idx) scope ↔
      Fits (methodRef ms dictNm idx) (wh.occs within scope)
  | .noWhere => by
      rw [MaybeWhere.occs, iff_true_right fits_nil, MaybeWhere.subst]
      cases within <;> simp [seen, goWhere]
  | .withWh ds => by
      have hds := locals_iff hf within (runNames ds ++ scope) ds
      rw [MaybeWhere.occs, ← hds, MaybeWhere.subst]
      cases within <;> simp [seen, goWhere]

theorem alt_iff (hf : NewNames (methodRef ms dictNm idx)) (within : Bool)
    (scope : List String) : ∀ alt : Alt,
    seen within (goAlt ms dictNm idx) alt = alt.subst (methodRef ms dictNm idx) scope ↔
      Fits (methodRef ms dictNm idx) (alt.occs within scope)
  | .altC p a wh => by
      have ha := exp_iff hf within (wh.names ++ (p.vars ++ scope)) a
      have hwh := where_iff hf within (p.vars ++ scope) wh
      rw [Alt.occs, fits_append, ← ha, ← hwh, Alt.subst]
      cases within <;> simp [seen, goAlt]

theorem arm_iff (hf : NewNames (methodRef ms dictNm idx)) (within : Bool)
    (outer scope : List String) : ∀ arm : HandlerArm,
    seen within (goArm ms dictNm idx) arm = arm.subst (methodRef ms dictNm idx) outer scope ↔
      Fits (methodRef ms dictNm idx) (arm.occs within outer scope)
  | .hArm _ _ ps a | .huArm _ ps a | .hOnceArm _ _ ps a | .hOnceUArm _ ps a => by
      have ha := exp_iff hf within (atomVarsAll ps ++ scope) a
      rw [HandlerArm.occs, ← ha, HandlerArm.subst]
      cases within <;> simp [seen, goArm]
  | .hRetArm p a => by
      have ha := exp_iff hf within (p.vars ++ scope) a
      rw [HandlerArm.occs, ← ha, HandlerArm.subst]
      cases within <;> simp [seen, goArm]
  | .hParam _ a | .hParamV _ a => by
      have ha := exp_iff hf within outer a
      rw [HandlerArm.occs, ← ha, HandlerArm.subst]
      cases within <;> simp [seen, goArm]

theorem exps_iff (hf : NewNames (methodRef ms dictNm idx)) (within : Bool)
    (scope : List String) : ∀ xs : List Exp,
    seen within (goExps ms dictNm idx) xs = substExps (methodRef ms dictNm idx) scope xs ↔
      Fits (methodRef ms dictNm idx) (occsExps within scope xs)
  | [] => by
      rw [occsExps, iff_true_right fits_nil, substExps]
      cases within <;> simp [seen, goExps]
  | a :: xs => by
      have ha := exp_iff hf within scope a
      have hxs := exps_iff hf within scope xs
      rw [occsExps, fits_append, ← ha, ← hxs, substExps]
      cases within <;> simp [seen, goExps]

theorem tails_iff (hf : NewNames (methodRef ms dictNm idx)) (within : Bool)
    (scope : List String) : ∀ xs : List InfixTail,
    seen within (goTails ms dictNm idx) xs = substTails (methodRef ms dictNm idx) scope xs ↔
      Fits (methodRef ms dictNm idx) (occsTails within scope xs)
  | [] => by
      rw [occsTails, iff_true_right fits_nil, substTails]
      cases within <;> simp [seen, goTails]
  | t :: xs => by
      have ht := tail_iff hf within scope t
      have hxs := tails_iff hf within scope xs
      rw [occsTails, fits_append, ← ht, ← hxs, substTails]
      cases within <;> simp [seen, goTails]

theorem fields_iff (hf : NewNames (methodRef ms dictNm idx)) (within : Bool)
    (scope : List String) : ∀ xs : List RecordFieldExpr,
    seen within (goFieldExprs ms dictNm idx) xs = substFields (methodRef ms dictNm idx) scope xs ↔
      Fits (methodRef ms dictNm idx) (occsFields within scope xs)
  | [] => by
      rw [occsFields, iff_true_right fits_nil, substFields]
      cases within <;> simp [seen, goFieldExprs]
  | fd :: xs => by
      have hfd := field_iff hf within scope fd
      have hxs := fields_iff hf within scope xs
      rw [occsFields, fits_append, ← hfd, ← hxs, substFields]
      cases within <;> simp [seen, goFieldExprs]

theorem args_iff (hf : NewNames (methodRef ms dictNm idx)) (scope : List String) :
    ∀ xs : List WithArg, xs = substArgs (methodRef ms dictNm idx) scope xs ↔
      Fits (methodRef ms dictNm idx) (occsArgs true scope xs)
  | [] => by
      rw [occsArgs, iff_true_right fits_nil, substArgs]
  | arg :: xs => by
      have harg := arg_iff hf scope arg
      have hxs := args_iff hf scope xs
      rw [occsArgs, fits_append, ← harg, ← hxs, substArgs, List.cons.injEq]

theorem locals_iff (hf : NewNames (methodRef ms dictNm idx)) (within : Bool)
    (scope : List String) : ∀ xs : List LocalDecl,
    seen within (goLocals ms dictNm idx) xs = substLocals (methodRef ms dictNm idx) scope xs ↔
      Fits (methodRef ms dictNm idx) (occsLocals within scope xs)
  | [] => by
      rw [occsLocals, iff_true_right fits_nil, substLocals]
      cases within <;> simp [seen, goLocals]
  | d :: xs => by
      have hd := local_iff hf within scope d
      have hxs := locals_iff hf within (d.scopeAfter xs scope) xs
      rw [occsLocals, fits_append, ← hd, ← hxs, substLocals]
      cases within <;> simp [seen, goLocals]

theorem alts_iff (hf : NewNames (methodRef ms dictNm idx)) (within : Bool)
    (scope : List String) : ∀ xs : List Alt,
    seen within (goAlts ms dictNm idx) xs = substAlts (methodRef ms dictNm idx) scope xs ↔
      Fits (methodRef ms dictNm idx) (occsAlts within scope xs)
  | [] => by
      rw [occsAlts, iff_true_right fits_nil, substAlts]
      cases within <;> simp [seen, goAlts]
  | alt :: xs => by
      have halt := alt_iff hf within scope alt
      have hxs := alts_iff hf within scope xs
      rw [occsAlts, fits_append, ← halt, ← hxs, substAlts]
      cases within <;> simp [seen, goAlts]

theorem arms_iff (hf : NewNames (methodRef ms dictNm idx)) (within : Bool)
    (outer scope : List String) : ∀ xs : List HandlerArm,
    seen within (goArms ms dictNm idx) xs = substArms (methodRef ms dictNm idx) outer scope xs ↔
      Fits (methodRef ms dictNm idx) (occsArms within outer scope xs)
  | [] => by
      rw [occsArms, iff_true_right fits_nil, substArms]
      cases within <;> simp [seen, goArms]
  | arm :: xs => by
      have harm := arm_iff hf within outer scope arm
      have hxs := arms_iff hf within outer scope xs
      rw [occsArms, fits_append, ← harm, ← hxs, substArms]
      cases within <;> simp [seen, goArms]

end

end Rewrite

/-! ### The names of the bindings -/

theorem synthName_not_lexical {mn : MethodName} (hlex : Lexical mn) {dictNm : String}
    (hdict : ∃ rest, dictNm = "dict$" ++ rest) (k : Nat) :
    synthName dictNm k ≠ methodNameText mn := by
  obtain ⟨rest, rfl⟩ := hdict
  have hchars : (synthName ("dict$" ++ rest) k).toList =
      'd' :: 'i' :: 'c' :: 't' :: '$' :: (rest ++ "$m" ++ toString k).toList := by
    simp [synthName, String.toList_append]
  intro heq
  cases mn with
  | mnBare v =>
      apply hlex
      rw [show v.text = _ from heq.symm, hchars]
      simp
  | mnParen op =>
      have hmem : 'd' ∈ op.text.toList := by
        rw [show op.text = _ from heq.symm, hchars]
        simp
      exact absurd (hlex 'd' hmem) (by decide)

theorem methodRef_eq_sibling (ms : List String) (dictNm n : String) :
    methodRef ms dictNm (methodIndex ms) n = sibling ms dictNm n := by
  rw [methodRef, methodIndex, Dict.lookup_fromList, sibling]
  split
  · rfl
  · rename_i hn
    have hnone : ms.zipIdx.reverse.lookup n = none := by
      rw [List.lookup_eq_none_iff]
      intro e he
      have hmem : e.1 ∈ ms := List.fst_mem_of_mem_zipIdx (List.mem_reverse.mp he)
      rw [bne_iff_ne]
      rintro rfl
      exact hn hmem
    rw [hnone]
    rfl

theorem sibling_isSome_iff (ms : List String) (dictNm n : String) :
    (sibling ms dictNm n).isSome ↔ n ∈ ms := by
  rw [sibling, Option.isSome_map]
  constructor
  · intro h
    obtain ⟨k, hk⟩ := Option.isSome_iff_exists.mp h
    obtain ⟨l₁, l₂, heq, -⟩ := List.lookup_eq_some_iff.mp hk
    have hmem : (n, k) ∈ ms.zipIdx := by
      rw [← List.mem_reverse, heq]
      simp
    exact List.fst_mem_of_mem_zipIdx hmem
  · intro hn
    by_contra hnone
    rw [Option.not_isSome_iff_eq_none, List.lookup_eq_none_iff] at hnone
    obtain ⟨k, hk, rfl⟩ := List.getElem_of_mem hn
    have := hnone (ms[k], k) (by simp [List.mem_zipIdx_iff_getElem?])
    simp at this

/-- The binding is the one for a method of that name. -/
theorem sibling_eq_some {ms : List String} {dictNm n s : String}
    (h : sibling ms dictNm n = some s) : ∃ k, ms[k]? = some n ∧ s = synthName dictNm k := by
  obtain ⟨k, hk, rfl⟩ := Option.map_eq_some_iff.mp h
  obtain ⟨l₁, l₂, heq, -⟩ := List.lookup_eq_some_iff.mp hk
  have hmem : (n, k) ∈ ms.zipIdx := by
    rw [← List.mem_reverse, heq]
    simp
  exact ⟨k, by simpa using List.mem_zipIdx_iff_getElem?.mp hmem, rfl⟩

/-- The body of a default, for the methods of a class and any names in scope. -/
theorem rewrite_eq_subst_iff {ms : List String} {dictNm : String}
    (hnew : ∀ m ∈ ms, ∀ k, synthName dictNm k ≠ m) (scope : List String) (body : Exp) :
    rewriteMethodRefs ms dictNm (methodIndex ms) body =
        body.subst (sibling ms dictNm) scope ↔
      Apart ms (body.occs false scope) := by
  have hf : NewNames (methodRef ms dictNm (methodIndex ms)) := by
    intro n s hs
    rw [methodRef_eq_sibling] at hs
    obtain ⟨k, hk, rfl⟩ := sibling_eq_some hs
    exact hnew n (List.mem_of_getElem? hk) k
  have hfun : methodRef ms dictNm (methodIndex ms) = sibling ms dictNm :=
    funext (methodRef_eq_sibling ms dictNm)
  have hiff := exp_iff hf false scope body
  rw [seen_false] at hiff
  rw [← hfun, hiff, Fits, Apart, hfun]
  simp only [sibling_isSome_iff]

/-! ### The bindings of an instance -/

theorem methodBindings_eqn {entries : List (ClassEntry AtomPat Exp)}
    {impls : List (String × Eqn)} {ctx : List Abs.Constraint} {param : String} {headArg : Abs.Ty}
    {dictNm : String} {sigs : List (MethodName × Abs.Ty)} {j : Nat} {bs : List SynthDecl}
    (h : methodBindings entries impls ctx param headArg dictNm j sigs = .ok bs) {k : Nat}
    {mn : MethodName} {mty : Abs.Ty} (hk : sigs[k]? = some (mn, mty)) :
    ∃ eqn, methodEqn entries impls dictNm (methodNameText mn) (synthName dictNm (j + k)) =
        .ok eqn ∧ bs[2 * k + 1]? = some eqn := by
  induction sigs generalizing j k bs with
  | nil => cases hk
  | cons sig sigs ih =>
      obtain ⟨mn₀, mty₀⟩ := sig
      rw [methodBindings] at h
      obtain ⟨eqn, heqn, h⟩ := exceptBind_ok h
      obtain ⟨rest, hrest, h⟩ := exceptBind_ok h
      cases h
      cases k with
      | zero =>
          cases hk
          exact ⟨eqn, heqn, rfl⟩
      | succ k =>
          obtain ⟨eqn', heqn', hget⟩ := ih hrest hk
          refine ⟨eqn', ?_, hget⟩
          rwa [show j + (k + 1) = j + 1 + k by omega]

theorem instanceDictName_form {inst : Abs.Decl AtomPat Exp} {dictNm : String}
    (h : instanceDictName inst = .ok dictNm) : ∃ rest, dictNm = "dict$" ++ rest := by
  cases inst with
  | dClass => cases h
  | dInstance ihead entries =>
      rw [instanceDictName] at h
      obtain ⟨argTy, -, h⟩ := exceptBind_ok h
      obtain ⟨headTy, -, h⟩ := exceptBind_ok h
      obtain ⟨hc, -, h⟩ := exceptBind_ok h
      cases h
      refine ⟨(splitHead ihead).2.1 ++ "$" ++ tyConKey hc, ?_⟩
      simp only [dictName, splitHead, String.append_assoc]

/-- The binding that an instance gets from the default of a method: its body is the default's,
with the free occurrences of the class's methods replaced by the instance's own bindings,
exactly when every occurrence of a method's name in it is free and outside of the six forms,
or bound and within one. -/
theorem default_rewritten_iff {classDecls : List (Abs.Decl AtomPat Exp)} {ihead : Abs.InstHead}
    {instEntries : List (InstEntry AtomPat Exp)} {bindings : List SynthDecl} {param : String}
    {entries : List (ClassEntry AtomPat Exp)}
    (h : instanceBindings classDecls (.dInstance ihead instEntries) = .ok bindings)
    (hcls : classEntries classDecls (splitHead ihead).2.1 = .ok (param, entries))
    (hlex : ∀ sig ∈ classSigs entries, Lexical sig.1) {k : Nat} {mn : MethodName} {mty : Abs.Ty}
    {lhs : FunLHS AtomPat} {body : Exp} (hk : (classSigs entries)[k]? = some (mn, mty))
    (himpl : (implEqns instEntries).lookup (methodNameText mn) = none)
    (hdef : (defaultEqns entries).lookup (methodNameText mn) = some (lhs, body)) :
    ∃ dictNm body', instanceDictName (.dInstance ihead instEntries) = .ok dictNm ∧
      bindings[2 * k + 1]? = some (.dEqn
        (.lhsPre (.fnBare (mkVarId (synthName dictNm k))) (lhsAtomPats lhs)) body') ∧
      (body' = body.subst (sibling (methodNames entries) dictNm)
          (atomVarsAll (lhsAtomPats lhs)) ↔
        Apart (methodNames entries) (body.occs false (atomVarsAll (lhsAtomPats lhs)))) := by
  rw [instanceBindings] at h
  obtain ⟨⟨param', entries'⟩, hcls', h⟩ := exceptBind_ok h
  obtain ⟨rfl, rfl⟩ := Prod.mk.inj (Except.ok.inj (hcls.symm.trans hcls'))
  obtain ⟨headArg, -, h⟩ := exceptBind_ok h
  obtain ⟨dictNm, hdict, h⟩ := exceptBind_ok h
  obtain ⟨bs, hbs, h⟩ := exceptBind_ok h
  cases h
  obtain ⟨eqn, heqn, hget⟩ := methodBindings_eqn hbs hk
  rw [methodEqn, himpl, hdef, Nat.zero_add] at heqn
  cases heqn
  have hnew : ∀ m ∈ methodNames entries, ∀ k, synthName dictNm k ≠ m := by
    intro m hm k
    obtain ⟨sig, hsig, rfl⟩ := List.mem_map.mp hm
    exact synthName_not_lexical (hlex sig hsig) (instanceDictName_form hdict) k
  refine ⟨dictNm, _, hdict, ?_, rewrite_eq_subst_iff hnew _ body⟩
  rw [List.getElem?_append_left (List.getElem?_eq_some_iff.mp hget).1]
  exact hget

/-! ### A class of equality -/

section Example

private def ident (col : Int) (t : String) : Abs.VarId := ⟨(1, col), t⟩

private def arg (t : String) : AtomPat := .apVar (ident 4 t)

private def eqSig (m : String) : ClassEntry AtomPat Exp :=
  .ceSig (.mnBare (ident 1 m)) (.tFun (.tVar (ident 1 "a")) (.tVar (ident 1 "a")))

/-- `eq` and `ne`, with the default `ne p = body`. -/
def eqEntries (p : String) (body : Exp) : List (ClassEntry AtomPat Exp) :=
  [eqSig "eq", eqSig "ne", .ceDefault (.lhsPre (.fnBare (ident 1 "ne")) [arg p]) body]

def eqClass (p : String) (body : Exp) : Abs.Decl AtomPat Exp :=
  .dClass ⟨(1, 1), "Eq", by decide⟩ [ident 1 "a"] (eqEntries p body)

def eqHead : Abs.InstHead :=
  .ihPlain ⟨(1, 1), "Eq", by decide⟩ [.tCon (.mpName ⟨(1, 1), "U64", Abs.u64_plain⟩)]

/-- The instance for `U64` has `eq` only. -/
def eqImpls : List (InstEntry AtomPat Exp) :=
  [.ieImpl (.lhsPre (.fnBare (ident 1 "eq")) [arg "x"]) (.eVar (ident 8 "x"))]

def eqBindings (p : String) (body : Exp) : List SynthDecl :=
  (instanceBindings [eqClass p body] (.dInstance eqHead eqImpls)).toOption.getD []

theorem eqEntries_lexical (p : String) (body : Exp) :
    ∀ sig ∈ classSigs (eqEntries p body), Lexical sig.1 := by
  have hsigs : (classSigs (eqEntries p body)).map (·.1) =
      [.mnBare (ident 1 "eq"), .mnBare (ident 1 "ne")] := rfl
  intro sig hsig
  have hmem := List.mem_map_of_mem (f := (·.1)) hsig
  simp only [hsigs, List.mem_cons, List.not_mem_nil, or_false] at hmem
  rcases hmem with heq | heq <;> rw [heq] <;> simp [Lexical, ident]

/-- `ne x = eq x`. -/
def neBody : Exp := .eApp (.eVar (ident 8 "eq")) (.eVar (ident 11 "x"))

theorem ne_rewritten :
    ∃ dictNm body', instanceDictName (.dInstance eqHead eqImpls) = .ok dictNm ∧
      (eqBindings "x" neBody)[3]? = some (.dEqn
        (.lhsPre (.fnBare (mkVarId (synthName dictNm 1))) [arg "x"]) body') ∧
      (body' = neBody.subst (sibling ["eq", "ne"] dictNm) ["x"] ↔
        Apart ["eq", "ne"] (neBody.occs false ["x"])) := by
  have hok : instanceBindings [eqClass "x" neBody] (.dInstance eqHead eqImpls) =
      .ok (eqBindings "x" neBody) := rfl
  have hcls : classEntries [eqClass "x" neBody] "Eq" = .ok ("a", eqEntries "x" neBody) := rfl
  exact default_rewritten_iff hok hcls (eqEntries_lexical "x" neBody) (k := 1) rfl rfl rfl

/-- `ne eq = eq`: the body becomes the instance's `eq`, where the parameter is meant. -/
theorem parameter_rewritten :
    (eqBindings "eq" (.eVar (ident 9 "eq")))[3]? = some (.dEqn
        (.lhsPre (.fnBare (mkVarId "dict$Eq$U64$m1")) [arg "eq"])
        (.eVar (mkVarId "dict$Eq$U64$m0"))) ∧
      (Exp.eVar (ident 9 "eq")).subst (sibling ["eq", "ne"] "dict$Eq$U64") ["eq"] =
        .eVar (ident 9 "eq") ∧
      Exp.eVar (mkVarId "dict$Eq$U64$m0") ≠ .eVar (ident 9 "eq") := by
  refine ⟨rfl, rfl, ?_⟩
  intro heq
  have htext := congrArg Abs.VarId.text (Exp.eVar.inj heq)
  revert htext
  decide

end Example

end Wok.Proofs.MethodRefs

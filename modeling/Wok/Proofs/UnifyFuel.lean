/-
Module: Wok.Proofs.UnifyFuel
Purpose: More fuel does not change a result of the unifier or of what it calls.
Imports: Wok.TypeChecking.Unify
Trusted boundary: none
Main exports: force_steady, freezeWith_steady, occursAdjust_steady, unify_steady
-/
import Wok.TypeChecking.Unify

namespace Wok.TypeChecking

open Wok.Lib Wok.Lib.PartialM

variable {α : Type} {sp : SourceSpan} {lvl : Int} {x y : TC α}

theorem outOfFuel_extends (x : TC α) : PartialM.Extends outOfFuel x := fun _ _ h => nomatch h

theorem Extends.catchTC {f g : TypeError → TC α} (h : PartialM.Extends x y)
    (hf : ∀ e, PartialM.Extends (f e) (g e)) :
    PartialM.Extends (catchTC x f) (catchTC y g) := by
  intro s r hrun
  unfold TypeChecking.catchTC at hrun ⊢
  split at hrun
  · next e s' hx =>
      rw [h hx]
      exact hf e hrun
  · next hne =>
      rw [h hrun]
      split
      · next e s' heq =>
          cases heq
          exact absurd hrun (hne e s')
      · rfl

theorem force_steady (t : Ty) : Steady fun n => force n t := by
  intro n
  induction n generalizing t with
  | zero => exact outOfFuel_extends _
  | succ n ih =>
      cases t with
      | var r =>
          apply Extends.bind (.refl _)
          intro tv
          cases tv with
          | link t' => exact (ih t').bind fun _ => .refl _
          | unbound u l k => exact .refl _
          | rigid u l k => exact .refl _
      | _ => exact .refl _

theorem freezeWith_steady (rigid : Nat → TC CType) (message : String) (t : Ty) :
    Steady fun n => freezeWith rigid message n t := by
  intro n
  induction n generalizing t with
  | zero => exact outOfFuel_extends _
  | succ n ih =>
      apply Extends.bind (force_steady t n)
      intro t'
      cases t' with
      | con c ts => exact (Extends.mapM ts ih).bind fun _ => .refl _
      | arr a r b =>
          exact (ih a).bind fun _ => (ih r).bind fun _ => (ih b).bind fun _ => .refl _
      | record tag row => exact (ih row).bind fun _ => .refl _
      | rowEmpty => exact .refl _
      | rowExtend l p r => exact (ih p).bind fun _ => (ih r).bind fun _ => .refl _
      | var r => exact .refl _

theorem freeze_steady (t : Ty) : Steady fun n => freeze n t := freezeWith_steady _ _ t

theorem freezeTolerant_steady (t : Ty) : Steady fun n => freezeTolerant n t :=
  freezeWith_steady _ _ t

theorem kindOf_steady (t : Ty) : Steady fun n => kindOf n t := by
  intro n
  induction n generalizing t with
  | zero => exact outOfFuel_extends _
  | succ n ih =>
      apply Extends.bind (force_steady t n)
      intro t'
      cases t' with
      | var r =>
          apply Extends.bind (.refl _)
          intro tv
          cases tv with
          | link u => exact ih u
          | unbound u l k => exact .refl _
          | rigid u l k => exact .refl _
      | _ => exact .refl _

theorem rowTailRef_steady (t : Ty) : Steady fun n => rowTailRef n t := by
  intro n
  induction n generalizing t with
  | zero => exact outOfFuel_extends _
  | succ n ih =>
      apply Extends.bind (force_steady t n)
      intro t'
      cases t' with
      | rowExtend l p rest => exact ih rest
      | _ => exact .refl _

theorem collectRowPairs_steady (t : Ty) : Steady fun n => collectRowPairs n t := by
  intro n
  induction n generalizing t with
  | zero => exact outOfFuel_extends _
  | succ n ih =>
      apply Extends.bind (force_steady t n)
      intro t'
      cases t' with
      | rowExtend l p rest => exact (ih rest).bind fun _ => .refl _
      | _ => exact .refl _

theorem checkGroup_steady (sp : SourceSpan) (g : String × List Ty) :
    Steady fun n => checkGroup sp n g := by
  intro n
  rcases g with ⟨l, _ | ⟨t₁, _ | ⟨t₂, ts⟩⟩⟩
  · exact .refl _
  · exact .refl _
  · exact (freeze_steady t₁ n).bind fun _ => (freeze_steady t₂ n).bind fun _ => .refl _

theorem warnOnShadow_steady (sp : SourceSpan) (t : Ty) : Steady fun n => warnOnShadow sp n t := by
  intro n
  apply Extends.bind (collectRowPairs_steady t n)
  intro pairs
  exact Extends.forM _ fun g => checkGroup_steady sp g n

theorem warnIfRecordShadow_steady (sp : SourceSpan) (t : Ty) :
    Steady fun n => warnIfRecordShadow sp n t := by
  intro n
  apply Extends.bind (force_steady t n)
  intro t'
  cases t' with
  | record tag row => exact warnOnShadow_steady sp row n
  | _ => exact .refl _

theorem occursAdjust_steady (target : Nat) (t : Ty) :
    Steady fun n => occursAdjust sp target lvl n t := by
  intro n
  induction n generalizing t with
  | zero => exact outOfFuel_extends _
  | succ n ih =>
      cases t with
      | var r =>
          apply Extends.ite (.refl _)
          apply Extends.bind (.refl _)
          intro tv
          cases tv with
          | link t' => exact ih t'
          | unbound u l k => exact .refl _
          | rigid u l k => exact .refl _
      | con c ts => exact Extends.forM ts ih
      | arr a r b => exact (ih a).bind fun _ => (ih r).bind fun _ => ih b
      | record tag row => exact ih row
      | rowEmpty => exact .refl _
      | rowExtend l p rest => exact (ih p).bind fun _ => ih rest

theorem rigidUnify_steady (ref u : Nat) (rlvl : Int) (rk : Kind) (t : Ty) :
    Steady fun n => rigidUnify sp n ref u rlvl rk t := by
  intro n
  cases t with
  | var r' =>
      apply Extends.ite (.refl _)
      apply Extends.bind (.refl _)
      intro tv
      cases tv with
      | link t' => exact .refl _
      | unbound u l k =>
          apply Extends.ite
          · exact (freezeTolerant_steady _ n).bind fun _ =>
              (freezeTolerant_steady _ n).bind fun _ => .refl _
          · exact .refl _
      | rigid u l k => exact .refl _
  | _ => exact .refl _

theorem unifyVar_steady (ref : Nat) (t : Ty) : Steady fun n => unifyVar sp n ref t := by
  intro n
  apply Extends.bind (.refl _)
  intro tv
  cases tv with
  | link t' => exact .refl _
  | rigid u l k => exact rigidUnify_steady ref u l k t n
  | unbound u l k =>
      apply Extends.bind (kindOf_steady t n)
      intro tk
      apply Extends.ite
      · exact (freeze_steady _ n).bind fun _ => (freeze_steady _ n).bind fun _ => .refl _
      · exact (occursAdjust_steady ref t n).bind fun _ => .refl _

theorem rewriteRowGuarded_steady (forbidden : Option Nat) (l : String) (t : Ty) :
    Steady fun n => rewriteRowGuarded sp lvl forbidden l n t := by
  intro n
  induction n generalizing t with
  | zero => exact outOfFuel_extends _
  | succ n ih =>
      apply Extends.bind (force_steady t n)
      intro t'
      cases t' with
      | rowExtend l' p rest =>
          apply Extends.ite (.refl _)
          exact (ih rest).bind fun _ => .refl _
      | var r =>
          apply Extends.ite (.refl _)
          apply Extends.bind (.refl _)
          intro tFresh
          apply Extends.bind (.refl _)
          intro restFresh
          exact (unifyVar_steady r _ n).bind fun _ => .refl _
      | _ => exact .refl _

theorem reportPair_steady (report : CType → CType → TypeError) (a b : Ty) :
    Steady fun n => (reportPair n report a b : TC α) :=
  fun n => (freeze_steady a n).bind fun _ => (freeze_steady b n).bind fun _ => .refl _

theorem rowReport_steady (sp : SourceSpan) (a b : Ty) (e : TypeError) :
    Steady fun n => (rowReport sp n a b e : TC α) := by
  intro n
  cases e with
  | unknownField sp' tag label => exact reportPair_steady _ a b n
  | _ => exact .refl _

theorem unify_steady (a b : Ty) : Steady fun n => unify sp lvl n a b := by
  intro n
  induction n generalizing a b with
  | zero => exact outOfFuel_extends _
  | succ n ih =>
      apply Extends.bind (force_steady a n)
      intro a'
      apply Extends.bind (force_steady b n)
      intro b'
      have hvar : ∀ r t, PartialM.Extends
          (unifyVar sp n r t >>= fun _ => warnIfRecordShadow sp n t)
          (unifyVar sp (n + 1) r t >>= fun _ => warnIfRecordShadow sp (n + 1) t) :=
        fun r t => (unifyVar_steady r t n).bind fun _ => warnIfRecordShadow_steady sp t n
      have hrow : ∀ l p rest b', PartialM.Extends
          (rowTailRef n rest >>= fun sharedTail =>
            catchTC (rewriteRowGuarded sp lvl sharedTail l n b')
              (rowReport sp n (.rowExtend l p rest) b') >>= fun e =>
            unify sp lvl n p e.1 >>= fun _ => unify sp lvl n rest e.2)
          (rowTailRef (n + 1) rest >>= fun sharedTail =>
            catchTC (rewriteRowGuarded sp lvl sharedTail l (n + 1) b')
              (rowReport sp (n + 1) (.rowExtend l p rest) b') >>= fun e =>
            unify sp lvl (n + 1) p e.1 >>= fun _ => unify sp lvl (n + 1) rest e.2) := by
        intro l p rest b'
        apply Extends.bind (rowTailRef_steady rest n)
        intro sharedTail
        apply Extends.bind
        · apply Extends.catchTC (rewriteRowGuarded_steady sharedTail l b' n)
          intro e
          exact rowReport_steady sp _ b' e n
        · intro e
          exact (ih p e.1).bind fun _ => ih rest e.2
      cases a' with
      | var r₁ =>
          cases b' with
          | var r₂ => exact Extends.ite (.refl _) (hvar r₁ _)
          | _ => exact hvar r₁ _
      | con c₁ ts₁ =>
          cases b' with
          | var r₂ => exact hvar r₂ _
          | con c₂ ts₂ =>
              apply Extends.ite
              · exact Extends.forM _ fun p => ih p.1 p.2
              · exact reportPair_steady _ _ _ n
          | _ => exact reportPair_steady _ _ _ n
      | arr a₁ e₁ b₁ =>
          cases b' with
          | var r₂ => exact hvar r₂ _
          | arr a₂ e₂ b₂ => exact (ih a₁ a₂).bind fun _ => (ih e₁ e₂).bind fun _ => ih b₁ b₂
          | _ => exact reportPair_steady _ _ _ n
      | record tag₁ row₁ =>
          cases b' with
          | var r₂ => exact hvar r₂ _
          | record tag₂ row₂ =>
              apply Extends.ite (.refl _)
              exact (ih row₁ row₂).bind fun _ => warnOnShadow_steady sp row₁ n
          | _ => exact reportPair_steady _ _ _ n
      | rowEmpty =>
          cases b' with
          | var r₂ => exact hvar r₂ _
          | rowEmpty => exact .refl _
          | rowExtend l t r => exact reportPair_steady _ _ _ n
          | _ => exact reportPair_steady _ _ _ n
      | rowExtend l p rest =>
          cases b' with
          | var r₂ => exact hvar r₂ _
          | _ => exact hrow l p rest _

end Wok.TypeChecking

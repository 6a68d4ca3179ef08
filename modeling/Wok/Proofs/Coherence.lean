/-
Module: Wok.Proofs.Coherence
Purpose: Coherence of the instances of environments that are built by registrations and
  overlays, and what the resolver owes to it.
Imports: Wok.Proofs.Instances
Trusted boundary: none
Main exports: dictName_inj, Coherent.of_dict, resolve_congr, built_coherent
-/
import Wok.Proofs.Instances

namespace Wok.TypeChecking

open Wok.Lib (exceptBind_ok)

variable {P E : Type} {env env' : Env E}

/-! ### Dictionary names -/

theorem append_dollar_inj {as bs cs ds : List Char} (ha : '$' ∉ as) (hc : '$' ∉ cs)
    (h : as ++ '$' :: bs = cs ++ '$' :: ds) : as = cs := by
  induction as generalizing cs with
  | nil =>
      cases cs with
      | nil => rfl
      | cons c cs =>
          have hhead : '$' = c := (List.cons.inj h).1
          exact absurd (hhead ▸ List.mem_cons_self) hc
  | cons a as ih =>
      cases cs with
      | nil =>
          have hhead : a = '$' := (List.cons.inj h).1
          exact absurd (hhead ▸ List.mem_cons_self) ha
      | cons c cs =>
          obtain ⟨rfl, htail⟩ := List.cons.inj h
          rw [ih (fun hm => ha (List.mem_cons_of_mem _ hm))
            (fun hm => hc (List.mem_cons_of_mem _ hm)) htail]

/-- A dictionary name tells the class. -/
theorem dictName_inj {cls cls' : String} {c c' : TyCon} (h₁ : '$' ∉ cls.toList)
    (h₂ : '$' ∉ cls'.toList) (h : dictName cls c = dictName cls' c') : cls = cls' := by
  have hchars := congrArg String.toList h
  simp only [dictName, String.toList_append, List.append_assoc] at hchars
  have hrest := List.append_cancel_left hchars
  exact String.toList_injective (append_dollar_inj h₁ h₂ hrest)

/-- The name of an instance's dictionary is made of its class and its type constructor. -/
def WellNamed (i : Env.InstanceInfo E) : Prop :=
  '$' ∉ i.cls.toList ∧ ∃ c, headCon i.head = some c ∧ i.dictName = dictName i.cls c

theorem IsInstance.wellNamed {d : Abs.Decl P E} {i : Env.InstanceInfo E}
    (h : IsInstance env d i) : WellNamed i := ⟨h.plain, h.con⟩

/-- Where dictionary names are made so, it is enough that each names one instance. -/
theorem Coherent.of_dict (hnamed : ∀ i ∈ env.instances, WellNamed i)
    (hdict : ∀ i ∈ env.instances, ∀ j ∈ env.instances, i.dictName = j.dictName → i = j) :
    Coherent env where
  head i hi j hj hcls hhead := by
    obtain ⟨-, c, hc, hname⟩ := hnamed i hi
    obtain ⟨-, c', hc', hname'⟩ := hnamed j hj
    rw [hc, hc', Option.some.injEq] at hhead
    exact hdict i hi j hj (by rw [hname, hname', hcls, hhead])
  dict := hdict

/-! ### Overlays -/

variable [DecidableEq E]

theorem overlayEnvs_instances {e₁ e₂ : Env E} (h : overlayEnvs e₁ e₂ = .ok env)
    (i : Env.InstanceInfo E) : i ∈ env.instances ↔ i ∈ e₁.instances ∨ i ∈ e₂.instances := by
  simp only [overlayEnvs] at h
  split at h
  · cases h
    rw [List.mem_eraseDups, List.mem_append]
  · cases h

theorem foldlM_overlayEnvs_instances {seed : Env E} {imports : List (Env E)}
    (h : imports.foldlM overlayEnvs seed = .ok env) (i : Env.InstanceInfo E) :
    i ∈ env.instances ↔ i ∈ seed.instances ∨ ∃ e ∈ imports, i ∈ e.instances := by
  induction imports generalizing seed with
  | nil =>
      cases h
      simp
  | cons e imports ih =>
      rw [List.foldlM_cons] at h
      obtain ⟨e', he, h⟩ := exceptBind_ok h
      rw [ih h, overlayEnvs_instances he, or_assoc, List.exists_mem_cons_iff]

/-! ### Built environments -/

theorem Built.wellNamed {G : StepGuard P E} (h : Built G env) :
    ∀ i ∈ env.instances, WellNamed i := by
  induction h with
  | empty => exact fun i hi => by cases hi
  | register _ _ haccept ih =>
      intro i hi
      rcases register_instances haccept with heq | ⟨j, heq, hj⟩
      · exact ih i (heq ▸ hi)
      · rw [heq] at hi
        rcases List.mem_cons.mp hi with rfl | hi
        · exact hj.wellNamed
        · exact ih i hi
  | overlay _ _ _ haccept ih₁ ih₂ =>
      intro i hi
      exact ((overlayEnvs_instances haccept i).mp hi).elim (ih₁ i) (ih₂ i)
  | other _ hsame ih =>
      rw [hsame]
      exact ih

/-- Each step keeps a dictionary name to one instance. -/
theorem Built.coherent (h : Built (P := P) dictsApart env) : Coherent env := by
  refine .of_dict h.wellNamed ?_
  induction h with
  | empty => exact fun i hi => by cases hi
  | @register e _ d _ hguard haccept ih =>
      rcases register_instances haccept with heq | ⟨k, heq, hk⟩
      · rw [heq]
        exact ih
      · have hnew : ∀ i ∈ e.instances, k.dictName ≠ i.dictName := fun i hi heq =>
          hguard i hi (heq ▸ hk.dict)
        rw [heq]
        intro i hi j hj hname
        rcases List.mem_cons.mp hi with rfl | hi'
        · rcases List.mem_cons.mp hj with rfl | hj'
          · rfl
          · exact absurd hname (hnew j hj')
        · rcases List.mem_cons.mp hj with rfl | hj'
          · exact absurd hname.symm (hnew i hi')
          · exact ih i hi' j hj' hname
  | overlay _ _ hguard haccept ih₁ ih₂ =>
      intro i hi j hj hname
      rcases (overlayEnvs_instances haccept i).mp hi with hi | hi
      · rcases (overlayEnvs_instances haccept j).mp hj with hj | hj
        · exact ih₁ i hi j hj hname
        · exact hguard i hi j hj hname
      · rcases (overlayEnvs_instances haccept j).mp hj with hj | hj
        · exact (hguard j hj i hi hname.symm).symm
        · exact ih₂ i hi j hj hname
  | other _ hsame ih =>
      rw [hsame]
      exact ih

/-! ### Resolution -/

omit [DecidableEq E] in
/-- The resolver picks the one instance that there is to pick, in whatever order they
stand. -/
theorem resolve_congr (hcoh : Coherent env) (hsame : ∀ i, i ∈ env.instances ↔ i ∈ env'.instances)
    (params : Finset Nat) (fuel : Nat) (cls : String) (arg : CType) :
    resolve env params fuel cls arg = resolve env' params fuel cls arg := by
  induction fuel generalizing cls arg with
  | zero => rfl
  | succ fuel ih =>
      cases arg with
      | con c ts =>
          have hmem : ∀ i,
              i ∈ (lookupInstances cls env').filter (fun inst => headConEq inst.head c) ↔
                i ∈ (lookupInstances cls env).filter (fun inst => headConEq inst.head c) := by
            intro i
            rw [mem_candidates ts, mem_candidates ts, hsame]
          have hone : ∀ i j,
              i ∈ (lookupInstances cls env).filter (fun inst => headConEq inst.head c) →
              j ∈ (lookupInstances cls env).filter (fun inst => headConEq inst.head c) →
                i = j := by
            intro i j hi hj
            obtain ⟨hi, hicls, hihead⟩ := (mem_candidates ts).mp hi
            obtain ⟨hj, hjcls, hjhead⟩ := (mem_candidates ts).mp hj
            exact hcoh.head i hi j hj (hicls.trans hjcls.symm) (hihead.trans hjhead.symm)
          simp only [resolve]
          cases hl : (lookupInstances cls env).filter fun inst => headConEq inst.head c with
          | nil =>
              cases hl' : (lookupInstances cls env').filter fun inst => headConEq inst.head c with
              | nil => rfl
              | cons i rest =>
                  have hi := (hmem i).mp (hl' ▸ List.mem_cons_self)
                  rw [hl] at hi
                  cases hi
          | cons i rest =>
              have hi := (hmem i).mpr (hl ▸ List.mem_cons_self)
              cases hl' : (lookupInstances cls env').filter fun inst => headConEq inst.head c with
              | nil =>
                  rw [hl'] at hi
                  cases hi
              | cons j rest' =>
                  have hj := (hmem j).mp (hl' ▸ List.mem_cons_self)
                  have hij : i = j := hone i j (hl ▸ List.mem_cons_self) hj
                  simp only [hij, ih]
      | _ => rfl

section Example

/-- `class C a where m : a`. -/
def methodClass : Abs.Decl Unit Bool :=
  .dClass className [startVar "a"] [.ceSig (.mnBare (startVar "m")) (tyVar "a")]

/-- The instance of the class at a type, with a body for its method. -/
def instanceAt (t : Abs.Ty) (body : Bool) : Abs.Decl Unit Bool :=
  .dInstance (.ihPlain className [t]) [.ieImpl (.lhsPre (.fnBare (startVar "m")) []) body]

def namedType (text : String) (h : '$' ∉ text.toList) : Abs.Ty :=
  .tCon (.mpName ⟨(1, 1), text, h⟩)

def u64Type : Abs.Ty := namedType "U64" Abs.u64_plain

def boolType : Abs.Ty := namedType "Bool" (by decide)

/-- The built-in list type. -/
def builtinList : Abs.Ty := .tList (tyVar "a")

/-- A type of the program's own that is called `List`. -/
def ownList : Abs.Ty := .tApp (namedType "List" (by decide)) (tyVar "a")

/-- The environment of the class with the instances. -/
def methodEnv (instances : List (Env.InstanceInfo Bool)) : Env Bool :=
  { (emptyEnv : Env Bool) with
    vars := [("m", ⟨[(0, .star)], [⟨"C", .gen 0⟩], .gen 0⟩)]
    classes := [("C", ⟨(0, .star),
      [("m", ⟨[(0, .star)], [⟨"C", .gen 0⟩], .gen 0⟩)], [], ["m"], "C$Dict"⟩)]
    instances := instances }

def infoAt (head : CType) (key : String) (body : Bool) : Env.InstanceInfo Bool :=
  ⟨"C", head, [], "dict$C$" ++ key, [("m", body)]⟩

def u64Info (body : Bool) : Env.InstanceInfo Bool := infoAt (.con .u64 []) "U64" body

/-- The environment of a module that declares the class and an instance. -/
theorem built_instanceAt {G : StepGuard Unit Bool} {t : Abs.Ty} {body : Bool}
    {info : Env.InstanceInfo Bool} (hclass : G.register emptyEnv methodClass)
    (hinst : G.register (methodEnv []) (instanceAt t body))
    (haccept : register (methodEnv []) (instanceAt t body) = .ok (methodEnv [info])) :
    Built G (methodEnv [info]) :=
  have hempty : Built G (methodEnv []) := Built.empty.register hclass rfl
  hempty.register hinst haccept

end Example

end Wok.TypeChecking

import Mathlib.Data.List.Forall2
import Mathlib.Logic.Hydra
import Mathlib.Order.Defs.Unbundled
import ModuleTree.Procedure.Together
import ModuleTree.Proofs.Procedure
/- What holds of procedures that work together. A procedure is shown by itself to withstand whatever
   the others do, as long as all keep to one way of changing their surroundings; then it ends as
   it should among any number of others, in any order of their calls. -/
namespace ModuleTree

variable {σ α β ι : Type} {answer : (c : Call) → σ → c.Answer × σ} {grows : σ → σ → Prop}

namespace Procedure

inductive Follows : Procedure α → Procedure α → Prop where
  | answered (call : Call) (next : call.Answer → Procedure α) (answer : call.Answer) :
      Follows (next answer) (.ask call next)

theorem follows_wellFounded : WellFounded (Follows (α := α)) := by
  refine ⟨fun p => ?_⟩
  induction p with
  | done a => exact ⟨_, fun q h => nomatch h⟩
  | ask call next ih =>
    constructor
    intro q h
    cases h with
    | answered _ _ answer => exact ih answer

theorem cutExpand_of_replaced {γ : Type} {later : γ → γ → Prop} {before after : List γ} {t t' : γ}
    (goes : later t' t) : Relation.CutExpand later
      ((before ++ t' :: after : List γ) : Multiset γ) ((before ++ t :: after : List γ)) := by
  refine ⟨{t'}, t, by simpa using goes, ?_⟩
  simp only [← Multiset.coe_add, ← Multiset.cons_coe, ← Multiset.singleton_add]
  ac_rfl

/-- Before each of its calls, and once it has ended, others may change the surroundings in the ways
that `grows` allows. Its own calls change them in no other way, and where it ends `post` holds from
then on. -/
def Withstands (answer : (c : Call) → σ → c.Answer × σ) (grows : σ → σ → Prop)
    (post : σ → α → Prop) : σ → Procedure α → Prop
  | s, .done a => ∀ s', grows s s' → post s' a
  | s, .ask call next => ∀ s', grows s s' → grows s' (answer call s').2 ∧
      Withstands answer grows post (answer call s').2 (next (answer call s').1)

variable {post : σ → α → Prop} {s s' : σ} {p : Procedure α}

theorem withstands_call {c : Call} {post : σ → c.Answer → Prop}
    (h : ∀ s', grows s s' → grows s' (answer c s').2 ∧
      ∀ t, grows (answer c s').2 t → post t (answer c s').1) :
    Withstands answer grows post s (call c) := h

theorem Withstands.mono {post' : σ → α → Prop} (withstands : Withstands answer grows post s p)
    (weaker : ∀ s a, post s a → post' s a) : Withstands answer grows post' s p := by
  induction p generalizing s with
  | done a => exact fun t more => weaker t a (withstands t more)
  | ask call next ih =>
    intro t more
    exact ⟨(withstands t more).1, ih _ (withstands t more).2⟩

section Preorder

variable [IsPreorder σ grows]

theorem Withstands.later (withstands : Withstands answer grows post s p) (h : grows s s') :
    Withstands answer grows post s' p := by
  cases p with
  | done a => exact fun t more => withstands t (trans_of grows h more)
  | ask call next => exact fun t more => withstands t (trans_of grows h more)

theorem withstands_bind {post : σ → β → Prop} {f : α → Procedure β}
    (h : Withstands answer grows (fun s a => Withstands answer grows post s (f a)) s p) :
    Withstands answer grows post s (p >>= f) := by
  induction p generalizing s with
  | done a => exact h s (refl_of grows s)
  | ask call next ih =>
    intro t more
    exact ⟨(h t more).1, ih _ (h t more).2⟩

theorem Withstands.extends (withstands : Withstands answer grows post s p) :
    Withstands answer grows (fun s' a => grows s s' ∧ post s' a) s p := by
  induction p generalizing s with
  | done a => exact fun t more => ⟨more, withstands t more⟩
  | ask call next ih =>
    intro t more
    obtain ⟨own, onward⟩ := withstands t more
    have since := trans_of grows more own
    exact ⟨own, (ih _ onward).mono fun _ _ h => ⟨trans_of grows since h.1, h.2⟩⟩

theorem withstands_bind_of {middle : σ → α → Prop} {post : σ → β → Prop} {f : α → Procedure β}
    (first : Withstands answer grows middle s p)
    (second : ∀ s' a, grows s s' → middle s' a → Withstands answer grows post s' (f a)) :
    Withstands answer grows post s (p >>= f) :=
  withstands_bind (first.extends.mono fun s' a h => second s' a h.1 h.2)

theorem Withstands.run (withstands : Withstands answer grows post s p) :
    post (p.run answer s).2 (p.run answer s).1 := by
  induction p generalizing s with
  | done a => exact withstands s (refl_of grows s)
  | ask call next ih => exact ih _ (withstands s (refl_of grows s)).2

end Preorder

end Procedure

namespace Together
open Procedure

variable {s s' : Together σ α} {post : ι → σ → α → Prop} {items : List ι}

theorem step_wellFounded (answer : (c : Call) → σ → c.Answer × σ) :
    WellFounded fun s' s : Together σ α => Step answer s s' := by
  refine (InvImage.wf (fun s : Together σ α => (s.works : Multiset (Procedure α)))
    follows_wellFounded.cutExpand).mono ?_
  rintro s' s ⟨works⟩
  change Relation.CutExpand Follows _ (s.works : Multiset (Procedure α))
  rw [works]
  exact cutExpand_of_replaced (.answered _ _ _)

/-- Each procedure, told by the item it works for, withstands the others from here on. -/
def Stands (answer : (c : Call) → σ → c.Answer × σ) (grows : σ → σ → Prop)
    (post : ι → σ → α → Prop) (items : List ι) (s : Together σ α) : Prop :=
  List.Forall₂ (fun item work => Withstands answer grows (post item) s.surroundings work)
    items s.works

variable [IsPreorder σ grows]

theorem Stands.step (stands : Stands answer grows post items s) (step : Step answer s s') :
    grows s.surroundings s'.surroundings ∧ Stands answer grows post items s' := by
  obtain ⟨here, works⟩ := s
  obtain ⟨rfl⟩ := step
  rename_i before after call next
  unfold Stands at stands ⊢
  -- On the procedures in front of the one that is answered. All others see the change.
  have keeps {items : List ι} {works : List (Procedure α)} {t : σ} (more : grows here t)
      (all : List.Forall₂ (fun item work => Withstands answer grows (post item) here work)
        items works) :
      List.Forall₂ (fun item work => Withstands answer grows (post item) t work) items works :=
    all.imp fun _ _ one => one.later more
  induction before generalizing items with
  | nil =>
    cases stands with
    | cons first others =>
      obtain ⟨more, onward⟩ := first here (refl_of grows here)
      exact ⟨more, .cons onward (keeps more others)⟩
  | cons work before ih =>
    cases stands with
    | cons first others =>
      obtain ⟨more, onward⟩ := ih others
      exact ⟨more, .cons (first.later more) onward⟩

theorem Stands.reaches (stands : Stands answer grows post items s)
    (reach : Relation.ReflTransGen (Step answer) s s') :
    grows s.surroundings s'.surroundings ∧ Stands answer grows post items s' := by
  induction reach with
  | refl => exact ⟨refl_of grows _, stands⟩
  | tail _ step ih =>
    obtain ⟨more, stands⟩ := ih.2.step step
    exact ⟨trans_of grows ih.1 more, stands⟩

theorem Stands.ended (stands : Stands answer grows post items s) :
    List.Forall₂ (fun item work => ∀ a, work = .done a → post item s.surroundings a)
      items s.works := by
  refine stands.imp fun item work withstands a ended => ?_
  subst ended
  exact withstands _ (refl_of grows _)

end Together

end ModuleTree

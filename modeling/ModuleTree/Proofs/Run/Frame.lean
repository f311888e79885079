import Mathlib
import ModuleTree.Proofs.FileSystem.Frame
import ModuleTree.Proofs.Run.GraphPlace
/- The frame of a run. However far it has come, and however it ends, the files differ from what
   they were by what was put at its targets, and by the directories that took. -/
namespace ModuleTree

variable {σ : Type}

namespace Setup
open Run

variable {m : Setup σ} {jobs : List Job} {start : σ} {s : Run σ} {files : σ → FileSystem}
  {roots : List Path}

theorem framed_of_reachable (houses : m.environment.Houses files)
    (spread : Spread m.destination jobs)
    (linkFree : (files start).Awaits m.destination FileSystem.LinkFree)
    (reach : m.Reachable jobs start s) :
    (files start).Framed (files s.surroundings) m.destination (m.Sites s) ∧
      (files s.surroundings).Awaits m.destination FileSystem.LinkFree := by
  induction reach with
  | start => exact ⟨FileSystem.framed_refl _ _ _, linkFree⟩
  | @step s s' reach step ih =>
    obtain ⟨framed, linkFree⟩ := ih
    have lies : ∀ site, m.Sites s' site → m.destination.Lies site := by
      intro site
      exact lies_of_sites spread (reach.step step)
    have puts := puts_of_step houses spread reach step
    constructor
    · have before := framed.mono fun _ begun => sites_of_step houses reach step begun
      exact before.trans (FileSystem.framed_of_puts linkFree lies puts)
    · exact linkFree.linkFree_puts lies puts

end Setup

end ModuleTree

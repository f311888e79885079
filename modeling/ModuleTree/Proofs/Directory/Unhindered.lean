import Mathlib
import ModuleTree.Proofs.Directory.Ensured
import ModuleTree.Proofs.Procedure.Together
/- Making sure of a directory with nothing in the way. It succeeds, whatever other directories are
   made meanwhile at the places that are to be kept free. -/
namespace ModuleTree
open FileSystem Procedure
open ModuleTree.Path (Up dot)

namespace World

def Furnished (sites : Path → Prop) (w w' : World) : Prop :=
  FileSystem.Furnished sites w.files w'.files

instance (sites : Path → Prop) : IsPreorder World (Furnished sites) where
  refl w := refl_of (FileSystem.Furnished sites) w.files
  trans _ _ _ := trans_of (FileSystem.Furnished sites)

/-- Success was told, and a directory is there, if there is any to be made. -/
def Granted (p : Path) (w : World) (outcome : Except StreamError Unit) : Prop :=
  outcome = .ok () ∧ (p.isEmpty = true ∨ w.files.isDirectory p = true)

variable {sites : Path → Prop} {p a : Path} {w w' : World} {outcome : Except StreamError Unit}

theorem Furnished.isDirectory (furnished : Furnished sites w w')
    (there : w.files.isDirectory p = true) : w'.files.isDirectory p = true :=
  (FileSystem.Furnished.gains furnished).grows.isDirectory there

theorem Granted.later (granted : Granted p w outcome) (furnished : Furnished sites w w') :
    Granted p w' outcome :=
  ⟨granted.1, granted.2.imp_right furnished.isDirectory⟩

theorem withstands_done (there : p.isEmpty = true ∨ w.files.isDirectory p = true) :
    Withstands answer (Furnished sites) (Granted p) w (.done (.ok ())) :=
  fun _ furnished => Granted.later ⟨rfl, there⟩ furnished

theorem withstands_look {c : Call} {post : World → c.Answer → Prop}
    (still : ∀ w, (answer c w).2.files = w.files)
    (h : ∀ w', Furnished sites w w' → ∀ t, Furnished sites w' t → post t (answer c w').1) :
    Withstands answer (Furnished sites) post w (call c) := by
  refine withstands_call fun w' more => ?_
  have same : Furnished sites w' (answer c w').2 := by
    unfold Furnished
    rw [still]
    exact .refl
  exact ⟨same, fun t later => h w' more t (trans_of (Furnished sites) same later)⟩

theorem createDirectory_withstands (site : sites p)
    (able : ∀ fs, FileSystem.Furnished sites w.files fs →
      fs.isDirectory p = true ∨ ∃ fs', fs.makeDirectory p = .ok fs') :
    Withstands answer (Furnished sites) (Granted p) w (createDirectory p) := by
  unfold createDirectory
  refine withstands_bind (withstands_look (fun _ => rfl) fun w₁ first w₂ second => ?_)
  refine withstands_bind (withstands_call fun w₃ third => ?_)
  have since : Furnished sites w w₃ :=
    trans_of (Furnished sites) first (trans_of (Furnished sites) second third)
  cases made : w₃.files.makeDirectory p with
  | ok files =>
    have answered : answer (.makeDirectory p) w₃ = (.ok (), { w₃ with files }) := by
      simp [answer, made, changing, Except.map]
    rw [answered]
    refine ⟨.single ⟨p, site, made⟩, fun w₄ fourth => withstands_done (.inr ?_)⟩
    exact Furnished.isDirectory (w := { w₃ with files }) fourth (Makes.made made).isDirectory_of_ok
  | error e =>
    have there : w₃.files.isDirectory p = true := by
      rcases able _ since with there | ⟨_, other⟩
      · exact there
      · cases made.symm.trans other
    obtain ⟨id, found⟩ := pathExists_iff.mp (pathExists_of_isDirectory there)
    cases made.symm.trans (makeDirectory_of_resolve found)
    have answered : answer (.makeDirectory p) w₃ = (.error .alreadyExists, w₃) := by
      simp [answer, made, changing, Except.map]
    rw [answered]
    refine ⟨refl_of (Furnished sites) w₃, fun w₄ fourth => ?_⟩
    refine withstands_bind (withstands_look (fun _ => rfl) fun w₅ fifth w₆ sixth => ?_)
    have still := fifth.isDirectory (fourth.isDirectory there)
    have told : (answer (.isDirectory p) w₅).1 = true := still
    rw [told]
    exact withstands_done (.inr (sixth.isDirectory still))

theorem createDirectory_withstands_below {parent : Path} (up : p.Up parent) (site : sites p)
    (free : StaysFree sites w.files p)
    (undotted : p.segmentNames.getLast? ≠ some [dot])
    (above : parent.isEmpty = true ∨ w.files.isDirectory parent = true) :
    Withstands answer (Furnished sites) (Granted p) w (createDirectory p) := by
  refine createDirectory_withstands site fun fs later => ?_
  refine (free fs later p .refl).imp_right fun lacks => ?_
  refine makeDirectory_of_lacks up (above.imp_right fun there => ?_) lacks undotted
  exact pathExists_of_isDirectory (later.gains.grows.isDirectory there)

theorem ensureChain_withstands {chain : List Path} (same : p.chain = chain)
    (inside : ∀ q, Relation.ReflTransGen Up p q → sites q) (free : StaysFree sites w.files p)
    (undotted : w.files.Lacks p → p.segmentNames.getLast? ≠ some [dot]) :
    Withstands answer (Furnished sites) (Granted p) w (ensureChain chain) := by
  -- On the chain. What is behind its first path is the chain of the parent.
  induction chain generalizing p w with
  | nil => cases same
  | cons head parents ih =>
    rw [Path.chain_eq] at same
    obtain ⟨rfl, above⟩ := List.cons.inj same
    unfold ensureChain
    split
    · rename_i empty
      exact withstands_done (.inl empty)
    · rename_i named
      have named : p.isEmpty = false := by simpa using named
      refine withstands_bind (withstands_look (fun _ => rfl) fun w₁ first w₂ second => ?_)
      change Withstands _ _ _ _ (if w₁.files.pathExists p = true then _ else _)
      have here := free _ first p .refl
      split
      · rename_i there
        refine withstands_done (.inr (second.isDirectory (here.resolve_right fun lacks => ?_)))
        cases there.symm.trans (not_pathExists_of_lacks named lacks)
      · rename_i missing
        have lacks := here.resolve_left fun there => missing (pathExists_of_isDirectory there)
        have undotted := undotted ((free _ .refl p .refl).resolve_left fun there =>
          missing (pathExists_of_isDirectory (first.isDirectory there)))
        have since : Furnished sites w w₂ := trans_of (Furnished sites) first second
        cases up : p.parent? with
        | none => exact absurd lacks (not_lacks_of_dots named (Path.dots_of_top up))
        | some parent =>
          rw [up] at above
          refine withstands_bind_of (ih above (fun q way => inside q (.head up way))
            ((free.later since).above up) (undotted_of_up up)) fun w₃ outcome third ensured => ?_
          obtain ⟨rfl, ensured⟩ := ensured
          exact createDirectory_withstands_below up (inside p .refl)
            (free.later (since.trans third)) undotted ensured

theorem ensureDirectory_withstands (inside : ∀ q, Relation.ReflTransGen Up p q → sites q)
    (free : StaysFree sites w.files p)
    (undotted : w.files.Lacks p → p.segmentNames.getLast? ≠ some [dot]) :
    Withstands answer (Furnished sites) (Granted p) w (ensureDirectory p) :=
  ensureChain_withstands rfl inside free undotted

/-- With nothing in the way of a path, making sure of it succeeds and makes it a directory, however
it is written. Where what is missing of the path leads up again, more of the file system is in its
way once that was made, so this has to stay out of it; and a missing path is not to end in a dot. -/
theorem ensureDirectory_succeeds (p : Path) (w : World) (named : p.isEmpty = false)
    (locks : w.files.LocksThere) (free : w.files.Free p)
    (short : ∀ name ∈ p.segmentNames, name.length ≤ nameLimit)
    (undotted : w.files.Lacks p → p.segmentNames.getLast? ≠ some [dot])
    (back : w.files.TurnsBack p → StaysFree (Relation.ReflTransGen Up p) w.files p) :
    (w.perform (ensureDirectory p)).1 = .ok () ∧
      (w.perform (ensureDirectory p)).2.files.isDirectory p = true := by
  have stays : StaysFree (Relation.ReflTransGen Up p) w.files p := by
    rcases downward_or_turnsBack short undotted with downward | turns
    · exact staysFree_of_downward locks free downward _
    · exact back turns
  obtain ⟨ok, there⟩ := (ensureDirectory_withstands (fun _ => id) stays undotted).run
  exact ⟨ok, there.resolve_left (by simp [named])⟩

section Samples

def holding (files : FileSystem) : World where
  files := files
  compiler := ⟨fun _ => [], fun _ => .ok ⟨"", []⟩⟩

def holdingInner (entries : List (Bytes × NodeId)) : FileSystem where
  nodes := #[.directory 0 [(Text.encode "d", 1)], .directory 0 entries] ++
    (entries.map fun _ => .directory 1 []).toArray
  root := 0
  home := 0

theorem ensureDirectory_succeeds_on_winding_way :
    (holdingInner []).TurnsBack (.ofString "d/.//t/..//a/") ∧
      ((holding (holdingInner [])).perform (ensureDirectory (.ofString "d/.//t/..//a/"))).1 =
        .ok () ∧
      ((holding (holdingInner [])).perform
        (ensureDirectory (.ofString "d/.//t/..//a/"))).2.files.isDirectory
          (.ofString "d/.//t/..//a/") = true := by
  have chain : (Path.ofString "d/.//t/..//a/").chain = [.ofString "d/.//t/..//a/",
      .ofString "d/.//t/..", .ofString "d/.//t", .ofString "d", .empty] := by cbv
  have turns : (holdingInner []).TurnsBack (.ofString "d/.//t/..//a/") :=
    ⟨.ofString "d/.//t/..", Path.mem_chain_iff.mp (by simp [chain]), by cbv, by cbv⟩
  -- First `t` is made, and then `a`.
  have keep : keepFree [holdingInner [], holdingInner [(Text.encode "t", 2)],
      holdingInner [(Text.encode "a", 3), (Text.encode "t", 2)]]
      [.ofString "d/.//t/..//a/", .ofString "d/.//t/..", .ofString "d/.//t", .ofString "d",
        .empty] = true := by cbv
  have stays := staysFree_of_keepFree chain List.mem_cons_self keep
  exact ⟨turns, ensureDirectory_succeeds _ _ (by cbv) (fun _ mem => by cases mem)
    (stays _ .refl) (by decide +kernel) (fun _ => by decide +kernel) fun _ => stays⟩

def holdingFile : FileSystem where
  nodes := #[.directory 0 [(Text.encode "f", 1)], .file .empty]
  root := 0
  home := 0

/-- With nothing at it, as long as a directory in front of it is missing, a path can lead to a file
once that directory was made. And the empty path, with nothing above it, is no directory when all is
done that it asks for. -/
theorem ensureDirectory_blocked_behind_missing :
    (holdingFile.Free (.ofString "t/../f") ∧
      ((holding holdingFile).perform (ensureDirectory (.ofString "t/../f"))).1 =
        .error ⟨.file (.ofString "t/../f"), .createDirectory, .alreadyExists⟩) ∧
      holdingFile.Free .empty ∧
      ((holding holdingFile).perform (ensureDirectory .empty)).1 = .ok () ∧
      ((holding holdingFile).perform (ensureDirectory .empty)).2.files.isDirectory .empty =
        false := by
  have chain : (Path.ofString "t/../f").chain =
      [.ofString "t/../f", .ofString "t/..", .ofString "t", .empty] := by cbv
  have top : Path.empty.chain = [.empty] := by cbv
  exact ⟨⟨free_of_chain chain (by cbv), by cbv⟩, free_of_chain top (by cbv), by cbv, by cbv⟩

end Samples

end World

end ModuleTree

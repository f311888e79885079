import Mathlib
import ModuleTree.Proofs.Directory.Unhindered
/- What it means when making sure of a directory tells success. Something stands at the path, with
   directories all above it, and it is a directory unless something else stood there before the
   first call: that first look does not ask what it is, while the other ways to success look for
   a directory or have made it. -/
namespace ModuleTree
open FileSystem Procedure
open ModuleTree.Path (Up)

/-- What was told of a path before success: that something is there, that it was made, or that it is
a directory. -/
inductive Vouches (p : Path) : Exchange → Prop where
  | there : Vouches p ⟨.pathExists p, true⟩
  | made : Vouches p ⟨.makeDirectory p, .ok ()⟩
  | found : Vouches p ⟨.isDirectory p, true⟩

/-- Success comes right after something was told of the path. -/
def VouchedLast (p : Path) (t : Transcript) (outcome : Except StreamError Unit) : Prop :=
  outcome = .ok () → ∃ x ∈ t.getLast?, Vouches p x

section Vouched

variable {p : Path} {t : Transcript}

theorem vouchedLast_concat {x : Exchange} (vouches : Vouches p x)
    (outcome : Except StreamError Unit) : VouchedLast p (t ++ [x]) outcome :=
  fun _ => ⟨x, by simp, vouches⟩

theorem vouchedLast_error (e : StreamError) : VouchedLast p t (.error e) := by
  intro same
  cases same

variable {inv : Transcript → Prop} (always : ∀ t, inv t)
include always

theorem createDirectory_vouched (p : Path) (t : Transcript) :
    Keeps inv (VouchedLast p) t (createDirectory p) := by
  unfold createDirectory
  refine keeps_bind (keeps_call fun _ => ⟨always _, ?_⟩)
  refine keeps_bind (keeps_call fun answer => ⟨always _, ?_⟩)
  split
  · exact vouchedLast_concat .made _
  · refine keeps_bind (keeps_call fun there => ⟨always _, ?_⟩)
    cases there with
    | true => exact vouchedLast_concat .found _
    | false => exact vouchedLast_error _
  · exact vouchedLast_error _

theorem ensureDirectory_vouched (named : p.isEmpty = false) (t : Transcript) :
    Keeps inv (VouchedLast p) t (ensureDirectory p) := by
  unfold ensureDirectory
  rw [Path.chain_eq, ensureChain, if_neg (by simp [named])]
  refine keeps_bind (keeps_call fun there => ⟨always _, ?_⟩)
  cases there with
  | true => exact vouchedLast_concat .there _
  | false =>
    refine keeps_bind_of (keeps_trivially always _) fun t outcome _ _ => ?_
    cases outcome with
    | error e => exact vouchedLast_error _
    | ok _ => exact createDirectory_vouched always p t

end Vouched

namespace FileSystem

variable {fs fs' : FileSystem} {p : Path}

theorem Ensures.occupied (ensures : fs.Ensures p (.ok ()) fs') (named : p.isEmpty = false)
    (none : fs'.isDirectory p = false) : fs.pathExists p = true ∧ fs' = fs := by
  cases ensures with
  | standing there => exact ⟨there.resolve_left (by simp [named]), rfl⟩
  | first _ _ _ makes | next _ _ _ _ makes => cases none.symm.trans makes.isDirectory_of_ok

end FileSystem

namespace World

/-- Success is told of a path that leads somewhere, with directories all above it. It leads to no
directory exactly if it led to something else before, and then nothing was done. With others at
work, success comes right after it was told that the path is there, was made or is a directory. -/
theorem ensureDirectory_success_means (p : Path) (named : p.isEmpty = false) :
    (∀ w : World, (w.perform (ensureDirectory p)).1 = .ok () →
      (w.perform (ensureDirectory p)).2.files.pathExists p = true ∧
        ∀ a, Relation.TransGen Up p a → a.isEmpty = false →
          (w.perform (ensureDirectory p)).2.files.isDirectory a = true) ∧
    (∀ w : World, (w.perform (ensureDirectory p)).1 = .ok () ∧
        (w.perform (ensureDirectory p)).2.files.isDirectory p = false ↔
      w.files.pathExists p = true ∧ w.files.isDirectory p = false) ∧
    (∀ w : World, w.files.pathExists p = true → w.perform (ensureDirectory p) = (.ok (), w)) ∧
    Keeps (fun _ => True) (VouchedLast p) [] (ensureDirectory p) := by
  have standing (w : World) (there : w.files.pathExists p = true) :=
    perform_ensureDirectory_of_exists (w := w) (.inr there)
  have ensures (w : World) (ok : (w.perform (ensureDirectory p)).1 = .ok ()) :
      w.files.Ensures p (.ok ()) (w.perform (ensureDirectory p)).2.files :=
    ok ▸ ensures_of_chain rfl w
  refine ⟨fun w ok => ?_, fun w => ⟨?_, ?_⟩, standing,
    ensureDirectory_vouched (fun _ => trivial) named []⟩
  · have there := (ensures w ok).exists.resolve_left (by simp [named])
    exact ⟨there, fun a higher nonempty => isDirectory_of_above higher nonempty there⟩
  · rintro ⟨ok, none⟩
    obtain ⟨there, same⟩ := (ensures w ok).occupied named none
    exact ⟨there, same ▸ none⟩
  · rintro ⟨there, none⟩
    rw [standing w there]
    exact ⟨rfl, none⟩

theorem ensureDirectory_success_means_directory :
    (Path.ofString "d/x").isEmpty = false ∧
      ((holding (holdingInner [])).perform (ensureDirectory (.ofString "d/x"))).1 = .ok () ∧
      ((holding (holdingInner [])).perform
        (ensureDirectory (.ofString "d/x"))).2.files.isDirectory (.ofString "d/x") = true := by
  have named : (Path.ofString "d/x").isEmpty = false := by cbv
  have ok : ((holding (holdingInner [])).perform (ensureDirectory (.ofString "d/x"))).1 =
      .ok () := by cbv
  have missing : (holding (holdingInner [])).files.pathExists (.ofString "d/x") = false := by cbv
  refine ⟨named, ok, Bool.not_eq_false _ ▸ fun none => ?_⟩
  have before := ((ensureDirectory_success_means _ named).2.1 _).mp ⟨ok, none⟩
  cases missing.symm.trans before.1

theorem ensureDirectory_succeeds_at_file :
    ((holding holdingFile).perform (ensureDirectory (.ofString "f"))).1 = .ok () ∧
      ((holding holdingFile).perform (ensureDirectory (.ofString "f"))).2.files.isDirectory
        (.ofString "f") = false :=
  ⟨by cbv, by cbv⟩

end World

end ModuleTree

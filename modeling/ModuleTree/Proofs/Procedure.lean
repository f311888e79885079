import ModuleTree.Directory
/- What holds of a procedure however its calls are answered. -/
namespace ModuleTree

theorem forall_concat {α : Type} {P : α → Prop} {t : List α} {x : α} (all : ∀ y ∈ t, P y)
    (last : P x) : ∀ y ∈ t ++ [x], P y :=
  List.forall_mem_append.mpr ⟨all, List.forall_mem_singleton.mpr last⟩

namespace Procedure

variable {α β : Type} {inv inv' : Transcript → Prop}

theorem run_bind {σ : Type} {answer : (c : Call) → σ → c.Answer × σ} (p : Procedure α)
    (f : α → Procedure β) (state : σ) :
    (p >>= f).run answer state = (f (p.run answer state).1).run answer (p.run answer state).2 := by
  induction p generalizing state with
  | done a => rfl
  | ask call next ih => exact ih _ _

/-- However `p` is answered after `t`, all transcripts that it comes through are in `inv`,
and where it ends `post` holds. -/
def Keeps (inv : Transcript → Prop) (post : Transcript → α → Prop) :
    Transcript → Procedure α → Prop
  | t, .done a => post t a
  | t, .ask call next => ∀ answer,
    inv (t ++ [⟨call, answer⟩]) ∧ Keeps inv post (t ++ [⟨call, answer⟩]) (next answer)

theorem keeps_call {c : Call} {post : Transcript → c.Answer → Prop} {t : Transcript}
    (h : ∀ answer, inv (t ++ [⟨c, answer⟩]) ∧ post (t ++ [⟨c, answer⟩]) answer) :
    Keeps inv post t (call c) := h

theorem keeps_bind {post : Transcript → β → Prop} {p : Procedure α} {f : α → Procedure β}
    {t : Transcript} (h : Keeps inv (fun t a => Keeps inv post t (f a)) t p) :
    Keeps inv post t (p >>= f) := by
  induction p generalizing t with
  | done a => exact h
  | ask call next ih =>
    intro answer
    exact ⟨(h answer).1, ih answer (h answer).2⟩

theorem keeps_mono {post post' : Transcript → α → Prop} {p : Procedure α} {t : Transcript}
    (keeps : Keeps inv post t p) (weaker : ∀ t, inv t → inv' t)
    (ends : ∀ t a, post t a → post' t a) : Keeps inv' post' t p := by
  induction p generalizing t with
  | done a => exact ends t a keeps
  | ask call next ih =>
    intro answer
    exact ⟨weaker _ (keeps answer).1, ih answer (keeps answer).2⟩

theorem keeps_extends {post : Transcript → α → Prop} {p : Procedure α} {t₀ t : Transcript}
    (keeps : Keeps inv post t p) (before : t₀ <+: t) :
    Keeps inv (fun t a => t₀ <+: t ∧ post t a) t p := by
  induction p generalizing t with
  | done a => exact ⟨before, keeps⟩
  | ask call next ih =>
    intro answer
    exact ⟨(keeps answer).1,
      ih answer (keeps answer).2 (before.trans (List.prefix_append t _))⟩

theorem keeps_bind_of {post : Transcript → β → Prop} {middle : Transcript → α → Prop}
    {p : Procedure α} {f : α → Procedure β} {t : Transcript} (first : Keeps inv middle t p)
    (second : ∀ t' a, t <+: t' → middle t' a → Keeps inv post t' (f a)) :
    Keeps inv post t (p >>= f) := by
  have extended := keeps_extends first (List.prefix_rfl)
  exact keeps_bind (keeps_mono extended (fun _ h => h) fun t' a h => second t' a h.1 h.2)

theorem keeps_trivially (always : ∀ t, inv t) (p : Procedure α) {t : Transcript} :
    Keeps inv (fun _ _ => True) t p := by
  induction p generalizing t with
  | done a => trivial
  | ask call next ih => exact fun answer => ⟨always _, ih answer⟩

def Asks (allowed : Call → Prop) : Procedure α → Prop
  | .done _ => True
  | .ask call next => allowed call ∧ ∀ answer, Asks allowed (next answer)

variable {allowed : Call → Prop}

theorem asks_call {c : Call} (h : allowed c) : Asks allowed (call c) := ⟨h, fun _ => trivial⟩

theorem asks_bind {p : Procedure α} {f : α → Procedure β} (first : p.Asks allowed)
    (second : ∀ a, (f a).Asks allowed) : (p >>= f).Asks allowed := by
  induction p with
  | done a => exact second a
  | ask call next ih => exact ⟨first.1, fun answer => ih answer (first.2 answer)⟩

theorem keeps_of_asks {inv : Transcript → Prop} {p : Procedure α} {t : Transcript}
    (asks : p.Asks allowed) (stays : ∀ t x, inv t → allowed x.call → inv (t ++ [x])) (h : inv t) :
    Keeps inv (fun t _ => inv t) t p := by
  induction p generalizing t with
  | done a => exact h
  | ask call next ih =>
    intro answer
    have after := stays t ⟨call, answer⟩ h asks.1
    exact ⟨after, ih answer (asks.2 answer) after⟩

end Procedure

def Call.isPlain : Call → Bool
  | .pathExists _ | .isDirectory _ | .makeDirectory _ | .note _ => true
  | _ => false

inductive Exchange.Fails : Exchange → Prop where
  | makeDirectory (p : Path) (e : IoError) : Fails ⟨.makeDirectory p, .error e⟩
  | openFile (p : Path) (e : IoError) : Fails ⟨.openFile p, .error e⟩
  | createFile (p : Path) (e : IoError) : Fails ⟨.createFile p, .error e⟩
  | readFile (file : NodeId) (e : IoError) : Fails ⟨.readFile file, .error e⟩
  | writeFile (file : NodeId) (bytes : ByteArray) (e : IoError) :
      Fails ⟨.writeFile file bytes, .error e⟩

/-- A call that failed, and the error of a stream that comes of it. -/
inductive Blames : Exchange → StreamError → Prop where
  | directory (p : Path) (e : IoError) :
      Blames ⟨.makeDirectory p, .error e⟩ ⟨.file p, .createDirectory, e⟩
  | openInput (p : Path) (e : IoError) :
      Blames ⟨.openFile p, .error e⟩ ⟨.file p, .openInput, e⟩
  | createOutput (p : Path) (e : IoError) :
      Blames ⟨.createFile p, .error e⟩ ⟨.file p, .createOutput, e⟩
  | readAll (file : NodeId) (p : Path) (e : IoError) :
      Blames ⟨.readFile file, .error e⟩ ⟨.file p, .readAll, e⟩
  | notText (file : NodeId) (p : Path) (bytes : ByteArray) (bad : String.fromUTF8? bytes = none) :
      Blames ⟨.readFile file, .ok bytes⟩ ⟨.file p, .readAll, .notText⟩
  | writeAll (file : NodeId) (bytes : ByteArray) (p : Path) (e : IoError) :
      Blames ⟨.writeFile file bytes, .error e⟩ ⟨.file p, .writeAll, e⟩

def Blamed (t : Transcript) (e : StreamError) : Prop := ∃ x ∈ t, Blames x e

section Directory
open Procedure

variable {inv : Transcript → Prop}

/-- What making directories comes to: nothing is lost, and each error has its call. -/
def Made (inv : Transcript → Prop) (t : Transcript) (outcome : Except StreamError Unit) : Prop :=
  inv t ∧ ∀ e, outcome = .error e → Blamed t e

theorem createDirectory_keeps {p : Path}
    (plain : ∀ t x, inv t → x.call.isPlain → (∀ q, x.call = .makeDirectory q → q = p) →
      inv (t ++ [x]))
    {t : Transcript} (h : inv t) : Keeps inv (Made inv) t (createDirectory p) := by
  unfold createDirectory
  refine keeps_bind (keeps_call fun _ => ?_)
  have noted := plain t ⟨.note ⟨.trace, .directory, s!"creating directory {p.quoted}"⟩, ()⟩ h rfl
    (by simp)
  refine ⟨noted, keeps_bind (keeps_call fun answer => ?_)⟩
  have tried := plain _ ⟨.makeDirectory p, answer⟩ noted rfl (by simp)
  refine ⟨tried, ?_⟩
  split
  · exact ⟨tried, by simp⟩
  · refine keeps_bind (keeps_call fun there => ?_)
    have looked := plain _ ⟨.isDirectory p, there⟩ tried rfl (by simp)
    refine ⟨looked, ?_⟩
    split
    · exact ⟨looked, by simp⟩
    · refine ⟨looked, fun e same => ?_⟩
      cases same
      exact ⟨_, by simp, .directory p .alreadyExists⟩
  · refine ⟨tried, fun e same => ?_⟩
    cases same
    exact ⟨_, by simp, .directory p _⟩

theorem ensureChain_keeps {chain : List Path}
    (plain : ∀ t x, inv t → x.call.isPlain →
      (∀ q, x.call = .makeDirectory q → q ∈ chain ∧ q.isEmpty = false) → inv (t ++ [x]))
    {t : Transcript} (h : inv t) : Keeps inv (Made inv) t (ensureChain chain) := by
  induction chain generalizing t with
  | nil => exact ⟨h, by simp⟩
  | cons p parents ih =>
    unfold ensureChain
    split
    · exact ⟨h, by simp⟩
    · rename_i named
      refine keeps_bind (keeps_call fun there => ?_)
      have looked := plain t ⟨.pathExists p, there⟩ h rfl (by simp)
      refine ⟨looked, ?_⟩
      split
      · exact ⟨looked, by simp⟩
      · have above := ih (fun t x h y within => plain t x h y fun q made =>
          ⟨List.mem_cons_of_mem p (within q made).1, (within q made).2⟩) looked
        refine keeps_bind_of above fun t above _ made => ?_
        cases above with
        | error e => exact made
        | ok _ =>
          refine createDirectory_keeps (fun t x h y here => plain t x h y fun q made => ?_) made.1
          rw [here q made]
          exact ⟨List.mem_cons_self, by simpa using named⟩

theorem ensureDirectory_keeps (plain : ∀ t x, inv t → x.call.isPlain → inv (t ++ [x]))
    {t : Transcript} (h : inv t) (p : Path) : Keeps inv (Made inv) t (ensureDirectory p) :=
  ensureChain_keeps (fun t x h y _ => plain t x h y) h

theorem createDirectory_asks {allowed : Call → Prop} (plain : ∀ c, c.isPlain → allowed c)
    (p : Path) : (createDirectory p).Asks allowed := by
  unfold createDirectory
  refine asks_bind (asks_call (plain _ rfl)) fun _ => ?_
  refine asks_bind (asks_call (plain _ rfl)) fun answer => ?_
  split
  · trivial
  · refine asks_bind (asks_call (plain _ rfl)) fun there => ?_
    split <;> trivial
  · trivial

theorem ensureChain_asks {allowed : Call → Prop} (plain : ∀ c, c.isPlain → allowed c)
    (chain : List Path) : (ensureChain chain).Asks allowed := by
  induction chain with
  | nil => trivial
  | cons p parents ih =>
    unfold ensureChain
    split
    · trivial
    · refine asks_bind (asks_call (plain _ rfl)) fun there => ?_
      split
      · trivial
      · refine asks_bind ih fun above => ?_
        cases above with
        | error e => trivial
        | ok _ => exact createDirectory_asks plain p

theorem ensureDirectory_asks {allowed : Call → Prop} (plain : ∀ c, c.isPlain → allowed c)
    (p : Path) : (ensureDirectory p).Asks allowed := ensureChain_asks plain p.chain

end Directory

end ModuleTree

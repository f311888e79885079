import ModuleTree.Proofs.Run.ListenerCourse
import ModuleTree.Run.Protocol
/- Jobs in order. What they come to one after another, with every report heard and the names
   compared afterwards, and what of the surroundings has a part in it. -/
namespace ModuleTree

variable {σ τ : Type}

/-- Surroundings that make nothing of a notice: it changes nothing that they show, and what they
show decides what they answer. -/
structure Environment.Heedless (answer : Environment σ) (view : σ → τ) : Prop where
  note : ∀ notice w, view (answer (.note notice) w).2 = view w
  alike : ∀ call w w', view w = view w' → (answer call w).1 = (answer call w').1 ∧
    view (answer call w).2 = view (answer call w').2

theorem World.answer_heedless :
    Environment.Heedless World.answer fun w => ({ w with log := [] } : World) where
  note _ _ := rfl
  alike call w w' same := by
    have files : w.files = w'.files := (World.mk.inj same).1
    have compiler : w.compiler = w'.compiler := (World.mk.inj same).2.1
    have calls : w.calls = w'.calls := (World.mk.inj same).2.2.1
    cases call with
    | makeDirectory p =>
      simp only [World.answer, files]
      cases w'.files.makeDirectory p <;> simp [World.changing, Except.map, *]
    | createFile p =>
      simp only [World.answer, files]
      cases w'.files.createFile p <;> simp [World.changing, *]
    | _ => simp [World.answer, World.compiling, World.note, *]

def Environment.attentive (answer : Environment σ) : Environment (σ × List Event)
  | .report event, r => (true, r.1, r.2 ++ [event])
  | call, r => ((answer call r.1).1, (answer call r.1).2, r.2)

def inOrder (answer : Environment σ) :
    List (Procedure (Except RunError Unit)) → σ → Except RunError Unit × σ
  | [], w => (.ok (), w)
  | p :: rest, w =>
    match p.run answer w with
    | (.error e, w) => (.error e, w)
    | (.ok (), w) => inOrder answer rest w

def firstRepeat? (seen : List String) : List String → Option String
  | [] => none
  | name :: rest => if name ∈ seen then some name else firstRepeat? (name :: seen) rest

namespace Setup

def sweep (m : Setup σ) (jobs : List Job) (start : σ) : Except RunError Unit × σ × List Event :=
  inOrder m.environment.attentive (jobs.map (compileFile m.settings)) (start, [])

def flushOutcome (m : Setup σ) (reports : List Event) (w : σ) :
    Except RunError (Option Path) :=
  match (((Accumulator.ofNodes m.settings.graph (nodesOf reports)).flush m.destination).run
    m.environment w).1 with
  | .error e => .error (.graph e)
  | .ok written => .ok written

/-- What the jobs come to in order. A name that was reported twice comes before the error of the
job that fails, and the graph is written when there is neither. -/
def sequentialOutcome (m : Setup σ) (jobs : List Job) (start : σ) : Except RunError Summary :=
  match m.sweep jobs start with
  | (worked, w, reports) =>
    match firstRepeat? [] (namesOf reports), worked with
    | some name, _ => .error (.graph (.duplicateModule name))
    | none, .error e => .error e
    | none, .ok () =>
      match m.flushOutcome reports w with
      | .error e => .error e
      | .ok written => .ok ⟨jobs.length, written⟩

end Setup

section FirstRepeat

theorem firstRepeat?_of_nodup {seen names : List String} (distinct : names.Nodup)
    (unseen : ∀ name ∈ names, name ∉ seen) : firstRepeat? seen names = none := by
  induction names generalizing seen with
  | nil => rfl
  | cons name rest ih =>
    obtain ⟨fresh, distinct⟩ := List.nodup_cons.mp distinct
    have here := unseen name List.mem_cons_self
    simp only [firstRepeat?, if_neg here]
    refine ih distinct fun other mem seen => ?_
    rcases List.mem_cons.mp seen with same | before
    · exact fresh (same ▸ mem)
    · exact unseen other (List.mem_cons_of_mem name mem) before

theorem firstRepeat?_append {seen names : List String} {name : String}
    (found : firstRepeat? seen names = some name) (more : List String) :
    firstRepeat? seen (names ++ more) = some name := by
  induction names generalizing seen with
  | nil => cases found
  | cons first rest ih =>
    by_cases here : first ∈ seen
    · simpa only [List.cons_append, firstRepeat?, if_pos here] using found
    · simp only [List.cons_append, firstRepeat?, if_neg here] at found ⊢
      exact ih found

theorem firstRepeat?_concat {seen names : List String} {name : String} (distinct : names.Nodup)
    (unseen : ∀ name ∈ names, name ∉ seen) (again : name ∈ names ∨ name ∈ seen) :
    firstRepeat? seen (names ++ [name]) = some name := by
  induction names generalizing seen with
  | nil =>
    have here : name ∈ seen := by simpa using again
    simp [firstRepeat?, here]
  | cons first rest ih =>
    obtain ⟨fresh, distinct⟩ := List.nodup_cons.mp distinct
    have here := unseen first List.mem_cons_self
    simp only [List.cons_append, firstRepeat?, if_neg here]
    refine ih distinct (fun other mem seen => ?_) ?_
    · rcases List.mem_cons.mp seen with same | before
      · exact fresh (same ▸ mem)
      · exact unseen other (List.mem_cons_of_mem first mem) before
    · rcases again with mem | before
      · rcases List.mem_cons.mp mem with same | later
        · exact .inr (same ▸ List.mem_cons_self)
        · exact .inl later
      · exact .inr (List.mem_cons_of_mem first before)

end FirstRepeat

section Surroundings

variable {α β : Type} {answer : Environment σ} {view : σ → τ}

theorem Procedure.run_alike (heedless : answer.Heedless view) (p : Procedure α) {w w' : σ}
    (same : view w = view w') :
    (p.run answer w).1 = (p.run answer w').1 ∧
      view (p.run answer w).2 = view (p.run answer w').2 := by
  induction p generalizing w w' with
  | done a => exact ⟨rfl, same⟩
  | ask call next ih =>
    obtain ⟨told, left_⟩ := heedless.alike call w w' same
    simp only [Procedure.run, told]
    exact ih _ left_

theorem attentive_quiet {call : Call} (quiet : call.isReport = false) (r : σ × List Event) :
    answer.attentive call r = ((answer call r.1).1, (answer call r.1).2, r.2) := by
  cases call <;> first | rfl | cases quiet

theorem attentive_heedless (heedless : answer.Heedless view) :
    answer.attentive.Heedless fun r => (view r.1, r.2) where
  note notice r := by
    rw [attentive_quiet rfl, heedless.note]
  alike call r r' same := by
    obtain ⟨shown, reports⟩ := Prod.mk.inj same
    cases quiet : call.isReport with
    | false =>
      obtain ⟨told, left_⟩ := heedless.alike call r.1 r'.1 shown
      simp only [attentive_quiet quiet, told, left_, reports, and_self]
    | true =>
      cases call with
      | report event => simp only [Environment.attentive, shown, reports, and_self]
      | _ => cases quiet

theorem inOrder_alike (heedless : answer.Heedless view)
    (work : List (Procedure (Except RunError Unit))) (w w' : σ) (same : view w = view w') :
    (inOrder answer work w).1 = (inOrder answer work w').1 ∧
      view (inOrder answer work w).2 = view (inOrder answer work w').2 := by
  induction work generalizing w w' with
  | nil => exact ⟨rfl, same⟩
  | cons p rest ih =>
    obtain ⟨told, left_⟩ := p.run_alike heedless same
    unfold inOrder
    rcases first : p.run answer w with ⟨outcome, w₁⟩
    rcases second : p.run answer w' with ⟨outcome', w₁'⟩
    rw [first, second] at told left_
    cases told
    cases outcome with
    | error e => exact ⟨rfl, left_⟩
    | ok _ => exact ih _ _ left_

theorem attentive_alike (heedless : answer.Heedless view)
    (work : List (Procedure (Except RunError Unit))) (reports : List Event) {w w' : σ}
    (same : view w = view w') :
    (inOrder answer.attentive work (w, reports)).1 =
        (inOrder answer.attentive work (w', reports)).1 ∧
      view (inOrder answer.attentive work (w, reports)).2.1 =
        view (inOrder answer.attentive work (w', reports)).2.1 ∧
      (inOrder answer.attentive work (w, reports)).2.2 =
        (inOrder answer.attentive work (w', reports)).2.2 := by
  have shown : (view w, reports) = (view w', reports) := by rw [same]
  obtain ⟨told, left_⟩ :=
    inOrder_alike (attentive_heedless heedless) work (w, reports) (w', reports) shown
  exact ⟨told, Prod.mk.inj left_⟩

theorem run_reports (answer : Environment σ) (p : Procedure α) (w : σ) (reports : List Event) :
    reports <+: (p.run answer.attentive (w, reports)).2.2 := by
  induction p generalizing w reports with
  | done a => exact List.prefix_rfl
  | ask call next ih =>
    simp only [Procedure.run]
    cases quiet : call.isReport with
    | false =>
      rw [attentive_quiet quiet]
      exact ih _ _ _
    | true =>
      cases call with
      | report event => exact (List.prefix_append reports [event]).trans (ih _ _ _)
      | _ => cases quiet

theorem inOrder_reports (answer : Environment σ)
    (work : List (Procedure (Except RunError Unit))) (w : σ) (reports : List Event) :
    reports <+: (inOrder answer.attentive work (w, reports)).2.2 := by
  induction work generalizing w reports with
  | nil => exact List.prefix_rfl
  | cons p rest ih =>
    have first := run_reports answer p w reports
    unfold inOrder
    rcases ended : p.run answer.attentive (w, reports) with ⟨outcome, w', reports'⟩
    rw [ended] at first
    cases outcome with
    | error e => exact first
    | ok _ => exact first.trans (ih w' reports')

theorem inOrder_done {done : List (Procedure (Except RunError Unit))}
    (succeeded : ∀ p ∈ done, p = .done (.ok ()))
    (rest : List (Procedure (Except RunError Unit))) (w : σ) :
    inOrder answer (done ++ rest) w = inOrder answer rest w := by
  induction done with
  | nil => rfl
  | cons p more ih =>
    rw [succeeded p List.mem_cons_self]
    exact ih fun q mem => succeeded q (List.mem_cons_of_mem p mem)

end Surroundings

end ModuleTree

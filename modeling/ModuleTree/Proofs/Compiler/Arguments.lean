import ModuleTree.Compiler.Command
import ModuleTree.Proofs.ImportMap
/- What a compiler of its own is told. The flags and values behind its fixed arguments read back
   as the request, whatever the values look like, since every flag has one value and a place. -/
namespace ModuleTree

def Plan.settings : Plan → Settings
  | stream settings => settings
  | tree _ _ settings => settings

theorem Format.ofText?_text (format : Format) : ofText? format.text = some format := by
  cases format <;> rfl

namespace Usage

variable {u : Usage} {p : Plan}

theorem plan_ok (planned : u.plan = .ok p) : p.settings = u.settings ∧ u.checkImports = .ok () := by
  unfold plan at planned
  by_cases named : u.inferName && u.moduleName.isSome
  · rw [if_pos named] at planned
    cases planned
  rw [if_neg named] at planned
  by_cases piped : u.stream && u.inferName && u.format.isNamed
  · rw [if_pos piped] at planned
    cases planned
  rw [if_neg piped] at planned
  cases imports : u.checkImports with
  | error e =>
    rw [imports] at planned
    cases planned
  | ok _ =>
    rw [imports] at planned
    refine ⟨?_, rfl⟩
    by_cases stream : u.stream
    · rw [if_pos stream] at planned
      cases planned
      rfl
    · rw [if_neg stream] at planned
      cases destination : u.destination with
      | none =>
        rw [destination] at planned
        cases planned
      | some d =>
        rw [destination] at planned
        by_cases rootless : u.inputs.isEmpty
        · simp only [rootless] at planned
          cases planned
        · simp only [rootless] at planned
          cases planned
          rfl

/-- Import maps come from texts, and from nowhere else. -/
def ImportsRead (u : Usage) : Prop :=
  ∀ m ∈ u.imports, ∃ text, ImportMap.read text = .ok m

theorem imports_of_plan (planned : u.plan = .ok p) :
    p.settings.imports.isEmpty = false ↔ p.settings.format = .globals := by
  obtain ⟨settings, checked⟩ := plan_ok planned
  rw [settings]
  have filled (m : ImportMap) (given : u.givenImports = some m) : m.isEmpty = false := by
    rw [givenImports, Option.filter_eq_some_iff] at given
    simpa using given.2
  unfold checkImports at checked
  cases given : u.givenImports with
  | none =>
    have unmapped : u.settings.imports.isEmpty = true := by
      simp only [Usage.settings, given]
      rfl
    have other : u.settings.format ≠ .globals := by
      intro globals
      have globals : u.format = .globals := globals
      rw [given, globals] at checked
      cases checked
    simp [unmapped, other]
  | some m =>
    have mapped : u.settings.imports.isEmpty = false := by
      simp only [Usage.settings, given, Option.getD_some]
      exact filled m given
    have globals : u.settings.format = .globals := by
      by_contra other
      have other : u.format ≠ .globals := other
      rw [given] at checked
      cases format : u.format <;> simp_all
    simp [mapped, globals]

theorem read_imports_of_plan (read : u.ImportsRead) (planned : u.plan = .ok p) :
    ImportMap.read (ImportMap.text p.settings.imports) = .ok p.settings.imports := by
  rw [(plan_ok planned).1, Usage.settings]
  cases given : u.givenImports with
  | none => rfl
  | some m =>
    rw [givenImports, Option.filter_eq_some_iff] at given
    obtain ⟨text, found⟩ := read m given.1
    exact ImportMap.read_text found

end Usage

namespace Command

/-- What a request tells, flag by flag. -/
def told (r : Request) : List (String × String) :=
  [("--type", r.settings.format.text)]
    ++ (r.moduleName.map ("--module-name", ·)).toList
    ++ (r.settings.globalName.map ("--global", ·)).toList
    ++ (if r.settings.imports.isEmpty then []
      else [("--imports", ImportMap.text r.settings.imports)])

def paired : List String → List (String × String)
  | flag :: value :: rest => (flag, value) :: paired rest
  | _ => []

def flags (c : Command) (arguments : List String) : List (String × String) :=
  paired (arguments.drop c.arguments.length)

variable {c : Command} {r r' : Request}

theorem paired_flatMap (pairs : List (String × String)) :
    paired (pairs.flatMap fun pair => [pair.1, pair.2]) = pairs := by
  induction pairs with
  | nil => rfl
  | cons pair pairs ih => exact congrArg (pair :: ·) ih

theorem argumentsFor_eq (c : Command) (r : Request) :
    c.argumentsFor r = c.arguments ++ (told r).flatMap fun pair => [pair.1, pair.2] := by
  have option_eq (name : String) (value : Option String) :
      option name value = (value.map (name, ·)).toList.flatMap fun pair => [pair.1, pair.2] := by
    cases value <;> rfl
  have imports : option "--imports"
      (if r.settings.imports.isEmpty then none else some (ImportMap.text r.settings.imports)) =
      (if r.settings.imports.isEmpty then []
        else [("--imports", ImportMap.text r.settings.imports)]).flatMap
          fun pair : String × String => [pair.1, pair.2] := by
    cases r.settings.imports.isEmpty <;> rfl
  simp only [argumentsFor, told, imports, option_eq, List.flatMap_append, List.append_assoc]
  rfl

theorem flags_argumentsFor (c : Command) (r : Request) : c.flags (c.argumentsFor r) = told r := by
  rw [flags, argumentsFor_eq, List.drop_left, paired_flatMap]

theorem lookup_told (r : Request) :
    (told r).lookup "--type" = some r.settings.format.text ∧
      (told r).lookup "--module-name" = r.moduleName ∧
      (told r).lookup "--global" = r.settings.globalName ∧
      (told r).lookup "--imports" =
        if r.settings.imports.isEmpty then none else some (ImportMap.text r.settings.imports) := by
  unfold told
  cases r.moduleName <;> cases r.settings.globalName <;> cases r.settings.imports.isEmpty <;>
    simp [Dictionary.lookup_cons_ite]

theorem mem_told_imports {value : String} : ("--imports", value) ∈ told r ↔
    r.settings.imports.isEmpty = false ∧ value = ImportMap.text r.settings.imports := by
  unfold told
  cases r.moduleName <;> cases r.settings.globalName <;> cases r.settings.imports.isEmpty <;> simp

theorem format_eq_of_text {f g : Format} (same : f.text = g.text) : f = g := by
  have found : Format.ofText? f.text = Format.ofText? g.text := by rw [same]
  simpa only [Format.ofText?_text, Option.some.injEq] using found

theorem imports_eq_of_told {m m' : ImportMap} (back : ImportMap.read m.text = .ok m)
    (back' : ImportMap.read m'.text = .ok m')
    (same : (if m.isEmpty then none else some m.text) =
      if m'.isEmpty then none else some m'.text) : m = m' := by
  cases empty : m.isEmpty with
  | true =>
    cases empty' : m'.isEmpty with
    | true => exact (Dictionary.eq_empty empty).trans (Dictionary.eq_empty empty').symm
    | false => simp [empty, empty'] at same
  | false =>
    cases empty' : m'.isEmpty with
    | true => simp [empty, empty'] at same
    | false =>
      have text : m.text = m'.text := by simpa [empty, empty'] using same
      rw [text, back'] at back
      exact (Except.ok.inj back).symm

/-- Two requests with settings of accepted usages have the same arguments just when a compiler is
to treat them alike, and nothing of them is lost: import maps are told when the format has use for
them, and read back from what is told. -/
theorem arguments_tell_request {u u' : Usage} {p p' : Plan} (read : u.ImportsRead)
    (read' : u'.ImportsRead) (planned : u.plan = .ok p) (planned' : u'.plan = .ok p')
    (settings : r.settings = p.settings) (settings' : r'.settings = p'.settings) :
    (c.argumentsFor r = c.argumentsFor r' ↔
      r.settings.format = r'.settings.format ∧ r.moduleName = r'.moduleName ∧
        r.settings.globalName = r'.settings.globalName ∧
        r.settings.imports = r'.settings.imports) ∧
      c.argumentsFor r = c.arguments ++
        (c.flags (c.argumentsFor r)).flatMap (fun pair => [pair.1, pair.2]) ∧
      ((∃ value, ("--imports", value) ∈ c.flags (c.argumentsFor r)) ↔
        r.settings.format = .globals) ∧
      ∀ value, ("--imports", value) ∈ c.flags (c.argumentsFor r) →
        ImportMap.read value = .ok r.settings.imports := by
  have back := Usage.read_imports_of_plan read planned
  have back' := Usage.read_imports_of_plan read' planned'
  have given := Usage.imports_of_plan planned
  have given' := Usage.imports_of_plan planned'
  rw [← settings] at back given
  rw [← settings'] at back' given'
  simp only [flags_argumentsFor, mem_told_imports]
  refine ⟨⟨fun same => ?_, ?_⟩, argumentsFor_eq c r, ?_, ?_⟩
  · have told_eq : told r = told r' := by
      rw [← flags_argumentsFor c r, ← flags_argumentsFor c r', same]
    obtain ⟨type, module, global, imports⟩ := lookup_told r
    obtain ⟨type', module', global', imports'⟩ := lookup_told r'
    rw [told_eq] at type module global imports
    have format : r.settings.format = r'.settings.format :=
      format_eq_of_text (Option.some.inj (type.symm.trans type'))
    exact ⟨format, module.symm.trans module', global.symm.trans global',
      imports_eq_of_told back back' (imports.symm.trans imports')⟩
  · rintro ⟨format, module, global, imports⟩
    simp only [argumentsFor, format, module, global, imports]
  · rw [← given]
    exact ⟨fun ⟨_, filled, _⟩ => filled, fun filled => ⟨_, filled, rfl⟩⟩
  · rintro value ⟨_, rfl⟩
    exact back

def exposing (moduleName globalName : Option String) : Usage where
  stream := true
  format := .globals
  imports := some (.ofList [("jquery", "$")])
  moduleName := moduleName
  globalName := globalName

theorem arguments_tell_names_like_flags :
    (exposing (some "--global") none).ImportsRead ∧
      (exposing none (some "--module-name")).ImportsRead ∧
      (exposing (some "--global") none).plan =
        .ok (.stream (exposing (some "--global") none).settings) ∧
      (exposing none (some "--module-name")).plan =
        .ok (.stream (exposing none (some "--module-name")).settings) ∧
      (Command.mk "sh" ["--imports"]).argumentsFor
          ⟨"", some "--global", (exposing (some "--global") none).settings⟩ ≠
        (Command.mk "sh" ["--imports"]).argumentsFor
          ⟨"", none, (exposing none (some "--module-name")).settings⟩ := by
  have read (module global : Option String) : (exposing module global).ImportsRead := by
    rintro m given
    obtain rfl := Option.some.inj given
    exact ⟨"jquery:$", rfl⟩
  refine ⟨read _ _, read _ _, rfl, rfl, fun same => ?_⟩
  obtain ⟨told, _⟩ := @arguments_tell_request ⟨"sh", ["--imports"]⟩
    ⟨"", some "--global", (exposing (some "--global") none).settings⟩
    ⟨"", none, (exposing none (some "--module-name")).settings⟩ _ _ (.stream _) (.stream _)
    (read _ _) (read _ _) rfl rfl rfl rfl
  exact absurd (told.mp same).2.1 (by simp)

end Command

end ModuleTree

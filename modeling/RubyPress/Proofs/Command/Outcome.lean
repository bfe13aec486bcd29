import Mathlib
import RubyPress.Command.Session
import RubyPress.Proofs.Command.Files

/-!
# What a run leaves behind

A run reads, renders, finds a place for the code and writes it, in this order, and everything that
can fail comes before the file is there. So a run that fails leaves the files as they were, and one
that succeeds changes the one file it says, or none if the code is printed.

What to do is settled field by field. A flag comes before the settings of the project, these come
before the settings of the user, and the default comes last. A settings file that is not there or is
malformed settles nothing.
-/

namespace RubyPress

/-- The first choice that is made, or the default. -/
def preferred {α : Type} (choices : List (Option α)) (default : α) : α :=
  (choices.findSome? id).getD default

namespace Settings

/-- The settings in the content of a file, all of them open if it cannot be read or is malformed. -/
def ofContent (content : Except FileError String) : Settings :=
  (content.toOption.bind parse?).getD {}

theorem ofContent_ok {source : String} {settings : Settings} (h : parse? source = some settings) :
    ofContent (.ok source) = settings := by
  rw [ofContent, Except.toOption, Option.bind_some, h, Option.getD_some]

theorem covering_open (settings : Settings) : settings.covering {} = settings := by
  simp [covering, RenderLayer.covering]

theorem open_covering (settings : Settings) : covering {} settings = settings := by
  simp [covering, RenderLayer.covering]

theorem addFile_snd (found : List Event × Settings) (path : RawText)
    (content : Except FileError String) :
    (addFile found path content).2 = (ofContent content).covering found.2 := by
  unfold addFile ofContent
  cases content with
  | error cause => exact (open_covering found.2).symm
  | ok source =>
      cases hparse : parse? source with
      | none => simp [hparse, Except.toOption, open_covering]
      | some settings => simp [hparse, Except.toOption]

end Settings

namespace Workspace

/-- The settings of the user, all of them open if there is no place for them. -/
def userSettings (workspace : Workspace) (environment : Environment) : Settings :=
  (environment.settingsPath?.map fun path =>
    Settings.ofContent (workspace.tree.readText workspace.directory path)).getD {}

def projectSettings (workspace : Workspace) : Settings :=
  .ofContent (workspace.tree.readText workspace.directory
    (Settings.projectPath workspace.currentPath))

theorem loadSettings_snd (workspace : Workspace) (environment : Environment) :
    (workspace.loadSettings environment).2 =
      workspace.projectSettings.covering (workspace.userSettings environment) := by
  unfold loadSettings Settings.ofFiles Settings.paths userSettings
  cases environment.settingsPath? with
  | none =>
      simp [Settings.addFile_snd, projectSettings]
  | some path => simp [Settings.addFile_snd, projectSettings, Settings.covering_open]

end Workspace

namespace Options

variable (options : Options) (project user : Settings)

def chosenConfig : RenderConfig :=
  if options.compact then ⟨.semicolon, .obfuscated⟩
  else ⟨preferred [options.separator, project.render.separator, user.render.separator] .newline,
    preferred [options.style, project.render.style, user.render.style] .verbose⟩

/-- What comes behind the base name of a derived path. -/
def chosenSuffix : String := preferred [project.suffix, user.suffix] "min.rb"

variable {options project user}

theorem renderConfig_covering :
    options.renderConfig (project.covering user) = options.chosenConfig project user := by
  have hpreferred {α : Type} (flag upper lower : Option α) (default : α) :
      (flag.or (upper.or lower)).getD default = preferred [flag, upper, lower] default := by
    cases flag <;> cases upper <;> cases lower <;> rfl
  unfold renderConfig chosenConfig
  split
  · rfl
  · simp only [RenderLayer.config, RenderLayer.covering, Settings.covering, hpreferred]
    rfl

theorem suffix_covering :
    (project.covering user).suffix.getD Writer.extension = chosenSuffix project user := by
  unfold Settings.covering chosenSuffix
  cases project.suffix <;> cases user.suffix <;> rfl

/-- Where the code of a run goes: it is printed, or it goes to the path asked for, or to a path next
to the input. Such a path is another place than the input, and the input is not standard input. -/
inductive GoesTo (options : Options) (suffix : String) : Option RawText → Prop where
  | printed (hstdout : options.stdout = true) : GoesTo options suffix none
  | asked (hstdout : options.stdout = false) {path : RawText} (hpath : options.output = some path) :
      GoesTo options suffix (some path)
  | derived (hstdout : options.stdout = false) (hpath : options.output = none)
      (hstdin : options.input ≠ .ofText "-")
      (hinput : Path.components (outputPath options.input suffix).bytes ≠
        Path.components options.input.bytes) :
      GoesTo options suffix (some (outputPath options.input suffix))

theorem readsStdin_iff : options.readsStdin = true ↔ options.input = .ofText "-" := beq_iff_eq

theorem samePath_iff {first second : RawText} :
    samePath first second = true ↔ Path.components first.bytes = Path.components second.bytes :=
  beq_iff_eq

theorem destination_eq_ok {settings : Settings} {path : Option RawText} :
    options.destination settings = .ok path ↔
      options.GoesTo (settings.suffix.getD Writer.extension) path := by
  constructor
  · intro h
    unfold destination at h
    split at h
    · next hstdout =>
        obtain rfl := Except.ok.inj h
        exact .printed hstdout
    next hstdout =>
    rw [Bool.not_eq_true] at hstdout
    split at h
    · next path hpath =>
        obtain rfl := Except.ok.inj h
        exact .asked hstdout hpath
    next hpath =>
    split at h
    · cases h
    next hstdin =>
    simp only at h
    split at h
    · cases h
    next hinput =>
    obtain rfl := Except.ok.inj h
    exact .derived hstdout hpath (hstdin ∘ readsStdin_iff.2) (hinput ∘ samePath_iff.2)
  · intro h
    cases h with
    | printed hstdout => simp [destination, hstdout]
    | asked hstdout hpath => simp [destination, hstdout, hpath]
    | derived hstdout hpath hstdin hinput =>
        simp [destination, hstdout, hpath, readsStdin_iff, samePath_iff, hstdin, hinput]

end Options

namespace Workspace

variable {workspace : Workspace} {options : Options} {settings : Settings} {outcome : Outcome}

/-- The input is a stored tree, and this is its text. -/
def Renders (workspace : Workspace) (options : Options) (config : RenderConfig) (code : String) :
    Prop :=
  ∃ content tree,
    (if options.input = .ofText "-" then workspace.stdin.asText
      else workspace.tree.readText workspace.directory options.input) = .ok content ∧
    readTree content = .ok tree ∧ renderProgram config tree = .ok code

/-- The files that are left when the code has gone to its destination. -/
inductive Leaves (workspace : Workspace) (code : String) : Option RawText → FileTree → Prop where
  | unchanged : Leaves workspace code none workspace.tree
  | written {path : RawText} {files : FileTree} {place : Location}
      (hplace : workspace.tree.target workspace.directory path = .ok place)
      (hread : files.readText workspace.directory path = .ok code)
      (hothers : ∀ other, other ≠ place → files.entry? other = workspace.tree.entry? other) :
      Leaves workspace code (some path) files

theorem Leaves.of_path {code : String} {path : RawText} {files : FileTree}
    (h : workspace.Leaves code (some path) files) :
    ∃ place, workspace.tree.target workspace.directory path = .ok place ∧
      files.readText workspace.directory path = .ok code ∧
      ∀ other, other ≠ place → files.entry? other = workspace.tree.entry? other := by
  cases h with
  | written hplace hread hothers => exact ⟨_, hplace, hread, hothers⟩

theorem prepare_eq_ok :
    (prepare options settings (workspace.input options)).result = .ok outcome ↔
      outcome.config = options.renderConfig settings ∧
        workspace.Renders options (options.renderConfig settings) outcome.code ∧
          options.destination settings = .ok outcome.path := by
  have hread : (if options.input = .ofText "-" then workspace.stdin.asText
      else workspace.tree.readText workspace.directory options.input) = workspace.input options :=
    if_congr Options.readsStdin_iff.symm rfl rfl
  unfold prepare Renders
  rw [hread]
  cases hinput : workspace.input options with
  | error cause => simp
  | ok content =>
      cases htree : readTree content with
      | error cause => simp [htree]
      | ok tree =>
          cases hcode : renderProgram (options.renderConfig settings) tree with
          | error cause => simp [htree, hcode]
          | ok code =>
              cases options.destination settings with
              | error failure => simp [htree, hcode]
              | ok path =>
                  simp only [htree, hcode, Except.ok.injEq]
                  constructor
                  · rintro rfl
                    exact ⟨rfl, ⟨content, tree, rfl, htree, hcode⟩, rfl⟩
                  · rintro ⟨hconfig, ⟨_, _, rfl, hother, hcode'⟩, rfl⟩
                    obtain rfl := Except.ok.inj (htree.symm.trans hother)
                    obtain rfl := Except.ok.inj (hcode.symm.trans hcode')
                    rw [← hconfig]

/-- A run fails and has changed nothing, or it succeeds with what it prepared and has left the files
to show it. -/
theorem run_cases (workspace : Workspace) (options : Options) (settings : Settings) :
    (∃ failure, (workspace.run options settings).1.result = .error failure ∧
      (workspace.run options settings).2 = workspace.tree) ∨
    ∃ outcome, (prepare options settings (workspace.input options)).result = .ok outcome ∧
      (workspace.run options settings).1.result = .ok outcome ∧
        workspace.Leaves outcome.code outcome.path (workspace.run options settings).2 := by
  cases hprepare : (prepare options settings (workspace.input options)).result with
  | error failure =>
      have hrun : workspace.run options settings =
          (prepare options settings (workspace.input options), workspace.tree) := by
        simp only [run, hprepare]
      exact .inl ⟨failure, by rw [hrun, hprepare], by rw [hrun]⟩
  | ok outcome =>
      cases hpath : outcome.path with
      | none =>
          have hrun : workspace.run options settings =
              (prepare options settings (workspace.input options), workspace.tree) := by
            simp only [run, hprepare, hpath]
          refine .inr ⟨outcome, rfl, by rw [hrun, hprepare], ?_⟩
          rw [hrun, hpath]
          exact .unchanged
      | some path =>
          cases hwrite : workspace.tree.writeText workspace.directory path outcome.code with
          | error cause =>
              exact .inl ⟨.unwritable path cause, by simp only [run, hprepare, hpath, hwrite],
                by simp only [run, hprepare, hpath, hwrite]⟩
          | ok files =>
              have hfiles : (workspace.run options settings).2 = files := by
                simp only [run, hprepare, hpath, hwrite]
              refine .inr ⟨outcome, rfl, by simp only [run, hprepare, hpath, hwrite], ?_⟩
              obtain ⟨place, hplace, hread, hothers⟩ := FileTree.readText_writeText hwrite
              rw [hfiles, hpath]
              exact .written hplace hread hothers

theorem run_of_prepare
    (h : (prepare options settings (workspace.input options)).result = .ok outcome)
    (hplace : ∀ path ∈ outcome.path, ∃ place,
      workspace.tree.target workspace.directory path = .ok place ∧
        workspace.tree.refusal place outcome.code = none) :
    (workspace.run options settings).1.result = .ok outcome := by
  unfold run
  simp only [h]
  cases hpath : outcome.path with
  | none => exact h
  | some path =>
      obtain ⟨place, htarget, hopen⟩ := hplace path hpath
      simp only [FileTree.writeText_eq_ok.2 ⟨place, htarget, hopen, rfl⟩]

end Workspace

/-- **A run writes one file or none.** A run that fails leaves all files as they are. One that
succeeds has rendered its input with the configuration that was chosen, and the code has gone where
it should go: a printed code leaves all files as they are, any other is in the file at its path, and
every other file is as it was. And a run succeeds if there is a code, a destination and a place for
the file at which a write is not refused. -/
theorem run_writes_all_or_nothing (workspace : Workspace) (environment : Environment)
    (options : Options) :
    let run := workspace.run options (workspace.loadSettings environment).2
    let project := workspace.projectSettings
    let user := workspace.userSettings environment
    let config := options.chosenConfig project user
    let suffix := Options.chosenSuffix project user
    (∀ failure, run.1.result = .error failure → run.2 = workspace.tree) ∧
    (∀ outcome, run.1.result = .ok outcome →
      outcome.config = config ∧ workspace.Renders options config outcome.code ∧
        options.GoesTo suffix outcome.path ∧ workspace.Leaves outcome.code outcome.path run.2) ∧
    ∀ code path, workspace.Renders options config code → options.GoesTo suffix path →
      (∀ file ∈ path, ∃ place, workspace.tree.target workspace.directory file = .ok place ∧
        workspace.tree.refusal place code = none) →
      run.1.result = .ok ⟨code, config, path⟩ := by
  intro run project user config suffix
  have hsettings : (workspace.loadSettings environment).2 = project.covering user :=
    workspace.loadSettings_snd environment
  have hprepare (outcome : Outcome) := @Workspace.prepare_eq_ok workspace options
    (project.covering user) outcome
  simp only [Options.renderConfig_covering, Options.destination_eq_ok, Options.suffix_covering]
    at hprepare
  rw [← hsettings] at hprepare
  have hcases := workspace.run_cases options (workspace.loadSettings environment).2
  refine ⟨fun failure h => ?_, fun outcome h => ?_, fun code path hcode hpath hplace => ?_⟩
  · rcases hcases with ⟨_, -, hfiles⟩ | ⟨outcome, -, hok, -⟩
    · exact hfiles
    · cases h.symm.trans hok
  · rcases hcases with ⟨failure, herror, -⟩ | ⟨found, hfound, hok, hleaves⟩
    · cases h.symm.trans herror
    · obtain rfl := Except.ok.inj (h.symm.trans hok)
      obtain ⟨hconfig, hcode, hpath⟩ := (hprepare outcome).1 hfound
      exact ⟨hconfig, hcode, hpath, hleaves⟩
  · exact Workspace.run_of_prepare ((hprepare _).2 ⟨rfl, hcode, hpath⟩) hplace

/-- The user chooses the style and the project the suffix. The code is next to the input, which is
as it was. -/
theorem run_writes_all_or_nothing_of_layers :
    let tree : FileTree := {
      entries := [(["w"], .directory), (["w", ".minify"], .directory), (["h"], .directory),
        (["h", "minify"], .directory),
        (["w", "app.rb.json"], .file (.text "[\"boolean_literal\",true]")),
        (["w", ".minify", "config.toml"], .file (.text "output.suffix = \"rb\"")),
        (["h", "minify", "config.toml"],
          .file (.text "[render]\nliteral_style = \"obfuscated\""))]
      refusal := fun place _ =>
        if place = [.ofText "w", .ofText "full"] then some (.other "disk full") else none }
    let workspace : Workspace := { directory := ["w"], tree := tree }
    let options : Options := { input := "app.rb.json", separator := some .semicolon }
    let run := workspace.run options (workspace.loadSettings { configHome := some "/h" }).2
    run.1.result = .ok ⟨"!!1", ⟨.semicolon, .obfuscated⟩, some "app.rb"⟩ ∧
      run.2.readText ["w"] "app.rb" = .ok "!!1" ∧
      FileTree.entry? run.2 ["w", "app.rb.json"] = tree.entry? ["w", "app.rb.json"] := by
  intro tree workspace options run
  have huser : workspace.userSettings { configHome := some "/h" } =
      ⟨⟨none, some .obfuscated⟩, none⟩ := by
    have hpath : Environment.settingsPath? { configHome := some "/h" } =
        some (.ofText "/h/minify/config.toml") := by decide
    have hread : tree.readText ["w"] "/h/minify/config.toml" =
        .ok "[render]\nliteral_style = \"obfuscated\"" := by decide
    have hparse : Settings.parse? "[render]\nliteral_style = \"obfuscated\"" =
        some ⟨⟨none, some .obfuscated⟩, none⟩ := by cbv
    rw [Workspace.userSettings, hpath, Option.map_some, Option.getD_some, hread,
      Settings.ofContent_ok hparse]
  have hproject : workspace.projectSettings = ⟨{}, some "rb"⟩ := by
    have hpath : Settings.projectPath workspace.currentPath = .ofText "/w/.minify/config.toml" := by
      decide
    have hread : tree.readText ["w"] "/w/.minify/config.toml" =
        .ok "output.suffix = \"rb\"" := by decide
    have hparse : Settings.parse? "output.suffix = \"rb\"" = some ⟨{}, some "rb"⟩ := by cbv
    rw [Workspace.projectSettings, hpath, hread, Settings.ofContent_ok hparse]
  have hconfig : options.chosenConfig workspace.projectSettings
      (workspace.userSettings { configHome := some "/h" }) = ⟨.semicolon, .obfuscated⟩ := by
    rw [huser, hproject]
    rfl
  have hsuffix : Options.chosenSuffix workspace.projectSettings
      (workspace.userSettings { configHome := some "/h" }) = "rb" := by
    rw [huser, hproject]
    rfl
  have hall := run_writes_all_or_nothing workspace { configHome := some "/h" } options
  have hrun : workspace.run options (workspace.loadSettings { configHome := some "/h" }).2 = run :=
    rfl
  simp only [hconfig, hsuffix, hrun] at hall
  -- What the run gives is known from here on, so that it is not computed.
  clear_value run
  obtain ⟨-, hdone, hsucceeds⟩ := hall
  have hcode : workspace.Renders options ⟨.semicolon, .obfuscated⟩ "!!1" :=
    ⟨"[\"boolean_literal\",true]", .boolean true, by decide, by cbv, by decide +kernel⟩
  have hderived : outputPath "app.rb.json" "rb" = .ofText "app.rb" := by decide
  have hpath : options.GoesTo "rb" (some "app.rb") := by
    rw [← hderived]
    exact .derived rfl rfl (by decide) (by decide +kernel)
  have hplace : tree.target ["w"] "app.rb" = .ok ["w", "app.rb"] := by decide
  have hopen : tree.refusal ["w", "app.rb"] "!!1" = none := by decide
  have hok := hsucceeds _ _ hcode hpath fun file hfile => by
    obtain rfl := Option.mem_some.1 hfile
    exact ⟨_, hplace, hopen⟩
  refine ⟨hok, ?_⟩
  obtain ⟨-, -, -, hleaves⟩ := hdone _ hok
  obtain ⟨place, htarget, hread, hothers⟩ := hleaves.of_path
  obtain rfl := Except.ok.inj (hplace.symm.trans htarget)
  exact ⟨hread, hothers _ (by decide)⟩

end RubyPress

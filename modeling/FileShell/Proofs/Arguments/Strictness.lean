import FileShell.Proofs.Arguments.Reading
import FileShell.Proofs.Session.FrontEnds
import FileShell.Proofs.Settings.Fields

/-!
# Which strict mode a session has

A flag among the arguments takes precedence over the configuration text, and in both the last one
counts (`StrictBy`). A session has the mode when it is opened, and every line of its run is executed
in it (`RunsIn`). Main statement: `Program.arguments_decide`.
-/

namespace FileShell

open Arguments

/-- The strict mode that the arguments and a configuration text ask for. -/
inductive Settings.StrictBy (arguments : List String) (text : String) : Bool → Prop
  | flag {on : Bool} : LastOf GivesStrict arguments on → StrictBy arguments text on
  | configured {on : Bool} : (∀ argument ∈ arguments, ∀ v, ¬ GivesStrict argument v) →
      SetsLast (Text.lines text) .strict on → StrictBy arguments text on
  | unset : (∀ argument ∈ arguments, ∀ v, ¬ GivesStrict argument v) →
      (∀ line ∈ Text.lines text, ∀ v, ¬ Sets line .strict v) → StrictBy arguments text false

namespace Settings

variable {arguments : List String} {text : String} {options : Options} {on : Bool}

theorem strict_read_of_setsLast (h : SetsLast (Text.lines text) .strict on) (s : Settings) :
    (s.read text).1.strict = on := by
  rw [read_eq]
  exact h.get_foldl_directives s

theorem strict_read_of_not_sets (h : ∀ line ∈ Text.lines text, ∀ v, ¬ Sets line .strict v)
    (s : Settings) : (s.read text).1.strict = s.strict := by
  rw [read_eq]
  exact get_foldl_directives_of_not_sets h s

theorem StrictBy.getD_eq (h : StrictBy arguments text on) (hasks : Asks arguments options) :
    options.strict.getD (read {} text).1.strict = on := by
  cases h with
  | flag hlast => rw [(hasks.strict_eq_some_iff on).mpr hlast, Option.getD_some]
  | configured hnone hlast =>
    rw [hasks.strict_eq_none_iff.mpr hnone, Option.getD_none, strict_read_of_setsLast hlast]
  | unset hnone hnot =>
    rw [hasks.strict_eq_none_iff.mpr hnone, Option.getD_none, strict_read_of_not_sets hnot]

theorem strictBy_getD (hasks : Asks arguments options) (text : String) :
    StrictBy arguments text (options.strict.getD (read {} text).1.strict) := by
  cases hstrict : options.strict with
  | some on => exact .flag ((hasks.strict_eq_some_iff on).mp hstrict)
  | none =>
    have hnone := hasks.strict_eq_none_iff.mp hstrict
    rw [Option.getD_none]
    by_cases h : ∃ line ∈ Text.lines text, ∃ v, Sets line .strict v
    · obtain ⟨on, hlast⟩ := exists_setsLast h
      rw [strict_read_of_setsLast hlast]
      exact .configured hnone hlast
    · have hnot : ∀ line ∈ Text.lines text, ∀ v, ¬ Sets line .strict v :=
        fun line hline v hv => h ⟨line, hline, v, hv⟩
      rw [strict_read_of_not_sets hnot]
      exact .unset hnone hnot

/-- The options come before what the text says, whose last word on it counts. -/
theorem getD_strict_eq_iff (hasks : Asks arguments options) :
    options.strict.getD (read {} text).1.strict = on ↔ StrictBy arguments text on := by
  constructor
  · rintro rfl
    exact strictBy_getD hasks text
  · exact fun h => h.getD_eq hasks

end Settings

namespace Session

variable {s : Session} {p : Progress} {segment : Bytes} {line : String}

/-- A run of a session in which every line is executed in this strict mode. -/
inductive RunsIn (s : Session) (strict : Bool) : Progress → List Bytes → Ending → Prop
  | ended (p : Progress) : RunsIn s strict p [] ⟨s.prompt p.status ++ s.closing, p.status, p.disk⟩
  | skipped {p : Progress} {segment : Bytes} {rest : List Bytes} {output : Output}
      {ending : Ending} : (∀ line, s.read segment ≠ .line line) →
      s.step p segment = (output, .goOn p.status, p.disk) → RunsIn s strict p rest ending →
      RunsIn s strict p (segment :: rest)
        ⟨s.prompt p.status ++ output ++ ending.output, ending.code, ending.disk⟩
  | left {p : Progress} {segment : Bytes} {rest : List Bytes} {line : String} {output : Output}
      {code : Nat} : s.read segment = .line line →
      s.tell line (Line.execute strict s.root line p.disk).result = (output, .leave code) →
      RunsIn s strict p (segment :: rest)
        ⟨s.prompt p.status ++ output, code, (Line.execute strict s.root line p.disk).disk⟩
  | executed {p : Progress} {segment : Bytes} {rest : List Bytes} {line : String}
      {output : Output} {status : Nat} {ending : Ending} : s.read segment = .line line →
      s.tell line (Line.execute strict s.root line p.disk).result = (output, .goOn status) →
      RunsIn s strict ⟨(Line.execute strict s.root line p.disk).disk, status⟩ rest ending →
      RunsIn s strict p (segment :: rest)
        ⟨s.prompt p.status ++ output ++ ending.output, ending.code, ending.disk⟩

/-- Only a line has an effect on the disk and the status. -/
theorem step_of_not_line (h : ∀ line, s.read segment ≠ .line line) (p : Progress) :
    ∃ output, s.step p segment = (output, .goOn p.status, p.disk) := by
  rw [step]
  cases hread : s.read segment with
  | blank => exact ⟨_, rfl⟩
  | unreadable fault => exact ⟨_, rfl⟩
  | line text => exact absurd hread (h text)

theorem step_of_line (h : s.read segment = .line line) (p : Progress) :
    s.step p segment =
      ((s.tell line (Line.execute s.settings.strict s.root line p.disk).result).1,
        (s.tell line (Line.execute s.settings.strict s.root line p.disk).result).2,
        (Line.execute s.settings.strict s.root line p.disk).disk) := by
  rw [step, h]

theorem runsIn_run (s : Session) (p : Progress) (segments : List Bytes) :
    s.RunsIn s.settings.strict p segments (s.run p segments) := by
  induction segments generalizing p with
  | nil => exact .ended p
  | cons segment rest ih =>
    rw [run]
    by_cases hline : ∃ line, s.read segment = .line line
    · obtain ⟨line, hline⟩ := hline
      rw [step_of_line hline]
      cases htell : s.tell line (Line.execute s.settings.strict s.root line p.disk).result with
      | mk output verdict =>
        cases verdict with
        | leave code => exact .left hline htell
        | goOn status => exact .executed hline htell (ih _)
    · have hnone := not_exists.mp hline
      obtain ⟨output, hstep⟩ := step_of_not_line hnone p
      rw [hstep]
      exact .skipped hnone hstep (ih p)

end Session

namespace Program

/-- A start on the disk `d` whose arguments ask for a run with these options, which is done on the
disk `inside`, that is in the directory they give, and with a configuration file that holds
`text`. -/
structure Configured (start : Start) (d inside : Disk) (options : Options) (text : String) :
    Prop where
  read_eq : Arguments.read start.arguments = .ok (.run options)
  enters : options.root = none ∧ inside = d ∨
    ∃ root, options.root = some root ∧ d.enter root = .ok inside
  loads : ∃ path, start.environment.configurationPath = some path ∧ inside.textAt path = .ok text

section Configured

variable {start : Start} {d inside : Disk} {options : Options} {text : String}

theorem Configured.load_eq (h : Configured start d inside options text) :
    Settings.load {} start.environment inside = .ok (Settings.read {} text) := by
  obtain ⟨path, hpath, htext⟩ := h.loads
  simp only [Settings.load, hpath, htext, Settings.ofReading]

theorem Configured.strict_opening (h : Configured start d inside options text) :
    (opening start options inside).1.settings.strict =
      options.strict.getD (Settings.read {} text).1.strict := by
  simp only [opening, openSession, h.load_eq]

theorem Configured.run_eq (h : Configured start d inside options text) (input : Bytes) :
    run start input d = runSession start options input inside := by
  rw [run, h.read_eq]
  rcases h.enters with ⟨hroot, rfl⟩ | ⟨root, hroot, henter⟩
  · simp only [hroot]
  · simp only [hroot, henter]

end Configured

/-- What the arguments ask for is settled by the first one that asks for help or is bad, and else by
the last one that gives each option. The program then runs a session with the strict mode of the
last flag, or else of the last line of the configuration text that sets it, or else without; and all
lines are executed in this mode. -/
theorem arguments_decide (start : Start) :
    (Arguments.read start.arguments = .ok .help ↔
      ∃ before argument after, start.arguments = before ++ argument :: after ∧ IsHelp argument ∧
        ∀ earlier ∈ before, ¬ Bad earlier) ∧
    ((∃ error, Arguments.read start.arguments = .error error) ↔
      ∃ before argument after, start.arguments = before ++ argument :: after ∧ Bad argument ∧
        ∀ earlier ∈ before, ¬ IsHelp earlier) ∧
    (∀ error, Arguments.read start.arguments = .error error ↔
      ∃ before argument after, start.arguments = before ++ argument :: after ∧ Bad argument ∧
        (∀ earlier ∈ before, ¬ IsHelp earlier ∧ ¬ Bad earlier) ∧ error = errorFor argument) ∧
    (∀ options, Arguments.read start.arguments = .ok (.run options) ↔
      (∀ argument ∈ start.arguments, ¬ IsHelp argument ∧ ¬ Bad argument) ∧
        Asks start.arguments options) ∧
    ∀ (d inside : Disk) (options : Options) (text : String),
      Configured start d inside options text →
      ∃ s report, opening start options inside = (s, report) ∧
        (∀ on, s.settings.strict = on ↔ Settings.StrictBy start.arguments text on) ∧
        ∀ input, ∃ ending disk,
          s.RunsIn s.settings.strict ⟨inside, 0⟩ (Input.segments input) ending ∧
            run start input d = ⟨report ++ ending.output, ending.code, disk⟩ := by
  refine ⟨read_eq_help_iff, exists_read_eq_error_iff, fun _ => read_eq_error_iff,
    fun _ => read_eq_run_iff, ?_⟩
  intro d inside options text h
  have hasks := (read_eq_run_iff.mp h.read_eq).2
  refine ⟨(opening start options inside).1, (opening start options inside).2, rfl, fun on => ?_,
    fun input => ⟨_, _, Session.runsIn_run _ _ _, h.run_eq input⟩⟩
  rw [h.strict_opening]
  exact Settings.getD_strict_eq_iff hasks

/-- A start with a configuration file. -/
def startOn (arguments : List String) : Start where
  arguments := arguments
  environment := { rc := some "rc" }

/-- A disk with the configuration file. -/
def diskWith (text : String) : Disk where
  tree := { entries := [(["rc"], .object 1)], objects := [(1, .file (Text.encode text))] }

/-- Started with these arguments and this configuration, a session has the strict mode or has it
not, and words after `exit` end it with a code. -/
def EndsWith (arguments : List String) (text : String) (strict : Bool) (code : Nat) : Prop :=
  ∃ (options : Options) (s : Session) (ending : Ending),
    Configured (startOn arguments) (diskWith text) (diskWith text) options text ∧
    s.settings.strict = strict ∧
    s.RunsIn strict ⟨diskWith text, 0⟩ (Input.segments (Text.encode "exit now\n")) ending ∧
    ending.code = code

/-- The last flag counts, whatever the configuration says, and then the last line of the
configuration that sets the mode; a comment and a bad line do not. Help that is asked for before
anything bad is given. -/
theorem arguments_decide_wavering :
    EndsWith ["--no-strict", "-x", "--strict"] "strict=off\n" true 2 ∧
    EndsWith ["-x"] "strict=off\nstrict = 'Yes'\ntheme=\n" true 2 ∧
    EndsWith [] "#strict=on\nstrict=maybe" false 0 ∧
    Arguments.read ["-x", "--help", "--root="] = .ok .help := by
  have hends : ∀ arguments text options on code,
      Configured (startOn arguments) (diskWith text) (diskWith text) options text →
      Settings.StrictBy arguments text on →
      (run (startOn arguments) (Text.encode "exit now\n") (diskWith text)).code = code →
      EndsWith arguments text on code := by
    intro arguments text options on code hconfigured hby hcode
    obtain ⟨-, -, -, -, hsession⟩ := arguments_decide (startOn arguments)
    obtain ⟨s, report, -, hstrict, hruns⟩ := hsession _ _ _ _ hconfigured
    have hon : s.settings.strict = on := (hstrict on).mpr hby
    rw [hon] at hruns
    obtain ⟨ending, disk, hending, hrun⟩ := hruns (Text.encode "exit now\n")
    rw [hrun] at hcode
    exact ⟨options, s, ending, hconfigured, hon, hending, hcode⟩
  have hnone : ∀ argument ∈ ["-x"], ∀ v, ¬ GivesStrict argument v := by
    intro argument hargument v h
    rw [List.mem_singleton.mp hargument, GivesStrict] at h
    cases v
    · exact absurd h (by decide)
    · exact absurd h (by decide)
  have hlines : Text.lines "strict=off\nstrict = 'Yes'\ntheme=\n" =
      ["strict=off", "strict = 'Yes'", "theme="] := by decide +kernel
  have hyes : Directive.valid? "strict = 'Yes'" = some (.strict true) := by decide +kernel
  have hcomment : Text.lines "#strict=on\nstrict=maybe" = ["#strict=on", "strict=maybe"] := by
    decide +kernel
  refine ⟨?_, ?_, ?_, ?_⟩
  · refine hends _ _ ⟨true, some true, none⟩ true 2 ⟨rfl, Or.inl ⟨rfl, rfl⟩, "rc", rfl, ?_⟩
      (.flag ?_) ?_
    · decide +kernel
    · exact ⟨["--no-strict", "-x"], "--strict", [], rfl, rfl, fun later h => absurd h List.not_mem_nil⟩
    · decide +kernel
  · refine hends _ _ ⟨true, none, none⟩ true 2 ⟨rfl, Or.inl ⟨rfl, rfl⟩, "rc", rfl, ?_⟩
      (.configured hnone ?_) ?_
    · decide +kernel
    · exact ⟨["strict=off"], _, _, hlines, ⟨_, Directive.valid?_eq_some_iff.mp hyes, .strict true⟩,
        Settings.not_sets_of_all (by decide +kernel)⟩
    · decide +kernel
  · refine hends _ _ ⟨false, none, none⟩ false 0 ⟨rfl, Or.inl ⟨rfl, rfl⟩, "rc", rfl, ?_⟩
      (.unset (List.forall_mem_nil _) ?_) ?_
    · decide +kernel
    · rw [hcomment]
      exact Settings.not_sets_of_all (by decide +kernel)
    · decide +kernel
  · refine (arguments_decide { arguments := ["-x", "--help", "--root="] }).1.mpr
      ⟨["-x"], "--help", ["--root="], rfl, Or.inr rfl, fun earlier hearlier hbad => hbad.1 ?_⟩
    rw [List.mem_singleton.mp hearlier]
    decide

end Program

end FileShell

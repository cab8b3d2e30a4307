import FileShell.Program
import FileShell.Proofs.Command.Execution
import FileShell.Proofs.Diagnostic.Pointer
import FileShell.Proofs.Session.Reading

/-!
# Runs of a session

What a session that nobody types to does with its input: `Takes` says it of one segment, with one
case for each way to take it, and `Runs` of all of them. Both are functions (`takes_iff`,
`runs_iff`). Main statement: `serve_append`, on what runs on inputs one after the other come to.
-/

namespace FileShell

namespace Output

theorem append_assoc (a b c : Output) : a ++ b ++ c = a ++ (b ++ c) := by
  show Output.mk (a.out ++ b.out ++ c.out) (a.err ++ b.err ++ c.err) = _
  rw [String.append_assoc, String.append_assoc]
  rfl

theorem empty_append (a : Output) : ({} : Output) ++ a = a := by
  show Output.mk ("" ++ a.out) ("" ++ a.err) = a
  rw [String.empty_append, String.empty_append]

end Output

theorem Line.position_diagnose (r : Rejection) : (diagnose r).position = some r.offset := by
  unfold diagnose
  split
  · split
    · rfl
    · rfl
  · rfl

theorem Line.status_diagnose (r : Rejection) : (diagnose r).status = 2 := by
  unfold diagnose
  split
  · split
    · rfl
    · rfl
  · rfl

theorem Line.render_failure (fault : Fault) (line : String) :
    (failure fault).render line = "File error: " ++ fault.message := by
  show "File error" ++ ": " ++ fault.message ++ "" = _
  rw [String.append_empty]
  rfl

theorem Line.exists_report {strict : Bool} {line : String} {r : Rejection}
    (h : Command.ofLine strict line = .error r) :
    ∃ report, (diagnose r).render? line = some report := by
  obtain ⟨pointer, hpointer⟩ := Diagnostic.exists_pointer (Command.Refused.of_ofTokens h)
  refine ⟨(diagnose r).headline ++ pointer ++ (diagnose r).hintLine, ?_⟩
  rw [Diagnostic.render?, position_diagnose]
  simp only [hpointer, Option.map_some]

theorem Command.ofLine_blank (strict : Bool) : ofLine strict "" = .error ⟨.empty, 0, 0, none⟩ := by
  with_unfolding_all rfl

namespace Session

/-- Nobody types the lines, and no prompt is printed. -/
structure Plain (s : Session) : Prop where
  interactive : s.interactive = false
  prompting : s.prompting = false

/-- What is printed on a line that is executed on the disk `d`, whether the session goes on, and
the disk after it. All that is printed apart from the trace is one confirmation or one report. -/
inductive Answers (s : Session) (d : Disk) (line : String) : Output → Verdict → Disk → Prop
  | done {c : Command} {confirmation : String} {after : Disk} :
      Command.ofLine s.settings.strict line = .ok c →
      c.Performs s.root d after confirmation → '\n' ∉ confirmation.toList →
      Answers s d line (s.traceOutput line ++ { out := confirmation ++ "\n" }) (.goOn 0) after
  | rejected {r : Rejection} {report : String} :
      Command.ofLine s.settings.strict line = .error r →
      (Line.diagnose r).render? line = some report →
      Answers s d line (s.traceOutput line ++ { err := report ++ "\n" }) (.goOn 2) d
  | failed {c : Command} {fault : Fault} :
      Command.ofLine s.settings.strict line = .ok c →
      (c.execute s.root d).result = .error fault →
      Answers s d line (s.traceOutput line ++ { err := "File error: " ++ fault.message ++ "\n" })
        (.goOn 1) d
  | left {c : Command} : Command.ofLine s.settings.strict line = .ok c → c.kind = .exit →
      Answers s d line (s.traceOutput line) (.leave 0) d

/-- What a session does with one segment of its input. -/
inductive Takes (s : Session) (p : Progress) (segment : Bytes) : Output → Verdict → Disk → Prop
  | unreadable : Text.decode? segment = none →
      Takes s p segment { err := "error: stream did not contain valid UTF-8\n" }
        (.goOn p.status) p.disk
  | blank {text : String} : Text.decode? segment = some text → Text.trim text = "" →
      Takes s p segment {} (.goOn p.status) p.disk
  | line {text : String} {output : Output} {verdict : Verdict} {after : Disk} :
      Text.decode? segment = some text → Text.trim text ≠ "" →
      Answers s p.disk (Text.trim text) output verdict after →
      Takes s p segment output verdict after

/-- The run of a session on the segments of its input, from its progress so far. -/
inductive Runs (s : Session) : Progress → List Bytes → Ending → Prop
  | ended (p : Progress) : Runs s p [] ⟨{}, p.status, p.disk⟩
  | left {p : Progress} {segment : Bytes} {rest : List Bytes} {output : Output} {code : Nat}
      {after : Disk} : Takes s p segment output (.leave code) after →
      Runs s p (segment :: rest) ⟨output, code, after⟩
  | more {p : Progress} {segment : Bytes} {rest : List Bytes} {output : Output} {status : Nat}
      {after : Disk} {ending : Ending} : Takes s p segment output (.goOn status) after →
      Runs s ⟨after, status⟩ rest ending →
      Runs s p (segment :: rest) ⟨output ++ ending.output, ending.code, ending.disk⟩

/-- A segment that ends the session: an accepted `exit`. -/
def Exits (s : Session) (segment : Bytes) : Prop :=
  ∃ text c, Text.decode? segment = some text ∧
    Command.ofLine s.settings.strict (Text.trim text) = .ok c ∧ c.kind = .exit

instance (s : Session) (segment : Bytes) : Decidable (s.Exits segment) :=
  decidable_of_iff
    (∃ text ∈ Text.decode? segment,
      ∃ c ∈ (Command.ofLine s.settings.strict (Text.trim text)).toOption, c.kind = .exit) <| by
    constructor
    · rintro ⟨text, htext, c, hc, hkind⟩
      cases hline : Command.ofLine s.settings.strict (Text.trim text) with
      | error r =>
        rw [hline] at hc
        cases hc
      | ok found =>
        rw [hline] at hc
        cases hc
        exact ⟨text, c, htext, hline, hkind⟩
    · rintro ⟨text, c, htext, hline, hkind⟩
      exact ⟨text, htext, c, by rw [hline]; rfl, hkind⟩

variable {s : Session} {p : Progress} {d after : Disk} {line : String} {segment : Bytes}
  {output : Output} {verdict : Verdict}

theorem answers_iff : Answers s d line output verdict after ↔
    s.tell line (Line.execute s.settings.strict s.root line d).result = (output, verdict) ∧
      (Line.execute s.settings.strict s.root line d).disk = after := by
  have hreject : ∀ {r : Rejection} {report : String},
      (Line.diagnose r).render? line = some report →
      s.tell line (.error (Line.diagnose r)) =
        (s.traceOutput line ++ { err := report ++ "\n" }, .goOn 2) := by
    intro r report hreport
    rw [tell, Diagnostic.render, hreport, Line.status_diagnose]
    rfl
  have hfail : ∀ fault, s.tell line (.error (Line.failure fault)) =
      (s.traceOutput line ++ { err := "File error: " ++ fault.message ++ "\n" }, .goOn 1) := by
    intro fault
    rw [tell, Line.render_failure]
    rfl
  constructor
  · intro h
    cases h with
    | rejected hline hreport =>
      rw [Line.execute_of_error hline]
      exact ⟨hreject hreport, rfl⟩
    | @failed c fault hline hresult =>
      obtain ⟨hline, hdisk⟩ := Line.execute_of_ok hline s.root d
      rw [hline, hdisk, hresult]
      exact ⟨hfail fault, c.atomic_execute s.root d (Or.inl ⟨fault, hresult⟩)⟩
    | done hline hperforms =>
      obtain ⟨hresult, hafter⟩ := hperforms.execute
      obtain ⟨hline, hdisk⟩ := Line.execute_of_ok hline s.root d
      rw [hline, hdisk, hresult]
      exact ⟨rfl, hafter⟩
    | left hline hkind =>
      obtain ⟨hline, hdisk⟩ := Line.execute_of_ok hline s.root d
      rw [hline, hdisk, Command.execute_of_exit hkind]
      exact ⟨rfl, rfl⟩
  · rintro ⟨htell, rfl⟩
    cases hline : Command.ofLine s.settings.strict line with
    | error r =>
      obtain ⟨report, hreport⟩ := Line.exists_report hline
      rw [Line.execute_of_error hline] at htell ⊢
      cases (hreject hreport).symm.trans htell
      exact .rejected hline hreport
    | ok c =>
      obtain ⟨hexecute, hdisk⟩ := Line.execute_of_ok hline s.root d
      rw [hexecute] at htell
      rw [hdisk]
      rcases c.execute_outcome (Command.length_operands_of_ofLine hline) s.root d with
        ⟨fault, hresult, hsame⟩ | ⟨hkind, hresult, hsame⟩ | ⟨confirmation, hresult, hperforms⟩
      · rw [hresult] at htell
        cases (hfail fault).symm.trans htell
        rw [hsame]
        exact .failed hline hresult
      · rw [hresult] at htell
        cases htell
        rw [hsame]
        exact .left hline hkind
      · rw [hresult] at htell
        cases htell
        have hnames := Command.isComponent_of_ofLine hline
        exact .done hline hperforms (hperforms.lineFeed_notMem hnames)

theorem read_of_decode_none (hs : s.Plain) (h : Text.decode? segment = none) :
    s.read segment = .unreadable .notText := by
  simp [read, hs.interactive, Input.readLine, h]

theorem read_of_decode (hs : s.Plain) {text : String} (h : Text.decode? segment = some text) :
    s.read segment =
      if Text.trim text = "" then .blank else .line (Text.trim text) := by
  obtain ⟨line, hread, htrim⟩ := Input.readLine_of_decode h
  simp only [read, hs.interactive, Bool.false_eq_true, if_false, hread, htrim]

theorem takes_iff (hs : s.Plain) :
    Takes s p segment output verdict after ↔ s.step p segment = (output, verdict, after) := by
  constructor
  · intro h
    cases h with
    | unreadable hdecode =>
      rw [step, read_of_decode_none hs hdecode]
      rfl
    | blank hdecode htrim => rw [step, read_of_decode hs hdecode, if_pos htrim]
    | line hdecode htrim hanswers =>
      obtain ⟨htell, hdisk⟩ := answers_iff.mp hanswers
      rw [step, read_of_decode hs hdecode, if_neg htrim]
      simp only [htell, hdisk]
  · intro h
    cases hdecode : Text.decode? segment with
    | none =>
      rw [step, read_of_decode_none hs hdecode] at h
      cases h
      exact .unreadable hdecode
    | some text =>
      rw [step, read_of_decode hs hdecode] at h
      by_cases htrim : Text.trim text = ""
      · rw [if_pos htrim] at h
        cases h
        exact .blank hdecode htrim
      · rw [if_neg htrim] at h
        cases h
        exact .line hdecode htrim (answers_iff.mpr ⟨rfl, rfl⟩)

theorem prompt_of_plain (hs : s.Plain) (status : Nat) : s.prompt status = {} := by
  rw [prompt, hs.prompting]
  rfl

theorem closing_of_plain (hs : s.Plain) : s.closing = {} := by
  rw [closing, hs.interactive]
  rfl

/-- A run is what the session computes, so there is one and only one. -/
theorem runs_iff (hs : s.Plain) {segments : List Bytes} {e : Ending} :
    Runs s p segments e ↔ s.run p segments = e := by
  constructor
  · intro h
    induction h with
    | ended p => rw [run, prompt_of_plain hs, closing_of_plain hs, Output.empty_append]
    | left htakes =>
      rw [run, (takes_iff hs).mp htakes]
      simp only [prompt_of_plain hs, Output.empty_append]
    | more htakes _ ih =>
      rw [run, (takes_iff hs).mp htakes]
      simp only [ih, prompt_of_plain hs, Output.empty_append]
  · rintro rfl
    induction segments generalizing p with
    | nil =>
      rw [run, prompt_of_plain hs, closing_of_plain hs, Output.empty_append]
      exact .ended p
    | cons segment rest ih =>
      rw [run]
      split
      · next output code disk hstep =>
        rw [prompt_of_plain hs, Output.empty_append]
        exact .left ((takes_iff hs).mpr hstep)
      · next output status disk hstep =>
        rw [prompt_of_plain hs, Output.empty_append]
        exact .more ((takes_iff hs).mpr hstep) ih

/-- A session is left at an accepted `exit` and nowhere else, and then with code 0. -/
theorem Takes.exits (h : Takes s p segment output verdict after) :
    s.Exits segment ∧ verdict = .leave 0 ∨
      ¬ s.Exits segment ∧ ∃ status, verdict = .goOn status := by
  cases h with
  | unreadable hdecode =>
    refine Or.inr ⟨?_, _, rfl⟩
    rintro ⟨text, c, hsome, -⟩
    rw [hdecode] at hsome
    cases hsome
  | blank hdecode htrim =>
    refine Or.inr ⟨?_, _, rfl⟩
    rintro ⟨text, c, hsome, hline, -⟩
    rw [hdecode] at hsome
    cases hsome
    rw [htrim, Command.ofLine_blank] at hline
    cases hline
  | @line text _ _ _ hdecode htrim hanswers =>
    -- Whether it is an exit depends on what has been read from this line and nothing else.
    have hexits : ∀ {x}, Command.ofLine s.settings.strict (Text.trim text) = x →
        (s.Exits segment ↔ ∃ c, x = .ok c ∧ c.kind = .exit) := by
      rintro x rfl
      constructor
      · rintro ⟨other, c, hother, hline, hkind⟩
        rw [hdecode] at hother
        cases hother
        exact ⟨c, hline, hkind⟩
      · rintro ⟨c, hline, hkind⟩
        exact ⟨text, c, hdecode, hline, hkind⟩
    cases hanswers with
    | done hline hperforms =>
      refine Or.inr ⟨?_, _, rfl⟩
      rw [hexits hline]
      rintro ⟨c, hc, hkind⟩
      cases hc
      cases hperforms <;> cases hkind
    | rejected hline =>
      refine Or.inr ⟨?_, _, rfl⟩
      rw [hexits hline]
      rintro ⟨c, hc, -⟩
      cases hc
    | failed hline hresult =>
      refine Or.inr ⟨?_, _, rfl⟩
      rw [hexits hline]
      rintro ⟨c, hc, hkind⟩
      cases hc
      rw [Command.execute_of_exit hkind] at hresult
      cases hresult
    | left hline hkind => exact Or.inl ⟨(hexits hline).mpr ⟨_, rfl, hkind⟩, rfl⟩

/-- The progress that a run leaves behind if it has not been left. -/
def progressOf (e : Ending) : Progress :=
  ⟨e.disk, e.code⟩

/-- What one run and a later one come to together. -/
def inTurn (first second : Ending) : Ending :=
  ⟨first.output ++ second.output, second.code, second.disk⟩

/-- A run without an exit goes on with the segments that follow, from where it has come to. -/
theorem Runs.append {segments more : List Bytes} {first second : Ending}
    (h : Runs s p segments first) (hstay : ∀ segment ∈ segments, ¬ s.Exits segment)
    (hmore : Runs s (progressOf first) more second) :
    Runs s p (segments ++ more) (inTurn first second) := by
  induction h with
  | ended p =>
    rw [inTurn, Output.empty_append]
    exact hmore
  | left htakes =>
    rcases htakes.exits with ⟨hexits, -⟩ | ⟨-, status, hgoOn⟩
    · exact absurd hexits (hstay _ List.mem_cons_self)
    · cases hgoOn
  | more htakes _ ih =>
    have hrest := ih (fun segment hmem => hstay segment (List.mem_cons_of_mem _ hmem)) hmore
    rw [inTurn, Output.append_assoc]
    exact .more htakes hrest

/-- A run with an exit ends there. -/
theorem Runs.append_of_exits {segments : List Bytes} {e : Ending} (h : Runs s p segments e)
    (hexits : ∃ segment ∈ segments, s.Exits segment) (more : List Bytes) :
    Runs s p (segments ++ more) e ∧ e.code = 0 := by
  induction h with
  | ended p =>
    obtain ⟨segment, hmem, -⟩ := hexits
    cases hmem
  | left htakes =>
    rcases htakes.exits with ⟨-, hleave⟩ | ⟨-, status, hgoOn⟩
    · cases hleave
      exact ⟨.left htakes, rfl⟩
    · cases hgoOn
  | more htakes _ ih =>
    rcases htakes.exits with ⟨-, hleave⟩ | ⟨hstays, -⟩
    · cases hleave
    · -- The exit is not the first segment, so it is one of the others.
      obtain ⟨segment, hmem, hsegment⟩ := hexits
      rcases List.mem_cons.mp hmem with rfl | hmem
      · exact absurd hsegment hstays
      · obtain ⟨hruns, hcode⟩ := ih ⟨segment, hmem, hsegment⟩
        exact ⟨.more htakes hruns, hcode⟩

theorem traceOutput_out (s : Session) (line : String) : (s.traceOutput line).out = "" := by
  unfold traceOutput
  split
  · rfl
  · rfl

/-- The program opens a plain session when nobody types, and leaves no history then. -/
theorem runSession_eq_serve {start : Program.Start} (hstart : start.interactive = false)
    (options : Options) (d : Disk) :
    ∃ (s : Session) (report : String), s.Plain ∧ s.trace = options.trace ∧
      s.root = Disk.pathText d.cwd ∧
      ∀ input, Program.runSession start options input d =
        inTurn ⟨{ err := report }, 0, d⟩ (s.serve ⟨d, 0⟩ input) := by
  -- Without a reader the history is empty, and there is nothing in it to save.
  have hhistory : ∀ disk, (Program.openHistory start d).save start.environment.historyPath disk =
      ({}, disk, []) := by
    intro disk
    rw [Program.openHistory, hstart]
    rfl
  obtain ⟨session, report, hopen, hplain, htrace, hroot⟩ : ∃ (session : Session) (report : String),
      Program.openSession start.interactive start.environment.isPlain options
        (Disk.pathText d.cwd) (Settings.load {} start.environment d) =
          (session, { err := report }) ∧
      session.Plain ∧ session.trace = options.trace ∧ session.root = Disk.pathText d.cwd := by
    unfold Program.openSession
    rw [hstart]
    exact ⟨_, _, rfl, ⟨rfl, rfl⟩, rfl, rfl⟩
  refine ⟨session, report, hplain, htrace, hroot, fun input => ?_⟩
  rw [Program.runSession, hopen]
  simp only [hhistory, serve_eq_run, inTurn]

/-- A session to which nobody types is a run over the segments of its input, and so is the program,
apart from what it reports on its configuration at the start. What a first input has come to is
where the next one goes on, if the first one ends in a line feed; once an `exit` has been accepted
nothing of what follows counts. -/
theorem runs_whole :
    (∀ s : Session, s.Plain → ∀ p : Progress,
      (∀ input e, s.serve p input = e ↔ Runs s p (Input.segments input) e) ∧
      (∀ first next, first.getLast? = some Input.lineFeed →
        (∀ segment ∈ Input.segments first, ¬ s.Exits segment) →
        s.serve p (first ++ next) =
          inTurn (s.serve p first) (s.serve (progressOf (s.serve p first)) next)) ∧
      (∀ first next, first.getLast? = some Input.lineFeed →
        (∃ segment ∈ Input.segments first, s.Exits segment) →
        s.serve p (first ++ next) = s.serve p first ∧ (s.serve p first).code = 0)) ∧
    (∀ input, Input.IsCut input (Input.segments input)) ∧
    (∀ (s : Session) (line : String), (s.traceOutput line).out = "") ∧
    ∀ (start : Program.Start) (options : Options) (d : Disk), start.interactive = false →
      ∃ (s : Session) (report : String), s.Plain ∧ s.trace = options.trace ∧
        s.root = Disk.pathText d.cwd ∧
        ∀ input, Program.runSession start options input d =
          inTurn ⟨{ err := report }, 0, d⟩ (s.serve ⟨d, 0⟩ input) := by
  refine ⟨?_, Input.isCut_segments, traceOutput_out, ?_⟩
  · intro s hs p
    -- Whatever the session serves is a run, and the other way round.
    have hruns : ∀ p input e, s.serve p input = e ↔ Runs s p (Input.segments input) e := by
      intro p input e
      rw [serve_eq_run, runs_iff hs]
    have hserves := fun p input => (hruns p input _).mp rfl
    refine ⟨hruns p, ?_, ?_⟩
    · intro first next hend hstay
      rw [hruns, Input.segments_append hend]
      exact (hserves p first).append hstay (hserves _ next)
    · intro first next hend hexits
      obtain ⟨hwhole, hcode⟩ := (hserves p first).append_of_exits hexits (Input.segments next)
      rw [← Input.segments_append hend] at hwhole
      exact ⟨(hruns p _ _).mpr hwhole, hcode⟩
  · intro start options d hstart
    exact runSession_eq_serve hstart options d

/-- A session without anything special about it, at the top of the tree. -/
def scripted : Session where
  settings := {}
  root := "/"
  trace := false
  interactive := false
  prompting := false

/-- A segment that is not text, a blank one, and lines that are executed, refused and fail. -/
def scriptedLines : Bytes :=
  Text.encode "create file a\n" ++ [0xFF, 10] ++ Text.encode " \r\ncreat file b\ncreate file a\n"

def scriptedExit : Bytes :=
  Text.encode "exit\n"

def scriptedRest : Bytes :=
  Text.encode "create file c\n"

theorem runs_whole_script :
    (scripted.serve ⟨{}, 0⟩ scriptedLines).output =
      ⟨"created a\n", "error: stream did not contain valid UTF-8\n" ++
        "Syntax error: unknown command 'creat'\n  creat file b\n  ^\n" ++
        "  hint: did you mean 'create'?\n" ++ "File error: /a: File exists (os error 17)\n"⟩ ∧
    (scripted.serve ⟨{}, 0⟩ scriptedLines).code = 1 ∧
    scripted.serve ⟨{}, 0⟩ (scriptedLines ++ scriptedExit) =
      inTurn (scripted.serve ⟨{}, 0⟩ scriptedLines)
        (scripted.serve (progressOf (scripted.serve ⟨{}, 0⟩ scriptedLines)) scriptedExit) ∧
    (scripted.serve ⟨{}, 0⟩ (scriptedLines ++ scriptedExit ++ scriptedRest) =
      scripted.serve ⟨{}, 0⟩ (scriptedLines ++ scriptedExit) ∧
    (scripted.serve ⟨{}, 0⟩ (scriptedLines ++ scriptedExit)).code = 0) ∧
    ∃ (s : Session) (report : String), s.Plain ∧
      Program.runSession { arguments := [] } {} scriptedLines {} =
        inTurn ⟨{ err := report }, 0, {}⟩ (s.serve ⟨{}, 0⟩ scriptedLines) := by
  obtain ⟨-, hstays, hexits⟩ := runs_whole.1 scripted ⟨rfl, rfl⟩ ⟨{}, 0⟩
  refine ⟨?_, ?_, ?_, ?_, ?_⟩
  · rw [serve_eq_run]
    decide +kernel
  · rw [serve_eq_run]
    decide +kernel
  · exact hstays scriptedLines scriptedExit (by decide +kernel) (by decide +kernel)
  · exact hexits (scriptedLines ++ scriptedExit) scriptedRest (by decide +kernel)
      (by decide +kernel)
  · obtain ⟨s, report, hplain, -, -, hrun⟩ := runs_whole.2.2.2 { arguments := [] } {} {} rfl
    exact ⟨s, report, hplain, hrun scriptedLines⟩

end Session

end FileShell

import FileShell.Proofs.Session.Runs

/-!
# Lines that are typed and lines that are not

A session to which someone types reads its lines in another way, and prints prompts. `Course` tells
reading by reading what a session does, and what is printed is made up of that and the prompts
(`output_run`). Main statement: `front_ends_agree`. As long as the lines that are typed arrive as
they stand, the course is that of the session to which nobody types; only the history that is
saved at the end can make a difference to the disk.
-/

namespace FileShell

theorem Output.append_empty (a : Output) : a ++ ({} : Output) = a := by
  show Output.mk (a.out ++ "") (a.err ++ "") = a
  rw [String.append_empty, String.append_empty]

namespace Input

/-- Typed, a segment arrives as it stands, without its line end. -/
def ArrivesIntact (segment : Bytes) : Prop :=
  readTyped segment = match Text.decode? segment with
    | none => .error .notText
    | some text => .ok (String.ofList (Text.dropLineEnd text.toList))

instance (segment : Bytes) : Decidable (ArrivesIntact segment) :=
  inferInstanceAs (Decidable (_ = _))

theorem eraseFrom_of_ne_backspace {clusters : List (List Char)}
    (h : ∀ cluster ∈ clusters, cluster ≠ [backspace]) (typed : List Char) (sizes : List Nat) :
    eraseFrom typed sizes clusters = typed.reverse ++ clusters.flatten := by
  induction clusters generalizing typed sizes with
  | nil => simp [eraseFrom]
  | cons cluster rest ih =>
    have hcluster := h cluster List.mem_cons_self
    have hrest := ih fun other hother => h other (List.mem_cons_of_mem _ hother)
    simp [eraseFrom, hcluster, hrest]

/-- Only backspaces change what is typed. -/
theorem arrivesIntact_of_backspace_notMem {segment : Bytes}
    (h : ∀ text, Text.decode? segment = some text → backspace ∉ text.toList) :
    ArrivesIntact segment := by
  unfold ArrivesIntact readTyped
  cases hdecode : Text.decode? segment with
  | none => rfl
  | some text =>
    have hclusters : ∀ cluster ∈ Text.clusters (Text.dropLineEnd text.toList),
        cluster ≠ [backspace] := by
      rintro cluster hcluster rfl
      have hmem : backspace ∈ (Text.clusters (Text.dropLineEnd text.toList)).flatten :=
        List.mem_flatten.mpr ⟨_, hcluster, List.mem_singleton.mpr rfl⟩
      rw [Text.flatten_clusters] at hmem
      exact h text hdecode (Text.mem_of_mem_dropLineEnd hmem)
    simp only [erase, eraseFrom_of_ne_backspace hclusters, Text.flatten_clusters,
      List.reverse_nil, List.nil_append]

end Input

namespace Session

/-- The session with someone who types the lines, on a terminal that shows prompts. -/
def typed (s : Session) : Session :=
  { s with interactive := true, prompting := true }

/-- One reading of a session. -/
structure Turn where
  /-- The status of the last command when the segment is read. -/
  status : Nat
  /-- The line that is executed, if the segment holds one. -/
  line : Option String
  /-- What is printed in answer to the segment. -/
  output : Output
  deriving DecidableEq, Repr

def lineOf (s : Session) (segment : Bytes) : Option String :=
  match s.read segment with
  | .line text => some text
  | _ => none

/-- What a session does with its input, reading by reading. -/
structure Course where
  turns : List Turn
  /-- The status with which it comes to the end of the input; none if it is left before. -/
  ended : Option Nat
  deriving DecidableEq, Repr

/-- The course of a session on the segments of its input. -/
def course (s : Session) (p : Progress) : List Bytes → Course
  | [] => ⟨[], some p.status⟩
  | segment :: rest =>
    match s.step p segment with
    | (output, .leave _, _) => ⟨[⟨p.status, s.lineOf segment, output⟩], none⟩
    | (output, .goOn status, disk) =>
      let later := s.course ⟨disk, status⟩ rest
      { later with turns := ⟨p.status, s.lineOf segment, output⟩ :: later.turns }

/-- What is printed in a course when `ask` is printed before each reading, also the one that finds
the end of the input, and `closing` at that end. -/
def Course.printed (c : Course) (ask : Nat → Output) (closing : Output) : Output :=
  c.turns.foldr (fun turn later => ask turn.status ++ turn.output ++ later) <|
    match c.ended with
    | some status => ask status ++ closing
    | none => {}

variable {s : Session} {p : Progress} {segment : Bytes} {segments : List Bytes}

theorem output_run (s : Session) (p : Progress) (segments : List Bytes) :
    (s.run p segments).output = (s.course p segments).printed s.prompt s.closing := by
  induction segments generalizing p with
  | nil => rfl
  | cons segment rest ih =>
    rw [run, course]
    obtain ⟨output, verdict, disk⟩ := s.step p segment
    cases verdict with
    | leave code => exact (Output.append_empty _).symm
    | goOn status =>
      simp only [ih]
      rfl

/-- Nothing that is printed before a reading or at the end is an error. -/
theorem Course.err_printed (c : Course) {ask : Nat → Output} {closing : Output}
    (hask : ∀ status, (ask status).err = "") (hclosing : closing.err = "") :
    (c.printed ask closing).err = (c.printed (fun _ => {}) {}).err := by
  obtain ⟨turns, ended⟩ := c
  induction turns with
  | nil =>
    cases ended with
    | none => rfl
    | some status =>
      show (ask status).err ++ closing.err = "" ++ ""
      rw [hask, hclosing]
  | cons turn rest ih =>
    show (ask turn.status).err ++ turn.output.err ++ (printed ⟨rest, ended⟩ ask closing).err =
      "" ++ turn.output.err ++ (printed ⟨rest, ended⟩ (fun _ => {}) {}).err
    rw [hask, ih]

theorem read_typed (hs : s.Plain) (h : Input.ArrivesIntact segment) :
    s.typed.read segment = s.read segment := by
  cases hdecode : Text.decode? segment with
  | none =>
    have hline : Input.readTyped segment = .error .notText := by
      rw [h, hdecode]
    rw [read_of_decode_none hs hdecode, read]
    simp only [typed, if_true, hline]
  | some text =>
    have hline : Input.readTyped segment =
        .ok (String.ofList (Text.dropLineEnd text.toList)) := by
      rw [h, hdecode]
    have htrim : Text.trim (String.ofList (Text.dropLineEnd text.toList)) = Text.trim text := by
      rw [Text.trim, Text.trim, String.toList_ofList, Text.trimChars_dropLineEnd]
    rw [read_of_decode hs hdecode, read]
    simp only [typed, if_true, hline, htrim]

theorem step_typed (hs : s.Plain) (h : Input.ArrivesIntact segment) :
    s.typed.step p segment = s.step p segment := by
  rw [step, step, read_typed hs h]
  rfl

theorem course_typed (hs : s.Plain) (h : ∀ segment ∈ segments, Input.ArrivesIntact segment) :
    s.typed.course p segments = s.course p segments := by
  induction segments generalizing p with
  | nil => rfl
  | cons segment rest ih =>
    have hsegment := h segment List.mem_cons_self
    have hrest := fun p => ih (p := p) fun other hother => h other (List.mem_cons_of_mem _ hother)
    simp only [course, step_typed hs hsegment, lineOf, read_typed hs hsegment, hrest]

theorem run_typed (hs : s.Plain) (h : ∀ segment ∈ segments, Input.ArrivesIntact segment) :
    (s.typed.run p segments).code = (s.run p segments).code ∧
      (s.typed.run p segments).disk = (s.run p segments).disk := by
  induction segments generalizing p with
  | nil => exact ⟨rfl, rfl⟩
  | cons segment rest ih =>
    rw [run, run, step_typed hs (h segment List.mem_cons_self)]
    obtain ⟨output, verdict, disk⟩ := s.step p segment
    cases verdict with
    | leave code => exact ⟨rfl, rfl⟩
    | goOn status => exact ih fun other hother => h other (List.mem_cons_of_mem _ hother)

end Session

namespace History

variable {d : Disk} {path : String} {bytes : Bytes}

theorem readableLines_of_text {segments : List Bytes}
    (h : ∀ segment ∈ segments, Text.decode? segment ≠ none) :
    (readableLines segments).2 = false := by
  induction segments with
  | nil => rfl
  | cons segment rest ih =>
    have hrest := ih fun other hother => h other (List.mem_cons_of_mem _ hother)
    obtain ⟨text, htext⟩ := Option.ne_none_iff_exists'.mp (h segment List.mem_cons_self)
    simp only [readableLines, htext, hrest]

/-- A file that is text throughout leaves nothing to be saved. -/
theorem unsaved_load (h : ∀ bytes, d.bytesAt path = .ok bytes →
    ∀ segment ∈ Text.segments Input.lineFeed bytes, Text.decode? segment ≠ none) :
    (load {} path d).1.unsaved = 0 := by
  unfold load
  split
  · cases hbytes : d.bytesAt path with
    | error fault => rfl
    | ok bytes =>
      have hlines := readableLines_of_text (h bytes hbytes)
      rw [Input.lineFeed] at hlines
      simp [read, hlines]
  · rfl

theorem save_of_unsaved {h : History} (hnone : h.unsaved = 0) (path : String) (d : Disk) :
    (h.save path d).2.1 = d := by
  rw [save, if_pos hnone]

end History

namespace Program

def Start.plain (start : Start) : Start :=
  { start with interactive := false }

/-- The start with someone who types the lines of the input. -/
def Start.typed (start : Start) : Start :=
  { start with interactive := true }

/-- The session that a start opens, and what that prints. -/
def opening (start : Start) (options : Options) (d : Disk) : Session × Output :=
  openSession start.interactive start.environment.isPlain options (Disk.pathText d.cwd)
    (Settings.load {} start.environment d)

variable {start : Start} {options : Options} {input : Bytes} {d : Disk}

theorem opening_typed (hterminal : start.environment.isPlain = true) :
    (opening start.plain options d).1.Plain ∧
      opening start.typed options d =
        ((opening start.plain options d).1.typed, (opening start.plain options d).2) := by
  unfold opening openSession
  refine ⟨⟨rfl, rfl⟩, ?_⟩
  simp only [Start.plain, Start.typed, hterminal, Bool.and_self]
  rfl

theorem err_append (a b : Output) : (a ++ b).err = a.err ++ b.err :=
  rfl

/-- A run of the session that a start opens, and what is reported before and saved after it. -/
theorem run_eq {s : Session} {report : Output}
    (harguments : Arguments.read start.arguments = .ok (.run options))
    (hroot : options.root = none) (hopens : opening start options d = (s, report)) :
    run start input d =
      ⟨report ++ (s.run ⟨d, 0⟩ (Input.segments input)).output,
        (s.run ⟨d, 0⟩ (Input.segments input)).code,
        ((openHistory start d).save start.environment.historyPath
          (s.run ⟨d, 0⟩ (Input.segments input)).disk).2.1⟩ := by
  rw [opening] at hopens
  rw [run, harguments]
  simp only [hroot, runSession, hopens]

/-- What it means that a run of the program to which someone types goes as the plain run from the
same start does. -/
structure Agree (start : Start) (options : Options) (input : Bytes) (d : Disk)
    (plain typed : Ending) (s : Session) (report : Output) : Prop where
  plain_opens : opening start.plain options d = (s, report)
  typed_opens : opening start.typed options d = (s.typed, report)
  root_eq : s.root = Disk.pathText d.cwd
  /-- The same lines are executed, with the same answers, between the same statuses. -/
  course_eq : s.typed.course ⟨d, 0⟩ (Input.segments input) =
    s.course ⟨d, 0⟩ (Input.segments input)
  plain_output : plain.output =
    report ++ (s.course ⟨d, 0⟩ (Input.segments input)).printed (fun _ => {}) {}
  /-- All that is printed besides is a prompt before each reading and a line feed at the end. -/
  typed_output : typed.output =
    report ++ (s.course ⟨d, 0⟩ (Input.segments input)).printed
      (fun status => { out := s.settings.prompt true status s.root }) { out := "\n" }
  err_eq : typed.output.err = plain.output.err
  code_eq : typed.code = plain.code
  /-- The disk is that of the plain run once the history has been saved that was loaded before. -/
  disk_eq : typed.disk =
    ((openHistory start.typed d).save start.environment.historyPath plain.disk).2.1
  /-- Nothing is saved if all lines of the history file, if there is one, are text. -/
  disk_eq_plain : (∀ bytes, d.bytesAt start.environment.historyPath = .ok bytes →
    ∀ segment ∈ Text.segments Input.lineFeed bytes, Text.decode? segment ≠ none) →
    typed.disk = plain.disk

/-- The two front ends agree when what is typed arrives as it stands: a run to which someone types
goes as the plain one does, up to the history that is saved at its end. -/
theorem front_ends_agree (harguments : Arguments.read start.arguments = .ok (.run options))
    (hroot : options.root = none) (hterminal : start.environment.isPlain = true)
    (hinput : ∀ segment ∈ Input.segments input, Input.ArrivesIntact segment) :
    ∃ s report, Agree start options input d (run start.plain input d) (run start.typed input d)
      s report := by
  obtain ⟨hs, htyped⟩ := opening_typed hterminal
  cases hplain : opening start.plain options d with
  | mk s report =>
    rw [hplain] at hs htyped
    dsimp only at hs htyped
    have hcourse := Session.course_typed hs hinput (p := ⟨d, 0⟩)
    obtain ⟨hcode, hdisk⟩ := Session.run_typed hs hinput (p := ⟨d, 0⟩)
    have hask : s.prompt = fun _ => {} := funext fun status => Session.prompt_of_plain hs status
    -- In the plain run there is no history to be saved.
    have hnothing : (openHistory start.plain d).unsaved = 0 := rfl
    have hrunPlain := @run_eq start.plain options input d s report harguments hroot hplain
    have hrunTyped := @run_eq start.typed options input d s.typed report harguments hroot htyped
    rw [History.save_of_unsaved hnothing, Session.output_run, hask,
      Session.closing_of_plain hs] at hrunPlain
    rw [Session.output_run, hcourse, hcode, hdisk] at hrunTyped
    have hsaved : (run start.typed input d).disk =
        ((openHistory start.typed d).save start.environment.historyPath
          (run start.plain input d).disk).2.1 := by
      rw [hrunTyped, hrunPlain]
      rfl
    refine ⟨s, report, hplain, htyped, ?_, hcourse, ?_, ?_, ?_, ?_, hsaved, ?_⟩
    · cases hplain
      rfl
    · rw [hrunPlain]
    · rw [hrunTyped]
      rfl
    · rw [hrunPlain, hrunTyped, err_append, err_append,
        Session.Course.err_printed _ (fun _ => rfl) rfl]
    · rw [hrunPlain, hrunTyped]
    · intro htext
      have hloaded : (openHistory start.typed d).unsaved = 0 := History.unsaved_load htext
      rw [hsaved, History.save_of_unsaved hloaded]

/-- A start in the directory where the history is kept, on a terminal without editing. -/
def atHome : Start where
  arguments := []
  environment := { home := some ".", terminal := some "dumb" }

/-- A disk with nothing but a history file. -/
def keeping (history : Bytes) : Disk where
  tree := { entries := [([".filecmd_history"], .object 1)], objects := [(1, .file history)] }

/-- A line that is executed, one that is not text, one that fails, and no exit. -/
def homeLines : Bytes :=
  Text.encode "create file a\n" ++ [0xFF, 10] ++ Text.encode "create file a\n"

theorem front_ends_agree_script :
    (∃ s report, Agree atHome {} homeLines (keeping []) (run atHome.plain homeLines (keeping []))
      (run atHome.typed homeLines (keeping [])) s report) ∧
    (run atHome.plain homeLines (keeping [])).output.out = "created a\n" ∧
    (run atHome.typed homeLines (keeping [])).code = 1 := by
  refine ⟨front_ends_agree rfl rfl (by decide +kernel) (by decide +kernel), ?_, ?_⟩
  · decide +kernel
  · decide +kernel

/-- A history file without its mark, and with a line that is not text. -/
def brokenHistory : Bytes :=
  Text.encode "one\n" ++ [0xFF, 10] ++ Text.encode "two\n"

/-- What is loaded from a broken file is saved again when someone has typed, although nothing has
been added to it. -/
theorem front_ends_differ_broken_history :
    Arguments.read atHome.arguments = .ok (.run {}) ∧ atHome.environment.isPlain = true ∧
    (∀ segment ∈ Input.segments homeLines, Input.ArrivesIntact segment) ∧
    ((run atHome.plain homeLines (keeping brokenHistory)).disk.bytesAt
      "/.filecmd_history").toOption = some brokenHistory ∧
    ((run atHome.typed homeLines (keeping brokenHistory)).disk.bytesAt
      "/.filecmd_history").toOption = some (Text.encode "#V2\none\n") ∧
    (run atHome.typed homeLines (keeping brokenHistory)).disk ≠
      (run atHome.plain homeLines (keeping brokenHistory)).disk := by
  refine ⟨rfl, ?_, ?_, ?_, ?_, ?_⟩
  all_goals decide +kernel

end Program

end FileShell

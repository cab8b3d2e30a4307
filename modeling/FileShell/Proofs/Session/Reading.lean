import FileShell.Proofs.Text.Lines
import FileShell.Session

/-!
# Reading the input

A session does not see its input cut into segments: it takes bytes through the next line feed, and
leaves the others to be read later. `takeSegment` does that, and `serve` runs a session that reads
so. Every reading takes a byte at least, so the session ends, and it does what `run` does on the
segments (`serve_eq_run`).
-/

namespace FileShell

namespace Input

theorem isBlank_of_isLineEnd {c : Char} (h : isLineEnd c = true) : Text.isBlank c = true := by
  rw [isLineEnd, Bool.or_eq_true, decide_eq_true_eq, decide_eq_true_eq] at h
  rcases h with rfl | rfl
  · rfl
  · rfl

/-- The line ends that reading removes would be trimmed as well. -/
theorem readLine_of_decode {segment : Bytes} {text : String}
    (h : Text.decode? segment = some text) :
    ∃ line, readLine segment = .ok line ∧ Text.trim line = Text.trim text := by
  refine ⟨_, by rw [readLine, h], ?_⟩
  rw [Text.trim, Text.trim, String.toList_ofList,
    Text.trimChars_dropEndWhile fun c => isBlank_of_isLineEnd]

/-- What is read from an input at once, through the next line feed, and what is left. -/
def takeSegment : Bytes → Bytes × Bytes
  | [] => ([], [])
  | b :: bytes =>
    if b = lineFeed then ([b], bytes)
    else
      let (segment, rest) := takeSegment bytes
      (b :: segment, rest)

theorem takeSegment_append (input : Bytes) :
    (takeSegment input).1 ++ (takeSegment input).2 = input := by
  induction input with
  | nil => rfl
  | cons b bytes ih =>
    rw [takeSegment]
    split
    · rfl
    · exact congrArg (b :: ·) ih

theorem takeSegment_ne_nil {input : Bytes} (h : input ≠ []) : (takeSegment input).1 ≠ [] := by
  cases input with
  | nil => exact absurd rfl h
  | cons b bytes =>
    rw [takeSegment]
    split
    · exact List.cons_ne_nil _ _
    · exact List.cons_ne_nil _ _

/-- Reading makes progress. -/
theorem length_takeSegment_lt {input : Bytes} (h : input ≠ []) :
    (takeSegment input).2.length < input.length := by
  have hlength := congrArg List.length (takeSegment_append input)
  have hpos := List.length_pos_iff.mpr (takeSegment_ne_nil h)
  rw [List.length_append] at hlength
  omega

theorem segments_of_takeSegment {input : Bytes} (h : input ≠ []) :
    segments input = (takeSegment input).1 :: segments (takeSegment input).2 := by
  induction input with
  | nil => exact absurd rfl h
  | cons b bytes ih =>
    rw [segments, Text.segments, takeSegment]
    split
    · rfl
    · by_cases hbytes : bytes = []
      · subst hbytes
        rfl
      · have hrest := ih hbytes
        rw [segments] at hrest
        rw [hrest]

/-- A line feed ends its segment, whatever follows it. -/
theorem segments_append {input : Bytes} (h : input.getLast? = some lineFeed) (more : Bytes) :
    segments (input ++ more) = segments input ++ segments more :=
  Text.segments_append (fun _ hlast => Option.some.inj (hlast.symm.trans h)) more

/-- What it means that an input is cut after its line feeds: nothing is lost, no segment is empty,
and a line feed stands at the end of each segment, which only the last one may lack. -/
structure IsCut (input : Bytes) (cut : List Bytes) : Prop where
  flatten_eq : cut.flatten = input
  ne_nil : ∀ segment ∈ cut, segment ≠ []
  lineFeed_last : ∀ segment ∈ cut, lineFeed ∉ segment.dropLast
  last_lineFeed : ∀ segment ∈ cut.dropLast, segment.getLast? = some lineFeed

theorem takeSegment_ends {input : Bytes} (h : input ≠ []) :
    lineFeed ∉ (takeSegment input).1.dropLast ∧
      ((takeSegment input).2 ≠ [] → (takeSegment input).1.getLast? = some lineFeed) := by
  induction input with
  | nil => exact absurd rfl h
  | cons b bytes ih =>
    rw [takeSegment]
    split
    · next hb =>
      subst hb
      exact ⟨List.not_mem_nil, fun _ => rfl⟩
    · next hb =>
      by_cases hbytes : bytes = []
      · subst hbytes
        exact ⟨List.not_mem_nil, fun hrest => absurd rfl hrest⟩
      · obtain ⟨hinside, hlast⟩ := ih hbytes
        have hne := takeSegment_ne_nil hbytes
        refine ⟨?_, fun hrest => ?_⟩
        · rw [List.dropLast_cons_of_ne_nil hne, List.mem_cons, not_or]
          exact ⟨fun hlf => hb hlf.symm, hinside⟩
        · rw [List.getLast?_cons_of_ne_nil hne]
          exact hlast hrest

theorem isCut_segments (input : Bytes) : IsCut input (segments input) := by
  induction hlength : input.length using Nat.strongRecOn generalizing input with
  | ind n ih =>
    subst hlength
    by_cases hinput : input = []
    · subst hinput
      exact ⟨rfl, by simp [segments, Text.segments], by simp [segments, Text.segments],
        by simp [segments, Text.segments]⟩
    · have hcut := ih _ (length_takeSegment_lt hinput) _ rfl
      obtain ⟨hinside, hlast⟩ := takeSegment_ends hinput
      rw [segments_of_takeSegment hinput]
      refine ⟨?_, ?_, ?_, ?_⟩
      · rw [List.flatten_cons, hcut.flatten_eq, takeSegment_append]
      · rw [List.forall_mem_cons]
        exact ⟨takeSegment_ne_nil hinput, hcut.ne_nil⟩
      · rw [List.forall_mem_cons]
        exact ⟨hinside, hcut.lineFeed_last⟩
      · by_cases hrest : (takeSegment input).2 = []
        · rw [hrest]
          intro segment hmem
          cases hmem
        · have hne : segments (takeSegment input).2 ≠ [] := by
            rw [segments_of_takeSegment hrest]
            exact List.cons_ne_nil _ _
          rw [List.dropLast_cons_of_ne_nil hne, List.forall_mem_cons]
          exact ⟨hlast hrest, hcut.last_lineFeed⟩

end Input

namespace Session

/-- Runs the session on an input that it reads as it goes, segment by segment. -/
def serve (s : Session) (p : Progress) (input : Bytes) : Ending :=
  if input = [] then ⟨s.prompt p.status ++ s.closing, p.status, p.disk⟩
  else
    match s.step p (Input.takeSegment input).1 with
    | (output, .leave code, disk) => ⟨s.prompt p.status ++ output, code, disk⟩
    | (output, .goOn status, disk) =>
      let ending := s.serve ⟨disk, status⟩ (Input.takeSegment input).2
      { ending with output := s.prompt p.status ++ output ++ ending.output }
  termination_by input.length
  decreasing_by exact Input.length_takeSegment_lt ‹_›

/-- Reading on the way makes no difference to cutting the input first. -/
theorem serve_eq_run (s : Session) (p : Progress) (input : Bytes) :
    s.serve p input = s.run p (Input.segments input) := by
  induction hlength : input.length using Nat.strongRecOn generalizing p input with
  | ind n ih =>
    subst hlength
    rw [serve]
    split
    · next hnil =>
      subst hnil
      rfl
    · next hne =>
      have hrest := fun disk status => ih _ (Input.length_takeSegment_lt hne) ⟨disk, status⟩ _ rfl
      rw [Input.segments_of_takeSegment hne, run]
      obtain ⟨output, verdict, disk⟩ := s.step p (Input.takeSegment input).1
      cases verdict with
      | leave code => rfl
      | goOn status => simp only [hrest]

end Session

end FileShell

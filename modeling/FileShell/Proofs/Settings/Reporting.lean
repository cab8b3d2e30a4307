import Mathlib.Data.List.Forall2
import FileShell.Proofs.Settings.Reading

/-!
# Bad lines are reported and have no effect

`badLines` numbers the lines of a text on which there is neither a directive nor a comment nor
nothing, `Reports` says what is told about one of them, and `blankOut` takes them out of the text.
Main statement: `read_reports_bad_lines`. Each bad line is reported once, whatever the settings are,
the settings come out as if the bad lines were blank, and a text can be read in parts.
-/

namespace FileShell

open Text

namespace DirectiveError

/-- What is said about an error. -/
inductive Worded : DirectiveError → String → Prop
  | unrecognized : Worded .unrecognized "unrecognized directive"
  | unknownKey (key : String) : Worded (.unknownKey key) ("unknown key '" ++ key ++ "'")
  | unknownColorKey (key : String) :
      Worded (.unknownColorKey key) ("unknown color key '" ++ key ++ "'")
  | unknownTheme (name : String) : Worded (.unknownTheme name) ("unknown theme '" ++ name ++ "'")
  | notBoolean (value : String) :
      Worded (.notBoolean value) ("invalid boolean '" ++ value ++ "' for strict")

theorem worded_iff {e : DirectiveError} {message : String} :
    e.Worded message ↔ e.message = message := by
  constructor
  · rintro (_ | _)
    all_goals rfl
  · rintro rfl
    cases e
    all_goals constructor

end DirectiveError

namespace Directive

/-- What is told about an error in line `n`. -/
structure Reports (n : Nat) (e : DirectiveError) (report : Diagnostic) : Prop where
  trouble_eq : report.trouble = .configuration
  worded : e.Worded report.message
  hint_eq : report.hint = some ("line " ++ toString n)
  /-- It is not about a place in a line that has been typed. -/
  position_eq : report.position = none

theorem reports_diagnostic (n : Nat) (e : DirectiveError) : Reports n e (diagnostic n e) :=
  ⟨rfl, DirectiveError.worded_iff.mpr rfl, rfl, rfl⟩

theorem Reports.plain_eq {n : Nat} {e : DirectiveError} {report : Diagnostic}
    (h : Reports n e report) :
    ∃ message, e.Worded message ∧
      report.plain = "Config error: " ++ message ++ "\n  hint: line " ++ toString n := by
  have htitle : "Config error: " = Trouble.configuration.title ++ ": " := by decide
  have hline : "\n  hint: line " = "\n  hint: " ++ "line " := by decide
  refine ⟨report.message, h.worded, ?_⟩
  rw [Diagnostic.plain, Diagnostic.headline, Diagnostic.hintLine, h.trouble_eq, h.hint_eq, htitle,
    hline]
  simp only [String.append_assoc]

end Directive

namespace Settings

/-- The report with the number of its line raised by `k`. -/
def Raised (k : Nat) (report raised : Diagnostic) : Prop :=
  ∃ n, report.hint = some ("line " ++ toString n) ∧
    raised = { report with hint := some ("line " ++ toString (n + k)) }

/-- The bad lines of a text with their numbers, which count from one. -/
def badLines (text : String) : List (String × Nat) :=
  ((lines text).zipIdx 1).filter fun numbered => Directive.Bad numbered.1

theorem forall₂_faults (n : Nat) (xs : List String) :
    List.Forall₂ (fun bad fault => bad.2 = fault.1 ∧ Directive.Wrong bad.1.toList fault.2)
      ((xs.zipIdx n).filter fun numbered => Directive.Bad numbered.1) (faults n xs) := by
  induction xs generalizing n with
  | nil => exact .nil
  | cons line xs ih =>
    rw [faults, List.zipIdx_cons, List.filter_cons]
    cases herror : Directive.error? line with
    | none =>
      rw [if_neg (by simpa using Directive.not_bad_iff.mpr herror)]
      exact ih (n + 1)
    | some e =>
      have hwrong := Directive.error?_eq_some_iff.mp herror
      rw [if_pos (by simpa using Directive.bad_iff.mpr ⟨e, hwrong⟩)]
      exact .cons ⟨rfl, hwrong⟩ (ih (n + 1))

section Blanking

/-- A segment of a text with `filler` in the place of the line that it holds if that line is bad.
The line end stays. -/
def blankSegment (filler : List Char → List Char) (segment : List Char) : List Char :=
  let line := dropLineEnd segment
  if Directive.Bad (String.ofList line) then filler line ++ segment.drop line.length else segment

/-- A text with its bad lines blanked out. -/
def blankOut (filler : List Char → List Char) (text : String) : String :=
  String.ofList ((segments '\n' text.toList).flatMap (blankSegment filler))

variable {filler : List Char → List Char} {segment : List Char}

/-- What blanking out does to one line. -/
structure Blanked (segment blanked : List Char) : Prop where
  one_line : '\n' ∉ blanked.dropLast
  same_end : segment.getLast? = some '\n' → blanked.getLast? = some '\n'
  valid?_eq : Directive.valid? (String.ofList blanked) = Directive.valid? (String.ofList segment)
  not_bad : ¬ Directive.Bad (String.ofList blanked)

theorem blanked_blankSegment (hfiller : ∀ line, AllBlank (filler line) ∧ '\n' ∉ filler line)
    (h : '\n' ∉ segment.dropLast) : Blanked segment (blankSegment filler segment) := by
  have hread := Directive.read?_dropLineEnd segment
  by_cases hbad : Directive.Bad (String.ofList (dropLineEnd segment))
  · obtain ⟨ending, hsegment, hending, hfeed, hlast⟩ := dropLineEnd_append_end segment
    obtain ⟨hblank, hline⟩ := hfiller (dropLineEnd segment)
    have hdrop : segment.drop (dropLineEnd segment).length = ending := by
      generalize dropLineEnd segment = line at hsegment ⊢
      rw [hsegment, List.drop_left]
    have hall : AllBlank (String.ofList (filler (dropLineEnd segment) ++ ending)).toList := by
      rw [String.toList_ofList]
      exact hblank.append hending
    rw [blankSegment, if_pos hbad, hdrop]
    refine ⟨?_, ?_, ?_, fun hbad => hbad.1 hall⟩
    · intro hmem
      cases ending with
      | nil =>
        rw [List.append_nil] at hmem
        exact hline (List.dropLast_subset _ hmem)
      | cons c rest =>
        rw [List.dropLast_append_of_ne_nil (List.cons_ne_nil c rest)] at hmem
        rcases List.mem_append.mp hmem with hmem | hmem
        · exact hline hmem
        · exact hfeed hmem
    · intro hfinal
      rw [List.getLast?_append, hlast hfinal]
      rfl
    · rw [((Directive.bad_congr hread).mp hbad).valid?_eq, Directive.valid?,
        Directive.read?_of_allBlank hall]
      rfl
  · have hblanked : blankSegment filler segment = segment := if_neg hbad
    rw [hblanked]
    exact ⟨h, id, rfl, fun hsegment => hbad ((Directive.bad_congr hread).mpr hsegment)⟩

theorem blankOut_append_cons {xs : List Char} (h : '\n' ∉ xs) (ys : List Char) :
    blankOut filler (String.ofList (xs ++ '\n' :: ys)) =
      String.ofList (blankSegment filler (xs ++ ['\n'])) ++ blankOut filler (String.ofList ys) := by
  rw [blankOut, blankOut, String.toList_ofList, String.toList_ofList, segments_append_cons h,
    List.flatMap_cons, String.ofList_append]

/-- Blanking out keeps the directives of a text and leaves no line bad. -/
theorem directives_blankOut (hfiller : ∀ line, AllBlank (filler line) ∧ '\n' ∉ filler line)
    (text : String) : directives (lines (blankOut filler text)) = directives (lines text) ∧
      ∀ line ∈ lines (blankOut filler text), ¬ Directive.Bad line := by
  rw [← String.ofList_toList (s := text)]
  induction text.toList using segmentInduction '\n' with
  | unmarked xs hxs =>
    have hsegment : '\n' ∉ xs.dropLast := fun hmem => hxs (List.dropLast_subset xs hmem)
    by_cases hnil : xs = []
    · subst hnil
      exact ⟨rfl, List.forall_mem_nil _⟩
    · have hblank : blankOut filler (String.ofList xs) =
          String.ofList (blankSegment filler xs) := by
        rw [blankOut, String.toList_ofList, segments_of_notMem hxs hnil, List.flatMap_singleton]
      obtain ⟨hone, -, hvalid, hbad⟩ := blanked_blankSegment hfiller hsegment
      rw [hblank, directives_of_segment hone, directives_of_segment hsegment, hvalid]
      exact ⟨rfl, fun line hline h => hbad (bad_of_segment hone hline h)⟩
  | marked xs ys hxs ih =>
    have hsegment : '\n' ∉ (xs ++ ['\n']).dropLast := by rwa [List.dropLast_concat]
    have hlast : (xs ++ ['\n']).getLast? = some '\n' := List.getLast?_concat
    obtain ⟨hone, hend, hvalid, hbad⟩ := blanked_blankSegment hfiller hsegment
    have hends : ∀ cs : List Char, cs.getLast? = some '\n' → EndsLine (String.ofList cs) :=
      fun cs hcs => EndsLine.of_getLast? (by rwa [String.toList_ofList])
    have htext : String.ofList (xs ++ '\n' :: ys) =
        String.ofList (xs ++ ['\n']) ++ String.ofList ys := by
      rw [← String.ofList_append, List.append_assoc, List.singleton_append]
    rw [blankOut_append_cons hxs, htext, lines_append (hends _ (hend hlast)),
      lines_append (hends _ hlast), directives_append, directives_append,
      directives_of_segment hone, directives_of_segment hsegment, hvalid, ih.1]
    refine ⟨rfl, fun line hline => ?_⟩
    rcases List.mem_append.mp hline with hline | hline
    · exact fun h => hbad (bad_of_segment hone hline h)
    · exact ih.2 line hline

end Blanking

/-- Reading reports each bad line once, in order and under its number, and no other line; what is
reported does not depend on the settings. The settings come out as those of the text with its bad
lines blanked out, in which nothing is to be reported. A text in front that ends with a line is read
by itself, and what follows it comes after that, with its lines counted on. -/
theorem read_reports_bad_lines (s : Settings) (text : String) :
    List.Forall₂ (fun bad report => ∃ e, Directive.Wrong bad.1.toList e ∧
      Directive.Reports bad.2 e report) (badLines text) (s.read text).2 ∧
    (∀ other : Settings, (other.read text).2 = (s.read text).2) ∧
    (∀ filler : List Char → List Char,
      (∀ line, AllBlank (filler line) ∧ '\n' ∉ filler line) →
      s.read (blankOut filler text) = ((s.read text).1, [])) ∧
    (EndsLine text → ∀ more, (s.read (text ++ more)).1 = ((s.read text).1.read more).1 ∧
      ∃ raised, (s.read (text ++ more)).2 = (s.read text).2 ++ raised ∧
        List.Forall₂ (Raised (lines text).length) ((s.read text).1.read more).2 raised) := by
  refine ⟨?_, ?_, ?_, ?_⟩
  · rw [read_eq, List.forall₂_map_right_iff]
    refine (forall₂_faults 1 (lines text)).imp ?_
    rintro bad fault ⟨hnumber, hwrong⟩
    rw [hnumber]
    exact ⟨fault.2, hwrong, Directive.reports_diagnostic fault.1 fault.2⟩
  · intro other
    rw [read_eq, read_eq]
  · intro filler hfiller
    obtain ⟨hdirectives, hbad⟩ := directives_blankOut hfiller text
    rw [read_eq, read_eq, hdirectives, faults_eq_nil hbad]
    rfl
  · intro hends more
    rw [read_append s hends]
    refine ⟨rfl, _, rfl, ?_⟩
    rw [read_eq (s.read text).1, faults_add, List.map_map, List.forall₂_map_left_iff,
      List.forall₂_map_right_iff]
    exact List.forall₂_same.mpr fun fault _ => ⟨fault.1, rfl, rfl⟩

/-- The second line is bad and ends with a carriage return as well; another text follows. -/
theorem read_reports_bad_lines_continued :
    (Settings.read {} "# a\nstrict = maybe\r\n").2.map Diagnostic.plain =
        ["Config error: invalid boolean 'maybe' for strict\n  hint: line 2"] ∧
      Settings.read {} (blankOut (fun line => line.map fun _ => ' ') "# a\nstrict = maybe\r\n") =
        ({}, []) ∧
      ∃ raised, (Settings.read {} ("# a\nstrict = maybe\r\n" ++ "theme=\nx")).2 =
          (Settings.read {} "# a\nstrict = maybe\r\n").2 ++ raised ∧
        List.Forall₂ (Raised 2) (Settings.read {} "theme=\nx").2 raised := by
  obtain ⟨hreports, -, hblank, hmore⟩ := read_reports_bad_lines {} "# a\nstrict = maybe\r\n"
  have hbad : badLines "# a\nstrict = maybe\r\n" = [("strict = maybe", 2)] := by decide +kernel
  have herror : Directive.error? "strict = maybe" = some (.notBoolean "maybe") := by decide +kernel
  have hsettings : (Settings.read {} "# a\nstrict = maybe\r\n").1 = {} := by decide +kernel
  have hlines : (lines "# a\nstrict = maybe\r\n").length = 2 := by decide +kernel
  have hlast : "# a\nstrict = maybe\r\n".toList.getLast? = some '\n' := by decide +kernel
  refine ⟨?_, ?_, ?_⟩
  · rw [hbad, List.forall₂_cons_left_iff] at hreports
    obtain ⟨report, rest, ⟨e, hwrong, hreport⟩, hrest, heq⟩ := hreports
    cases hrest
    cases herror.symm.trans (Directive.error?_eq_some_iff.mpr hwrong)
    obtain ⟨message, hmessage, hplain⟩ := hreport.plain_eq
    cases hmessage
    rw [heq, List.map_singleton, hplain]
    decide +kernel
  · rw [hblank _ fun line => ⟨?_, ?_⟩, hsettings]
    · intro c hc
      obtain ⟨-, -, rfl⟩ := List.mem_map.mp hc
      rfl
    · intro hmem
      obtain ⟨-, -, heq⟩ := List.mem_map.mp hmem
      cases heq
  · obtain ⟨-, raised, hall, hraised⟩ := hmore (EndsLine.of_getLast? hlast) "theme=\nx"
    rw [hsettings, hlines] at hraised
    exact ⟨raised, hall, hraised⟩

end Settings

end FileShell

import FileShell.Proofs.Settings.Directive
import FileShell.Proofs.Text.Lines

/-!
# Reading a configuration text

Reading applies the directives on the lines of a text in order and reports the errors in the other
lines under their numbers (`read_eq`). So a text is read line by line: what stands before the end of
a line is read by itself (`read_append`), and on a single line only what stands between its blanks
counts (`directives_line`).
-/

namespace FileShell

open Text

namespace Directive

/-- The directive on a line, if there is one. -/
def valid? (line : String) : Option Directive :=
  (read? line).bind Except.toOption

/-- The error in a line, if there is one. -/
def error? (line : String) : Option DirectiveError :=
  match read? line with
  | some (.error e) => some e
  | _ => none

/-- A line that is neither blank nor a comment, and on which no directive is written. -/
def Bad (line : String) : Prop :=
  ¬ AllBlank line.toList ∧ ¬ IsComment line.toList ∧ ∀ d, ¬ Written line.toList d

variable {line other : String} {d : Directive} {e : DirectiveError}

theorem valid?_eq_some_iff : valid? line = some d ↔ Written line.toList d := by
  rw [← read?_eq_ok_iff, valid?]
  cases read? line with
  | none => simp
  | some outcome => cases outcome <;> simp [Except.toOption]

theorem error?_eq_some_iff : error? line = some e ↔ Wrong line.toList e := by
  rw [← read?_eq_error_iff, error?]
  split
  · next heq => simp [heq]
  · next hne =>
    constructor
    · intro h
      cases h
    · intro h
      exact absurd h (hne e)

theorem bad_iff : Bad line ↔ ∃ e, Wrong line.toList e := by
  constructor
  · rintro ⟨hblank, hcomment, hnone⟩
    rcases line_cases line.toList with hnothing | ⟨d, hwritten⟩ | hwrong
    · exact absurd hnothing (not_or.mpr ⟨hblank, hcomment⟩)
    · exact absurd hwritten (hnone d)
    · exact hwrong
  · rintro ⟨e, hwrong⟩
    refine ⟨hwrong.1, hwrong.2.1, fun d hwritten => ?_⟩
    cases hwritten.read?_eq.symm.trans hwrong.read?_eq

theorem bad_iff_error? : Bad line ↔ (error? line).isSome = true := by
  rw [bad_iff, Option.isSome_iff_exists]
  exact exists_congr fun e => error?_eq_some_iff.symm

instance : DecidablePred Bad := fun _ =>
  decidable_of_iff _ bad_iff_error?.symm

theorem not_bad_iff : ¬ Bad line ↔ error? line = none := by
  rw [bad_iff_error?, Option.not_isSome_iff_eq_none]

theorem bad_congr (h : read? line = read? other) : Bad line ↔ Bad other := by
  rw [bad_iff_error?, bad_iff_error?, error?, error?, h]

theorem Bad.valid?_eq (h : Bad line) : valid? line = none := by
  cases hvalid : valid? line with
  | none => rfl
  | some d => exact absurd (valid?_eq_some_iff.mp hvalid) (h.2.2 d)

/-- Only what stands between the blanks of a line counts. -/
theorem read?_congr (h : trimChars line.toList = trimChars other.toList) :
    read? line = read? other := by
  rw [read?, read?, h]

theorem read?_dropLineEnd (cs : List Char) :
    read? (String.ofList (dropLineEnd cs)) = read? (String.ofList cs) := by
  apply read?_congr
  rw [String.toList_ofList, String.toList_ofList, trimChars_dropLineEnd]

/-- The end of a line is blank. -/
theorem read?_append_end {ending : String} (h : ending = "" ∨ IsLineEnd ending) (line : String) :
    read? (line ++ ending) = read? line := by
  apply read?_congr
  rw [String.toList_append, trimChars_append_of_blank]
  rcases h with rfl | hending
  · exact List.forall_mem_nil _
  · exact hending.allBlank

end Directive

namespace Settings

/-- The directives on lines. -/
def directives (lines : List String) : List Directive :=
  lines.filterMap Directive.valid?

/-- The errors in lines of which the first is line `n`, with the numbers of the lines. -/
def faults : Nat → List String → List (Nat × DirectiveError)
  | _, [] => []
  | n, line :: rest => ((Directive.error? line).map (n, ·)).toList ++ faults (n + 1) rest

/-- The report on an error in a line. -/
def report (fault : Nat × DirectiveError) : Diagnostic :=
  Directive.diagnostic fault.1 fault.2

variable {xs : List String} {segment : List Char}

theorem directives_cons (line : String) (xs : List String) :
    directives (line :: xs) = (Directive.valid? line).toList ++ directives xs := by
  rw [directives, List.filterMap_cons]
  cases Directive.valid? line with
  | none => rfl
  | some d => rfl

theorem directives_append (xs ys : List String) :
    directives (xs ++ ys) = directives xs ++ directives ys :=
  List.filterMap_append

theorem faults_append (n : Nat) (xs ys : List String) :
    faults n (xs ++ ys) = faults n xs ++ faults (n + xs.length) ys := by
  induction xs generalizing n with
  | nil => rfl
  | cons line xs ih =>
    rw [List.cons_append, faults, faults, ih, List.append_assoc, List.length_cons,
      Nat.add_right_comm, Nat.add_assoc]

theorem faults_add (n k : Nat) (xs : List String) :
    faults (n + k) xs = (faults n xs).map fun fault => (fault.1 + k, fault.2) := by
  induction xs generalizing n with
  | nil => rfl
  | cons line xs ih =>
    rw [faults, faults, Nat.add_right_comm, ih, List.map_append]
    cases Directive.error? line with
    | none => rfl
    | some e => rfl

theorem faults_eq_nil (h : ∀ line ∈ xs, ¬ Directive.Bad line) (n : Nat) : faults n xs = [] := by
  induction xs generalizing n with
  | nil => rfl
  | cons line xs ih =>
    obtain ⟨hline, hrest⟩ := List.forall_mem_cons.mp h
    rw [faults, Directive.not_bad_iff.mp hline, ih hrest]
    rfl

/-- Reading applies the directives and reports the errors. -/
theorem readLines_eq (s : Settings) (n : Nat) (xs : List String) :
    s.readLines n xs = ((directives xs).foldl apply s, (faults n xs).map report) := by
  induction xs generalizing s n with
  | nil => rfl
  | cons line xs ih =>
    rw [readLines, directives_cons, faults, Directive.valid?, Directive.error?]
    cases Directive.read? line with
    | none => exact ih s (n + 1)
    | some outcome =>
      cases outcome with
      | ok d => exact ih (s.apply d) (n + 1)
      | error e =>
        simp only [ih s (n + 1)]
        rfl

theorem read_eq (s : Settings) (text : String) : s.read text =
    ((directives (lines text)).foldl apply s, (faults 1 (lines text)).map report) :=
  readLines_eq s 1 (lines text)

theorem read_append {text : String} (s : Settings) (h : EndsLine text) (more : String) :
    s.read (text ++ more) = (((s.read text).1.read more).1,
      (s.read text).2 ++ (faults (1 + (lines text).length) (lines more)).map report) := by
  rw [read_eq, read_eq, read_eq, lines_append h, directives_append, List.foldl_append,
    faults_append, List.map_append]

theorem directives_of_segment (h : '\n' ∉ segment.dropLast) :
    directives (lines (String.ofList segment)) =
      (Directive.valid? (String.ofList segment)).toList := by
  by_cases hnil : segment = []
  · subst hnil
    rfl
  · rw [lines_of_segment h hnil, directives_cons, Directive.valid?, Directive.read?_dropLineEnd]
    exact List.append_nil _

theorem bad_of_segment {line : String} (h : '\n' ∉ segment.dropLast)
    (hline : line ∈ lines (String.ofList segment)) (hbad : Directive.Bad line) :
    Directive.Bad (String.ofList segment) := by
  by_cases hnil : segment = []
  · subst hnil
    cases hline
  · rw [lines_of_segment h hnil] at hline
    obtain rfl := List.mem_singleton.mp hline
    exact (Directive.bad_congr (Directive.read?_dropLineEnd segment)).mp hbad

section Line

variable {line ending : String} (h : '\n' ∉ line.toList)
  (hending : ending = "" ∨ IsLineEnd ending)

include h hending

theorem directives_line : directives (lines (line ++ ending)) = (Directive.valid? line).toList := by
  have hsegment := directives_of_segment (lineFeed_notMem_dropLast h hending)
  rwa [String.ofList_toList, Directive.valid?, Directive.read?_append_end hending] at hsegment

/-- A text of one line on which a directive is written. -/
theorem read_line {d : Directive} (hwritten : Directive.Written line.toList d) (s : Settings) :
    s.read (line ++ ending) = (s.apply d, []) := by
  have hvalid : Directive.valid? line = some d := Directive.valid?_eq_some_iff.mpr hwritten
  have hgood : ∀ other ∈ lines (line ++ ending), ¬ Directive.Bad other := by
    intro other hother hbad
    rw [← String.ofList_toList (s := line ++ ending)] at hother
    have hline := bad_of_segment (lineFeed_notMem_dropLast h hending) hother hbad
    rw [String.ofList_toList, Directive.bad_congr (Directive.read?_append_end hending line)] at hline
    exact hline.2.2 d hwritten
  rw [read_eq, directives_line h hending, hvalid, faults_eq_nil hgood]
  rfl

end Line

end Settings

end FileShell

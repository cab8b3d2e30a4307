/-!
# Replacing parts of a text

`replaceAll` replaces every occurrence of a pattern, from left to right and without overlap.
`replacePass` does so for several patterns in a single pass: text that was put in is not searched
again.
-/

namespace FileShell.Text

/-- The characters after `pattern` when they begin with it. -/
def afterPattern? : (pattern : List Char) → List Char → Option (List Char)
  | [], cs => some cs
  | _ :: _, [] => none
  | p :: ps, c :: cs => if p = c then afterPattern? ps cs else none

/-- The first of the patterns that the characters begin with: its replacement, and the characters
after it. -/
def firstPattern? (rules : List (List Char × List Char)) (cs : List Char) :
    Option (List Char × List Char) :=
  match rules with
  | [] => none
  | (pattern, replacement) :: rest =>
    match afterPattern? pattern cs with
    | some after => some (replacement, after)
    | none => firstPattern? rest cs

/-- What follows a nonempty pattern is shorter than the whole. -/
theorem length_afterPattern_lt {pattern cs after : List Char} (hne : pattern ≠ [])
    (h : afterPattern? pattern cs = some after) : after.length < cs.length := by
  have hle : ∀ {ps ds rest : List Char}, afterPattern? ps ds = some rest →
      rest.length ≤ ds.length := by
    intro ps
    induction ps with
    | nil => intro ds rest h; simp_all [afterPattern?]
    | cons p ps ih =>
      intro ds rest h
      cases ds with
      | nil => simp [afterPattern?] at h
      | cons d ds =>
        simp only [afterPattern?] at h
        split at h
        · have := ih h
          simp; omega
        · simp at h
  cases pattern with
  | nil => exact absurd rfl hne
  | cons p ps =>
    cases cs with
    | nil => simp [afterPattern?] at h
    | cons c cs =>
      simp only [afterPattern?] at h
      split at h
      · have := hle h
        simp; omega
      · simp at h

/-- The characters with every occurrence of a pattern replaced, in one pass from left to right;
where two patterns begin, the first one listed counts. A rule whose pattern is empty never
applies. -/
def replacePass (rules : List (List Char × List Char)) (cs : List Char) : List Char :=
  match cs with
  | [] => []
  | c :: rest =>
    match firstPattern? rules (c :: rest) with
    | some (replacement, after) =>
      if after.length < (c :: rest).length then replacement ++ replacePass rules after
      else c :: replacePass rules rest
    | none => c :: replacePass rules rest
termination_by cs.length
decreasing_by
  · assumption
  · exact Nat.lt_succ_self _
  · exact Nat.lt_succ_self _

/-- The text with every occurrence of a nonempty pattern replaced. -/
def replaceAll (pattern replacement s : String) : String :=
  String.ofList (replacePass [(pattern.toList, replacement.toList)] s.toList)

end FileShell.Text

import FileShell.Proofs.Settings.Reading

/-!
# The last line that sets a field decides

A directive assigns a value to one field of the settings and leaves the others as they are
(`get_apply`, `get_apply_of_not_assigns`), so directives on different fields can change places
(`apply_comm`). Main statement: `read_keeps_last`. After a text is read, each field has the value
that the last line on it gave it.
-/

namespace FileShell

open Text

namespace Settings

/-- What can be set. -/
inductive Field where
  | promptTemplate
  | promptTheme
  | strict
  | color (part : Palette.Part)
  deriving DecidableEq, Repr

/-- The values of a field. -/
abbrev Field.Value : Field → Type
  | promptTemplate => Option String
  | promptTheme => Prompt.Theme
  | strict => Bool
  | color _ => String

def get (s : Settings) : (f : Field) → f.Value
  | .promptTemplate => s.promptTemplate
  | .promptTheme => s.promptTheme
  | .strict => s.strict
  | .color .promptStatus => s.palette.promptStatus
  | .color .promptCwd => s.palette.promptCwd
  | .color .promptSymbol => s.palette.promptSymbol
  | .color .keyword => s.palette.keyword
  | .color .filename => s.palette.filename
  | .color .connector => s.palette.connector
  | .color .hint => s.palette.hint

end Settings

/-- The field that a directive sets, and the value that it gives to it. -/
inductive Directive.Assigns : Directive → (f : Settings.Field) → f.Value → Prop
  | prompt (template : String) : Assigns (.prompt template) .promptTemplate (some template)
  | theme (theme : Prompt.Theme) : Assigns (.theme theme) .promptTheme theme
  | strict (on : Bool) : Assigns (.strict on) .strict on
  | color (part : Palette.Part) (value : String) : Assigns (.color part value) (.color part) value

/-- The field that a directive sets. -/
def Directive.field : Directive → Settings.Field
  | prompt _ => .promptTemplate
  | theme _ => .promptTheme
  | strict _ => .strict
  | color part _ => .color part

theorem Directive.Assigns.field_eq {d : Directive} {f : Settings.Field} {v : f.Value}
    (h : d.Assigns f v) : d.field = f := by
  cases h
  all_goals rfl

theorem Palette.ext_get {p q : Palette} (h : ∀ part, p.get part = q.get part) : p = q := by
  cases p
  cases q
  simp only [Palette.mk.injEq]
  exact ⟨h .promptStatus, h .promptCwd, h .promptSymbol, h .keyword, h .filename, h .connector,
    h .hint⟩

theorem Palette.get_set (p : Palette) (part other : Part) (value : String) :
    (p.set part value).get other = if other = part then value else p.get other := by
  cases part
  all_goals cases other
  all_goals rfl

namespace Settings

variable {s t : Settings} {f : Field} {v : f.Value} {d e : Directive} {ds : List Directive}

theorem get_color (s : Settings) (part : Palette.Part) :
    s.get (.color part) = s.palette.get part := by
  cases part
  all_goals rfl

theorem get_color_congr (h : s.palette = t.palette) (part : Palette.Part) :
    s.get (.color part) = t.get (.color part) := by
  rw [get_color, get_color, h]

theorem ext_get (h : ∀ f, s.get f = t.get f) : s = t := by
  cases s
  cases t
  simp only [Settings.mk.injEq]
  refine ⟨h .promptTemplate, h .promptTheme, Palette.ext_get fun part => ?_, h .strict⟩
  have hcolor := h (.color part)
  rwa [get_color, get_color] at hcolor

theorem get_apply (h : d.Assigns f v) (s : Settings) : (s.apply d).get f = v := by
  cases h with
  | prompt => rfl
  | theme => rfl
  | strict => rfl
  | color part value =>
    rw [get_color]
    exact (s.palette.get_set part part value).trans (if_pos rfl)

theorem get_apply_of_not_assigns (h : ∀ v, ¬ d.Assigns f v) (s : Settings) :
    (s.apply d).get f = s.get f := by
  cases d with
  | prompt template =>
    cases f with
    | promptTemplate => exact absurd (.prompt template) (h _)
    | color part =>
      apply get_color_congr
      rfl
    | _ => rfl
  | theme theme =>
    cases f with
    | promptTheme => exact absurd (.theme theme) (h _)
    | color part =>
      apply get_color_congr
      rfl
    | _ => rfl
  | strict on =>
    cases f with
    | strict => exact absurd (.strict on) (h _)
    | color part =>
      apply get_color_congr
      rfl
    | _ => rfl
  | color part value =>
    cases f with
    | color other =>
      rw [get_color, get_color]
      refine (s.palette.get_set part other value).trans (if_neg ?_)
      rintro rfl
      exact h _ (.color other value)
    | _ => rfl

/-- Directives on different fields can change places. -/
theorem apply_comm (h : ∀ f v w, d.Assigns f v → ¬ e.Assigns f w) (s : Settings) :
    (s.apply d).apply e = (s.apply e).apply d := by
  apply ext_get
  intro f
  by_cases hd : ∃ v, d.Assigns f v
  · obtain ⟨v, hv⟩ := hd
    rw [get_apply_of_not_assigns (fun w => h f v w hv), get_apply hv, get_apply hv]
  · have hd := not_exists.mp hd
    rw [get_apply_of_not_assigns hd]
    by_cases he : ∃ w, e.Assigns f w
    · obtain ⟨w, hw⟩ := he
      rw [get_apply hw, get_apply hw]
    · have he := not_exists.mp he
      rw [get_apply_of_not_assigns he, get_apply_of_not_assigns he, get_apply_of_not_assigns hd]

theorem get_foldl_of_not_assigns (h : ∀ d ∈ ds, ∀ v, ¬ d.Assigns f v) (s : Settings) :
    (ds.foldl apply s).get f = s.get f := by
  induction ds generalizing s with
  | nil => rfl
  | cons d ds ih =>
    obtain ⟨hd, hds⟩ := List.forall_mem_cons.mp h
    rw [List.foldl_cons, ih hds, get_apply_of_not_assigns hd]

/-- The line sets the field to the value. -/
def Sets (line : String) (f : Field) (v : f.Value) : Prop :=
  ∃ d, Directive.Written line.toList d ∧ d.Assigns f v

/-- The last one of the lines that set the field sets it to the value. -/
def SetsLast (xs : List String) (f : Field) (v : f.Value) : Prop :=
  ∃ before line after, xs = before ++ line :: after ∧ Sets line f v ∧
    ∀ later ∈ after, ∀ w, ¬ Sets later f w

variable {xs : List String}

/-- Whether a line sets a field can be computed. -/
theorem not_sets_of_all
    (h : (xs.all fun line => (Directive.valid? line).map Directive.field != some f) = true) :
    ∀ line ∈ xs, ∀ v, ¬ Sets line f v := by
  rintro line hline v ⟨d, hwritten, hassigns⟩
  have hother := List.all_eq_true.mp h line hline
  rw [Directive.valid?_eq_some_iff.mpr hwritten, Option.map_some, hassigns.field_eq] at hother
  simp at hother

theorem mem_directives_iff : d ∈ directives xs ↔ ∃ line ∈ xs, Directive.Written line.toList d := by
  rw [directives, List.mem_filterMap]
  simp only [Directive.valid?_eq_some_iff]

theorem get_foldl_directives_of_not_sets (h : ∀ line ∈ xs, ∀ v, ¬ Sets line f v) (s : Settings) :
    ((directives xs).foldl apply s).get f = s.get f := by
  apply get_foldl_of_not_assigns
  intro d hd v hassigns
  obtain ⟨line, hline, hwritten⟩ := mem_directives_iff.mp hd
  exact h line hline v ⟨d, hwritten, hassigns⟩

theorem SetsLast.get_foldl_directives (h : SetsLast xs f v) (s : Settings) :
    ((directives xs).foldl apply s).get f = v := by
  obtain ⟨before, line, after, rfl, ⟨d, hwritten, hassigns⟩, hafter⟩ := h
  rw [directives_append, directives_cons, Directive.valid?_eq_some_iff.mpr hwritten,
    List.foldl_append, List.foldl_append, get_foldl_directives_of_not_sets hafter]
  exact get_apply hassigns _

theorem exists_setsLast (h : ∃ line ∈ xs, ∃ v, Sets line f v) : ∃ v, SetsLast xs f v := by
  induction xs with
  | nil =>
    obtain ⟨line, hline, -⟩ := h
    cases hline
  | cons first rest ih =>
    by_cases hrest : ∃ line ∈ rest, ∃ v, Sets line f v
    · obtain ⟨v, before, line, after, rfl, hline, hafter⟩ := ih hrest
      exact ⟨v, first :: before, line, after, rfl, hline, hafter⟩
    · obtain ⟨line, hline, v, hsets⟩ := h
      rcases List.mem_cons.mp hline with rfl | hline
      · exact ⟨v, [], line, rest, rfl, hsets, fun later hlater w hw => hrest ⟨later, hlater, w, hw⟩⟩
      · exact absurd ⟨line, hline, v, hsets⟩ hrest

/-- The place of two lines that follow each other in a text: what stands in front of them, between
them and behind them. Behind the last line there may be no line end. -/
structure Neighbors where
  front : String
  between : String
  ending : String
  back : String
  endsLine_front : EndsLine front
  isLineEnd_between : IsLineEnd between
  isLineEnd_ending : IsLineEnd ending ∨ ending = "" ∧ back = ""

/-- The text with two lines in their place. -/
def Neighbors.text (place : Neighbors) (first second : String) : String :=
  place.front ++ (first ++ place.between) ++ (second ++ place.ending) ++ place.back

theorem Neighbors.directives_text (place : Neighbors) {first second : String}
    (hfirst : '\n' ∉ first.toList) (hsecond : '\n' ∉ second.toList) :
    directives (lines (place.text first second)) = directives (lines place.front) ++
      (Directive.valid? first).toList ++ (Directive.valid? second).toList ++
        directives (lines place.back) := by
  have hbetween := directives_line hfirst (Or.inr place.isLineEnd_between)
  have hback : directives (lines (second ++ place.ending ++ place.back)) =
      (Directive.valid? second).toList ++ directives (lines place.back) := by
    rcases place.isLineEnd_ending with hending | ⟨hending, hnone⟩
    · rw [lines_append (hending.endsLine_append second), directives_append,
        directives_line hsecond (Or.inr hending)]
    · rw [hnone, String.append_empty, directives_line hsecond (Or.inl hending)]
      exact (List.append_nil _).symm
  rw [Neighbors.text, String.append_assoc, String.append_assoc, lines_append place.endsLine_front,
    lines_append (place.isLineEnd_between.endsLine_append first), directives_append,
    directives_append, hbetween, hback, List.append_assoc, List.append_assoc]

theorem read_text_comm (place : Neighbors) {first second : String} (hfirst : '\n' ∉ first.toList)
    (hsecond : '\n' ∉ second.toList) (h : ∀ f v w, Sets first f v → ¬ Sets second f w)
    (s : Settings) :
    (s.read (place.text first second)).1 = (s.read (place.text second first)).1 := by
  rw [read_eq, read_eq, place.directives_text hfirst hsecond,
    place.directives_text hsecond hfirst]
  simp only [List.foldl_append]
  congr 1
  cases hd : Directive.valid? first with
  | none => rfl
  | some d =>
    cases he : Directive.valid? second with
    | none => rfl
    | some e =>
      apply apply_comm
      intro f v w hv hw
      exact h f v w ⟨d, Directive.valid?_eq_some_iff.mp hd, hv⟩
        ⟨e, Directive.valid?_eq_some_iff.mp he, hw⟩

/-- After a text is read, each field has the value that the last of the lines that set it gave to
it, or the one it had if there is no such line. So reading the text again changes nothing, and two
lines next to each other that do not set the same field can change places. -/
theorem read_keeps_last (s : Settings) :
    (∀ text f,
      (∀ v, SetsLast (lines text) f v → (s.read text).1.get f = v) ∧
      ((∀ line ∈ lines text, ∀ v, ¬ Sets line f v) → (s.read text).1.get f = s.get f)) ∧
    (∀ text, ((s.read text).1.read text).1 = (s.read text).1) ∧
    (∀ (place : Neighbors) (first second : String),
      '\n' ∉ first.toList → '\n' ∉ second.toList →
      (∀ f v w, Sets first f v → ¬ Sets second f w) →
      (s.read (place.text first second)).1 = (s.read (place.text second first)).1) := by
  have hlast : ∀ (s : Settings) text f v, SetsLast (lines text) f v →
      (s.read text).1.get f = v := by
    intro s text f v h
    rw [read_eq]
    exact h.get_foldl_directives s
  have hnone : ∀ (s : Settings) text f, (∀ line ∈ lines text, ∀ v, ¬ Sets line f v) →
      (s.read text).1.get f = s.get f := by
    intro s text f h
    rw [read_eq]
    exact get_foldl_directives_of_not_sets h s
  refine ⟨fun text f => ⟨hlast s text f, hnone s text f⟩, ?_,
    fun place first second hfirst hsecond h => read_text_comm place hfirst hsecond h s⟩
  intro text
  apply ext_get
  intro f
  by_cases h : ∃ line ∈ lines text, ∃ v, Sets line f v
  · obtain ⟨v, hv⟩ := exists_setsLast h
    rw [hlast _ text f v hv, hlast s text f v hv]
  · exact hnone _ text f fun line hline v hv => h ⟨line, hline, v, hv⟩

/-- The second prompt counts and the bad line behind it does not; nor does a bad line undo the theme,
the mode and the color in front of it. Two lines change places at the end of a text. -/
theorem read_keeps_last_prompt :
    ((Settings.read {} "prompt = a\nPROMPT='b'\nstrict=maybe").1.promptTemplate = some "b" ∧
      (Settings.read {} "prompt = a\nPROMPT='b'\nstrict=maybe").1.strict = false) ∧
    ((Settings.read {} "theme=' Minimal'\nstrict=ON\ncolor.hint=red\ntheme=dark").1.promptTheme =
        .minimal ∧
      (Settings.read {} "theme=' Minimal'\nstrict=ON\ncolor.hint=red\ntheme=dark").1.strict = true ∧
      (Settings.read {} "theme=' Minimal'\nstrict=ON\ncolor.hint=red\ntheme=dark").1.palette.hint =
        "red") ∧
    (Settings.read {} "# c\nstrict=on\r\ncolor.hint=red").1 =
      (Settings.read {} "# c\ncolor.hint=red\r\nstrict=on").1 := by
  have hprompts : lines "prompt = a\nPROMPT='b'\nstrict=maybe" =
      ["prompt = a", "PROMPT='b'", "strict=maybe"] := by decide +kernel
  have hprompt : Directive.valid? "PROMPT='b'" = some (.prompt "b") := by decide +kernel
  have hmixed : lines "theme=' Minimal'\nstrict=ON\ncolor.hint=red\ntheme=dark" =
      ["theme=' Minimal'", "strict=ON", "color.hint=red", "theme=dark"] := by decide +kernel
  have htheme : Directive.valid? "theme=' Minimal'" = some (.theme .minimal) := by decide +kernel
  have hstrict : Directive.valid? "strict=ON" = some (.strict true) := by decide +kernel
  have hhint : Directive.valid? "color.hint=red" = some (.color .hint "red") := by decide +kernel
  have hon : Directive.valid? "strict=on" = some (.strict true) := by decide +kernel
  let place : Neighbors := ⟨"# c\n", "\r\n", "", "", EndsLine.of_getLast? (by decide +kernel),
    Or.inr rfl, Or.inr ⟨rfl, rfl⟩⟩
  have htext : place.text "strict=on" "color.hint=red" =
      "# c\nstrict=on\r\ncolor.hint=red" := by decide +kernel
  have hswapped : place.text "color.hint=red" "strict=on" =
      "# c\ncolor.hint=red\r\nstrict=on" := by decide +kernel
  obtain ⟨hfields, -, hswap⟩ := read_keeps_last {}
  refine ⟨⟨?_, ?_⟩, ⟨?_, ?_, ?_⟩, ?_⟩
  · exact (hfields _ .promptTemplate).1 (some "b") ⟨["prompt = a"], _, _, hprompts,
      ⟨_, Directive.valid?_eq_some_iff.mp hprompt, .prompt "b"⟩,
      not_sets_of_all (by decide +kernel)⟩
  · refine (hfields _ .strict).2 ?_
    rw [hprompts]
    exact not_sets_of_all (by decide +kernel)
  · exact (hfields _ .promptTheme).1 .minimal ⟨[], _, _, hmixed,
      ⟨_, Directive.valid?_eq_some_iff.mp htheme, .theme .minimal⟩,
      not_sets_of_all (by decide +kernel)⟩
  · exact (hfields _ .strict).1 true ⟨["theme=' Minimal'"], _, _, hmixed,
      ⟨_, Directive.valid?_eq_some_iff.mp hstrict, .strict true⟩,
      not_sets_of_all (by decide +kernel)⟩
  · exact (hfields _ (.color .hint)).1 "red" ⟨["theme=' Minimal'", "strict=ON"], _, _, hmixed,
      ⟨_, Directive.valid?_eq_some_iff.mp hhint, .color .hint "red"⟩,
      not_sets_of_all (by decide +kernel)⟩
  · rw [← htext, ← hswapped]
    refine hswap place "strict=on" "color.hint=red" (by decide +kernel) (by decide +kernel) ?_
    rintro f v w ⟨d, hd, hv⟩ ⟨e, he, hw⟩
    cases hon.symm.trans (Directive.valid?_eq_some_iff.mpr hd)
    cases hhint.symm.trans (Directive.valid?_eq_some_iff.mpr he)
    cases hv
    cases hw

end Settings

end FileShell

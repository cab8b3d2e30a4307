import FileShell.Proofs.Settings.Values

/-!
# What a line of a configuration text says

`Written` says how a directive is written on a line, and `Wrong` what is wrong with a line that
holds none although it is neither blank nor a comment. Both are said without reading: a key and a
value stand around the first equals sign, with blanks around each, and `Says` and `Fails` list what
each key makes of a value. Main statements: every line is blank, a comment, a directive or wrong
(`line_cases`), and reading it tells which (`read?_eq_ok_iff`, `read?_eq_error_iff`).
-/

namespace FileShell

open Text

namespace Directive

/-- The first character that is not blank marks a comment. -/
def IsComment (line : List Char) : Prop :=
  ∃ front remark, AllBlank front ∧ line = front ++ '#' :: remark

def IsQuote (c : Char) : Prop :=
  c = '"' ∨ c = '\x27'

/-- What a written value stands for: what is between two equal quotes, and otherwise itself. -/
inductive Spells : List Char → List Char → Prop
  | quoted {quote : Char} {value : List Char} : IsQuote quote →
      Spells (quote :: value ++ [quote]) value
  | bare {value : List Char} :
      (∀ quote inner, IsQuote quote → value ≠ quote :: inner ++ [quote]) → Spells value value

/-- A key and a value on a line, before and behind the first equals sign. -/
def IsPair (line : List Char) (key value : String) : Prop :=
  ∃ before after written, line = before ++ '=' :: after ∧ '=' ∉ before ∧
    StandsIn key.toList before ∧ StandsIn written after ∧ Spells written value.toList

/-- The directive of a key and a value. -/
inductive Says : String → String → Directive → Prop
  | prompt {key value : String} : key = "prompt" ∨ key = "PROMPT" → Says key value (.prompt value)
  | theme {value : String} {theme : Prompt.Theme} : Prompt.Theme.IsNamed value theme →
      Says "theme" value (.theme theme)
  | strict {value : String} {on : Bool} : IsBoolean value on → Says "strict" value (.strict on)
  | color {part : Palette.Part} {key value : String} : part.HasKey key →
      Says ("color." ++ key) value (.color part value)

/-- What is wrong with a key and a value. -/
inductive Fails : String → String → DirectiveError → Prop
  | theme {value : String} : (∀ theme, ¬ Prompt.Theme.IsNamed value theme) →
      Fails "theme" value (.unknownTheme value)
  | strict {value : String} : (∀ on, ¬ IsBoolean value on) →
      Fails "strict" value (.notBoolean value)
  | color {key value : String} : (∀ part : Palette.Part, ¬ part.HasKey key) →
      Fails ("color." ++ key) value (.unknownColorKey key)
  | key {key value : String} : key ∉ ["prompt", "PROMPT", "theme", "strict"] →
      ¬ "color.".toList <+: key.toList → Fails key value (.unknownKey key)

/-- A directive as it is written on a line. -/
def Written (line : List Char) (d : Directive) : Prop :=
  ∃ key value, IsPair line key value ∧ Says key value d

/-- What is wrong with a line that is neither blank nor a comment. -/
def Wrong (line : List Char) (e : DirectiveError) : Prop :=
  ¬ AllBlank line ∧ ¬ IsComment line ∧
    ('=' ∉ line ∧ e = .unrecognized ∨ ∃ key value, IsPair line key value ∧ Fails key value e)

section Reading

variable {line cs before value : List Char} {text key given : String} {d : Directive}
  {e : DirectiveError}

theorem splitEquals_append (h : '=' ∉ before) (after : List Char) :
    splitEquals (before ++ '=' :: after) = some (before, after) := by
  induction before with
  | nil => rfl
  | cons c before ih =>
    have hc : c ≠ '=' := fun heq => h (heq ▸ List.mem_cons_self)
    rw [List.cons_append, splitEquals, if_neg hc, ih fun hmem => h (List.mem_cons_of_mem c hmem)]
    rfl

theorem splitEquals_of_notMem (h : '=' ∉ cs) : splitEquals cs = none := by
  induction cs with
  | nil => rfl
  | cons c cs ih =>
    have hc : c ≠ '=' := fun heq => h (heq ▸ List.mem_cons_self)
    rw [splitEquals, if_neg hc, ih fun hmem => h (List.mem_cons_of_mem c hmem)]
    rfl

theorem spells_unquote (cs : List Char) : Spells cs (unquote cs) := by
  have hbare : (∀ quote inner, IsQuote quote → cs ≠ quote :: inner ++ [quote]) → Spells cs cs :=
    Spells.bare
  unfold unquote
  split
  · next quote rest =>
    split
    · next h =>
      obtain ⟨inner, rfl⟩ := List.getLast?_eq_some_iff.mp h.2
      rw [List.dropLast_concat]
      exact Spells.quoted h.1
    · next h =>
      apply hbare
      rintro other inner hquote heq
      obtain ⟨rfl, rfl⟩ := List.cons.inj heq
      exact h ⟨hquote, List.getLast?_concat⟩
  · exact hbare fun quote inner _ => by simp

theorem Spells.unquote_eq (h : Spells cs value) : unquote cs = value := by
  cases h with
  | quoted hquote =>
    rw [List.cons_append, unquote, if_pos ⟨hquote, List.getLast?_concat⟩, List.dropLast_concat]
  | bare hbare =>
    unfold unquote
    split
    · next quote rest =>
      refine if_neg ?_
      rintro ⟨hquote, hlast⟩
      obtain ⟨inner, rfl⟩ := List.getLast?_eq_some_iff.mp hlast
      exact hbare quote inner hquote rfl
    · rfl

/-- What a directive is read from is the key and the value that stand on the line. -/
theorem IsPair.ofLine_eq (h : IsPair line key given) :
    ofLine (trimChars line) = ofPair key given := by
  obtain ⟨before, after, written, rfl, hbefore, hkey, hvalue, hspells⟩ := h
  have hfront : '=' ∉ before.dropWhile isBlank :=
    fun hmem => hbefore ((List.dropWhile_sublist isBlank).subset hmem)
  rw [trimChars_append_cons (by decide), ofLine, splitEquals_append hfront]
  simp only [trimChars_dropWhile, trimChars_dropEndWhile fun _ hc => hc,
    trimChars_eq_iff.mpr hkey, trimChars_eq_iff.mpr hvalue, hspells.unquote_eq,
    String.ofList_toList]

theorem exists_isPair (h : '=' ∈ line) : ∃ key given, IsPair line key given := by
  obtain ⟨before, after, rfl, hbefore⟩ := List.eq_append_cons_of_mem h
  refine ⟨String.ofList (trimChars before), String.ofList (unquote (trimChars after)),
    before, after, trimChars after, rfl, hbefore, ?_, trimChars_eq_iff.mp rfl, ?_⟩
  · rw [String.toList_ofList]
    exact trimChars_eq_iff.mp rfl
  · rw [String.toList_ofList]
    exact spells_unquote _

theorem IsPair.not_allBlank (h : IsPair line key given) : ¬ AllBlank line := by
  obtain ⟨before, after, -, rfl, -⟩ := h
  intro hblank
  cases hblank '=' (by simp)

theorem isComment_iff : IsComment line ↔ ∃ remark, trimChars line = '#' :: remark := by
  constructor
  · rintro ⟨front, remark, hfront, rfl⟩
    rw [trimChars_append_cons (by decide), List.dropWhile_eq_nil_iff.mpr hfront]
    exact ⟨_, rfl⟩
  · rintro ⟨remark, htrim⟩
    obtain ⟨front, back, hfront, -, hline⟩ := exists_trimChars_between line
    rw [htrim] at hline
    exact ⟨front, remark ++ back, hfront, by simpa using hline⟩

/-- No key of a directive begins as a comment does. -/
theorem Says.exists_eq_cons (h : Says key given d) :
    ∃ c rest, key.toList = c :: rest ∧ isBlank c = false ∧ c ≠ '#' := by
  cases h with
  | prompt hkey =>
    rcases hkey with rfl | rfl
    · exact ⟨'p', ['r', 'o', 'm', 'p', 't'], rfl, by decide, by decide⟩
    · exact ⟨'P', ['R', 'O', 'M', 'P', 'T'], rfl, by decide, by decide⟩
  | theme => exact ⟨'t', ['h', 'e', 'm', 'e'], rfl, by decide, by decide⟩
  | strict => exact ⟨'s', ['t', 'r', 'i', 'c', 't'], rfl, by decide, by decide⟩
  | @color part key =>
    exact ⟨'c', 'o' :: 'l' :: 'o' :: 'r' :: '.' :: key.toList,
      String.toList_append, by decide, by decide⟩

theorem IsPair.not_isComment (h : IsPair line key given) (hmeans : Says key given d) :
    ¬ IsComment line := by
  obtain ⟨before, after, -, rfl, -, ⟨-, front, back, hfront, -, rfl⟩, -⟩ := h
  obtain ⟨c, rest, hkey, hblank, hmark⟩ := hmeans.exists_eq_cons
  intro hcomment
  obtain ⟨remark, htrim⟩ := isComment_iff.mp hcomment
  rw [hkey, List.append_assoc, List.append_assoc, List.cons_append, trimChars_append_cons hblank,
    List.dropWhile_eq_nil_iff.mpr hfront] at htrim
  exact hmark (List.cons.inj htrim).1

theorem ofPair_color (key given : String) : ofPair ("color." ++ key) given = ofColor key given := by
  have hlist : ("color." ++ key).toList = colorMark ++ key.toList := String.toList_append
  have hmark : colorMark.isPrefixOf ("color." ++ key).toList = true := by
    rw [hlist]
    exact List.isPrefixOf_iff_prefix.mpr (List.prefix_append colorMark _)
  rw [ofPair, if_pos hmark, hlist, List.drop_left, String.ofList_toList]

theorem Says.ofPair_eq (h : Says key given d) : ofPair key given = .ok d := by
  cases h with
  | prompt hkey =>
    rcases hkey with rfl | rfl
    · rfl
    · rfl
  | theme htheme =>
    simp only [ofPair]
    rw [Prompt.Theme.ofName?_eq_some_iff.mpr htheme]
    rfl
  | strict hon =>
    simp only [ofPair]
    rw [boolean?_eq_some_iff.mpr hon]
    rfl
  | color hkey => rw [ofPair_color, ofColor, Palette.Part.ofKey?_eq_some_iff.mpr hkey]

theorem Fails.ofPair_eq (h : Fails key given e) : ofPair key given = .error e := by
  cases h with
  | theme htheme =>
    simp only [ofPair]
    rw [Prompt.Theme.ofName?_eq_none_iff.mpr htheme]
    rfl
  | strict hon =>
    simp only [ofPair]
    rw [boolean?_eq_none_iff.mpr hon]
    rfl
  | color hkey => rw [ofPair_color, ofColor, Palette.Part.ofKey?_eq_none_iff.mpr hkey]
  | key hkey hmark =>
    simp only [List.mem_cons, List.not_mem_nil, or_false, not_or] at hkey
    obtain ⟨hprompt, hPrompt, htheme, hstrict⟩ := hkey
    have hnone : ¬ colorMark.isPrefixOf key.toList = true :=
      fun h => hmark (List.isPrefixOf_iff_prefix.mp h)
    rw [ofPair, if_neg hnone, if_neg (not_or.mpr ⟨hprompt, hPrompt⟩), if_neg htheme, if_neg hstrict]

/-- A key and a value make a directive, or something is wrong with them. -/
theorem says_or_fails (key given : String) : (∃ d, Says key given d) ∨ ∃ e, Fails key given e := by
  by_cases hmark : "color.".toList <+: key.toList
  · obtain ⟨rest, hrest⟩ := hmark
    have hkey : key = "color." ++ String.ofList rest := by
      rw [← String.toList_inj, ← hrest, String.toList_append, String.toList_ofList,
        String.toList_ofList]
    rw [hkey]
    by_cases hpart : ∃ part : Palette.Part, part.HasKey (String.ofList rest)
    · obtain ⟨part, hpart⟩ := hpart
      exact Or.inl ⟨_, .color hpart⟩
    · exact Or.inr ⟨_, .color (not_exists.mp hpart)⟩
  by_cases hknown : key ∈ ["prompt", "PROMPT", "theme", "strict"]
  · simp only [List.mem_cons, List.not_mem_nil, or_false] at hknown
    rcases hknown with hkey | hkey | rfl | rfl
    · exact Or.inl ⟨_, .prompt (Or.inl hkey)⟩
    · exact Or.inl ⟨_, .prompt (Or.inr hkey)⟩
    · by_cases htheme : ∃ theme, Prompt.Theme.IsNamed given theme
      · obtain ⟨theme, htheme⟩ := htheme
        exact Or.inl ⟨_, .theme htheme⟩
      · exact Or.inr ⟨_, .theme (not_exists.mp htheme)⟩
    · by_cases hon : ∃ on, IsBoolean given on
      · obtain ⟨on, hon⟩ := hon
        exact Or.inl ⟨_, .strict hon⟩
      · exact Or.inr ⟨_, .strict (not_exists.mp hon)⟩
  · exact Or.inr ⟨_, .key hknown hmark⟩

theorem read?_of_allBlank (h : AllBlank text.toList) : read? text = none := by
  rw [read?, trimChars_eq_nil_iff.mpr h]

theorem read?_of_isComment (h : IsComment text.toList) : read? text = none := by
  obtain ⟨remark, htrim⟩ := isComment_iff.mp h
  rw [read?, htrim]
  rfl

theorem read?_of_not (hblank : ¬ AllBlank text.toList) (hcomment : ¬ IsComment text.toList) :
    read? text = some (ofLine (trimChars text.toList)) := by
  rw [read?]
  split
  · next htrim => exact absurd (trimChars_eq_nil_iff.mp htrim) hblank
  · next remark htrim => exact absurd (isComment_iff.mpr ⟨remark, htrim⟩) hcomment
  · rfl

theorem Written.read?_eq (h : Written text.toList d) : read? text = some (.ok d) := by
  obtain ⟨key, given, hpair, hmeans⟩ := h
  rw [read?_of_not hpair.not_allBlank (hpair.not_isComment hmeans), hpair.ofLine_eq,
    hmeans.ofPair_eq]

theorem Wrong.read?_eq (h : Wrong text.toList e) : read? text = some (.error e) := by
  obtain ⟨hblank, hcomment, hwrong⟩ := h
  rw [read?_of_not hblank hcomment]
  rcases hwrong with ⟨hequals, rfl⟩ | ⟨key, given, hpair, hfails⟩
  · have htrim : '=' ∉ trimChars text.toList := by
      intro hmem
      obtain ⟨front, back, -, -, hline⟩ := exists_trimChars_between text.toList
      exact hequals (by rw [hline]; simp [hmem])
    rw [ofLine, splitEquals_of_notMem htrim]
  · rw [hpair.ofLine_eq, hfails.ofPair_eq]

/-- A line is blank or a comment, or a directive is written on it, or something is wrong with it. -/
theorem line_cases (line : List Char) : (AllBlank line ∨ IsComment line) ∨
    (∃ d, Written line d) ∨ ∃ e, Wrong line e := by
  by_cases hnothing : AllBlank line ∨ IsComment line
  · exact Or.inl hnothing
  obtain ⟨hblank, hcomment⟩ := not_or.mp hnothing
  right
  by_cases hequals : '=' ∈ line
  · obtain ⟨key, given, hpair⟩ := exists_isPair hequals
    rcases says_or_fails key given with ⟨d, hmeans⟩ | ⟨e, hfails⟩
    · exact Or.inl ⟨d, key, given, hpair, hmeans⟩
    · exact Or.inr ⟨e, hblank, hcomment, Or.inr ⟨key, given, hpair, hfails⟩⟩
  · exact Or.inr ⟨_, hblank, hcomment, Or.inl ⟨hequals, rfl⟩⟩

theorem read?_eq_ok_iff : read? text = some (.ok d) ↔ Written text.toList d := by
  constructor
  · intro h
    rcases line_cases text.toList with (hblank | hcomment) | ⟨other, hwritten⟩ | ⟨e, hwrong⟩
    · rw [read?_of_allBlank hblank] at h
      cases h
    · rw [read?_of_isComment hcomment] at h
      cases h
    · rw [hwritten.read?_eq] at h
      cases h
      exact hwritten
    · rw [hwrong.read?_eq] at h
      cases h
  · exact Written.read?_eq

theorem read?_eq_error_iff : read? text = some (.error e) ↔ Wrong text.toList e := by
  constructor
  · intro h
    rcases line_cases text.toList with (hblank | hcomment) | ⟨d, hwritten⟩ | ⟨other, hwrong⟩
    · rw [read?_of_allBlank hblank] at h
      cases h
    · rw [read?_of_isComment hcomment] at h
      cases h
    · rw [hwritten.read?_eq] at h
      cases h
    · rw [hwrong.read?_eq] at h
      cases h
      exact hwrong
  · exact Wrong.read?_eq

end Reading

end Directive

end FileShell

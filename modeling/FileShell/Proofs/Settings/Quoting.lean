import FileShell.Proofs.Settings.Fields

/-!
# Quoted values are stored as they are

`Layout.write` writes a key and a value on a line, with the value in quotes and blanks around both.
Only the outermost quotes, the blanks outside of them and the first equals sign are read as marks,
so that any text can be the value. Main statement: `read_quoted`.
-/

namespace FileShell

open Text

namespace Settings

/-- A way to write a quoted value: the blanks around the key and the value, none of which ends the
line, and the quote. -/
structure Layout where
  beforeKey : List Char
  afterKey : List Char
  beforeValue : List Char
  afterValue : List Char
  quote : Char
  blank : ∀ pad ∈ [beforeKey, afterKey, beforeValue, afterValue], AllBlank pad ∧ '\n' ∉ pad
  isQuote : Directive.IsQuote quote

namespace Layout

def write (layout : Layout) (key value : String) : String :=
  String.ofList (layout.beforeKey ++ key.toList ++ layout.afterKey ++
    '=' :: (layout.beforeValue ++ (layout.quote :: value.toList ++ [layout.quote]) ++
      layout.afterValue))

variable {layout : Layout} {key value : String} {d : Directive}

theorem tight_quoted {quote : Char} (h : Directive.IsQuote quote) (cs : List Char) :
    Tight (quote :: cs ++ [quote]) := by
  have hblank : isBlank quote = false := by
    rcases h with rfl | rfl
    · rfl
    · rfl
  constructor
  · intro c hc
    obtain rfl := Option.some.inj hc
    exact hblank
  · intro c hc
    rw [List.getLast?_concat] at hc
    obtain rfl := Option.some.inj hc
    exact hblank

/-- What is read from the line is the key and the value between the quotes. -/
theorem isPair_write (hkey : Tight key.toList) (hequals : '=' ∉ key.toList) :
    Directive.IsPair (layout.write key value).toList key value := by
  have hpad : ∀ pad, pad ∈ [layout.beforeKey, layout.afterKey, layout.beforeValue,
      layout.afterValue] → AllBlank pad := fun pad hmem => (layout.blank pad hmem).1
  refine ⟨layout.beforeKey ++ key.toList ++ layout.afterKey, _, _, String.toList_ofList, ?_,
    ⟨hkey, _, _, hpad _ (by simp), hpad _ (by simp), rfl⟩,
    ⟨tight_quoted layout.isQuote _, _, _, hpad _ (by simp), hpad _ (by simp), rfl⟩,
    .quoted layout.isQuote⟩
  intro hmem
  simp only [List.mem_append] at hmem
  rcases hmem with (hmem | hmem) | hmem
  · cases hpad layout.beforeKey (by simp) '=' hmem
  · exact hequals hmem
  · cases hpad layout.afterKey (by simp) '=' hmem

theorem lineFeed_notMem_write (hkey : '\n' ∉ key.toList) (hvalue : '\n' ∉ value.toList) :
    '\n' ∉ (layout.write key value).toList := by
  have hpad : ∀ pad, pad ∈ [layout.beforeKey, layout.afterKey, layout.beforeValue,
      layout.afterValue] → '\n' ∉ pad := fun pad hmem => (layout.blank pad hmem).2
  have hquote : '\n' ≠ layout.quote := by
    intro heq
    rcases layout.isQuote with h | h
    · rw [← heq] at h
      cases h
    · rw [← heq] at h
      cases h
  rw [write, String.toList_ofList]
  simp only [List.mem_append, List.mem_cons, List.not_mem_nil, or_false, not_or]
  exact ⟨⟨⟨hpad _ (by simp), hkey⟩, hpad _ (by simp)⟩, by decide, ⟨hpad _ (by simp),
    ⟨hquote, hvalue⟩, hquote⟩, hpad _ (by simp)⟩

end Layout

/-- A line on which a directive is written with its value in quotes. -/
theorem read_write {layout : Layout} {key value ending : String} {d : Directive}
    (hmeans : Directive.Says key value d) (htight : Tight key.toList) (hequals : '=' ∉ key.toList)
    (hkey : '\n' ∉ key.toList) (hvalue : '\n' ∉ value.toList)
    (hending : ending = "" ∨ IsLineEnd ending) (s : Settings) :
    s.read (layout.write key value ++ ending) = (s.apply d, []) :=
  read_line (Layout.lineFeed_notMem_write hkey hvalue) hending
    ⟨key, value, Layout.isPair_write htight hequals, hmeans⟩ s

/-- A quoted value without a line feed is read without an error and stored as it stands between the
quotes, and nothing else changes. -/
theorem read_quoted (s : Settings) (layout : Layout) {value ending : String}
    (hvalue : '\n' ∉ value.toList) (hending : ending = "" ∨ IsLineEnd ending) :
    (∀ key, key = "prompt" ∨ key = "PROMPT" →
      s.read (layout.write key value ++ ending) =
        ({ s with promptTemplate := some value }, [])) ∧
    ∀ part : Palette.Part, ∃ palette : Palette,
      s.read (layout.write ("color." ++ part.key) value ++ ending) =
        ({ s with palette := palette }, []) ∧
      palette.get part = value ∧
      ∀ other, other ≠ part → palette.get other = s.palette.get other := by
  constructor
  · intro key hkey
    have hplain : Tight key.toList ∧ '=' ∉ key.toList ∧ '\n' ∉ key.toList := by
      rcases hkey with rfl | rfl
      · decide +kernel
      · decide +kernel
    obtain ⟨htight, hequals, hfeed⟩ := hplain
    exact read_write (.prompt hkey) htight hequals hfeed hvalue hending s
  · intro part
    have hplain : Tight ("color." ++ part.key).toList ∧ '=' ∉ ("color." ++ part.key).toList ∧
        '\n' ∉ ("color." ++ part.key).toList := by
      cases part
      all_goals decide +kernel
    obtain ⟨htight, hequals, hfeed⟩ := hplain
    have hsays : Directive.Says ("color." ++ part.key) value (.color part value) :=
      .color (Palette.Part.hasKey_iff.mpr rfl)
    refine ⟨s.palette.set part value,
      read_write hsays htight hequals hfeed hvalue hending s, ?_, ?_⟩
    · rw [Palette.get_set, if_pos rfl]
    · intro other hother
      rw [Palette.get_set, if_neg hother]

/-- Quotes, an equals sign, a comment mark, blanks and a carriage return are all kept. -/
theorem read_quoted_marks :
    Settings.read {} "\tprompt\r =\u00a0' ä=\"# '\r'" =
      ({ promptTemplate := some " ä=\"# '\r" }, []) := by
  let layout : Layout :=
    ⟨['\t'], ['\r', ' '], ['\u00a0'], [], '\x27', by decide +kernel, Or.inr rfl⟩
  have hvalue : '\n' ∉ " ä=\"# '\r".toList := by decide +kernel
  have htext : layout.write "prompt" " ä=\"# '\r" ++ "" = "\tprompt\r =\u00a0' ä=\"# '\r'" := by
    decide +kernel
  have hread := (read_quoted {} layout hvalue (Or.inl rfl)).1 "prompt" (Or.inl rfl)
  rwa [htext] at hread

end Settings

end FileShell

import Mathlib.Data.List.Forall2
import FileShell.Proofs.Text.Trim
import FileShell.Settings

/-!
# What the values and keys of a configuration stand for

Values are compared with words in which the case of a letter does not count (`Text.InAnyCase`). The
words for booleans and themes and the keys of the colors are listed without reading anything
(`Directive.IsBoolean`, `Prompt.Theme.IsNamed`, `Palette.Part.HasKey`), and reading finds what is
listed and nothing else: `boolean?_eq_some_iff`, `ofName?_eq_some_iff`, `ofKey?_eq_some_iff`.
-/

namespace FileShell

namespace Text

/-- A character that is a given letter, or the capital letter that belongs to it. -/
def IsCaseOf (letter c : Char) : Prop :=
  c = letter ∨ c.isUpper = true ∧ c.toNat + 32 = letter.toNat

/-- The characters are those of a word, with any of its letters in upper case. -/
def InAnyCase (word cs : List Char) : Prop :=
  List.Forall₂ IsCaseOf word cs

/-- A word of ASCII characters without a capital letter. -/
def isSmall (word : String) : Bool :=
  word.toList.all fun letter => !letter.isUpper && decide (letter.toNat < 128)

variable {letter c : Char} {letters cs : List Char} {word value : String}

theorem isUpper_iff : c.isUpper = true ↔ 65 ≤ c.toNat ∧ c.toNat ≤ 90 :=
  decide_eq_true_iff

theorem toNat_toLower_of_isUpper (h : c.isUpper = true) : c.toLower.toNat = c.toNat + 32 := by
  have hle := (isUpper_iff.mp h).2
  have hval : c.toLower.val = c.val + 32 := congrArg Char.val (dif_pos (of_decide_eq_true h))
  have hnum : c.toLower.val.toNat = (c.toNat + 32) % 2 ^ 32 := by
    rw [hval]
    exact UInt32.toNat_add c.val 32
  exact hnum.trans (Nat.mod_eq_of_lt (by omega))

theorem toLower_of_not_isUpper (h : c.isUpper = false) : c.toLower = c :=
  dif_neg (of_decide_eq_false h)

theorem toLower_eq_iff (h : letter.isUpper = false) : c.toLower = letter ↔ IsCaseOf letter c := by
  rw [IsCaseOf]
  cases hc : c.isUpper with
  | true =>
    have hne : c ≠ letter := by
      rintro rfl
      cases hc.symm.trans h
    rw [← Char.toNat_inj, toNat_toLower_of_isUpper hc]
    simp [hne]
  | false =>
    rw [toLower_of_not_isUpper hc]
    simp

theorem map_eq_iff_inAnyCase {f : Char → Char}
    (h : ∀ letter ∈ letters, ∀ c, f c = letter ↔ IsCaseOf letter c) :
    cs.map f = letters ↔ InAnyCase letters cs := by
  induction letters generalizing cs with
  | nil => simp [InAnyCase]
  | cons letter letters ih =>
    obtain ⟨hletter, hletters⟩ := List.forall_mem_cons.mp h
    cases cs with
    | nil => simp [InAnyCase]
    | cons c cs =>
      rw [List.map_cons, List.cons.injEq, hletter, ih hletters, InAnyCase, InAnyCase,
        List.forall₂_cons]

theorem of_isSmall (h : isSmall word = true) (hletter : letter ∈ word.toList) :
    letter.isUpper = false ∧ letter.toNat < 128 := by
  simpa using List.all_eq_true.mp h letter hletter

theorem toLower_eq_word_iff (h : isSmall word = true) :
    value.toLower = word ↔ InAnyCase word.toList value.toList := by
  have hmap : value.toLower.toList = value.toList.map Char.toLower := String.toList_map
  rw [← String.toList_inj, hmap]
  exact map_eq_iff_inAnyCase fun letter hletter c => toLower_eq_iff (of_isSmall h hletter).1

/-- One of some words is spelled if what is spelled, brought to one case, is among them. -/
theorem exists_inAnyCase_iff {words : List String}
    (h : ∀ word ∈ words, value = word ↔ InAnyCase word.toList cs) :
    (∃ word ∈ words, InAnyCase word.toList cs) ↔ value ∈ words := by
  constructor
  · rintro ⟨word, hword, hcase⟩
    rwa [(h word hword).mpr hcase]
  · intro hvalue
    exact ⟨value, hvalue, (h value hvalue).mp rfl⟩

end Text

namespace Color

open Text

variable {letter c : Char} {word value : String}

/-- The Kelvin sign matters only where the letter `k` is looked for. -/
theorem foldChar_eq_iff (h : letter.isUpper = false) (hascii : letter.toNat < 128)
    (hk : letter ≠ 'k') : foldChar c = letter ↔ IsCaseOf letter c := by
  rw [foldChar]
  split
  · next hkelvin =>
    refine iff_of_false hk.symm ?_
    rintro (rfl | ⟨hc, -⟩)
    · omega
    · have := isUpper_iff.mp hc
      omega
  · exact toLower_eq_iff h

theorem foldCase_eq_word_iff (h : isSmall word = true) (hk : 'k' ∉ word.toList) :
    foldCase value = word ↔ InAnyCase word.toList value.toList := by
  rw [← String.toList_inj, foldCase, String.toList_ofList]
  refine map_eq_iff_inAnyCase fun letter hletter c => ?_
  obtain ⟨hupper, hascii⟩ := of_isSmall h hletter
  exact foldChar_eq_iff hupper hascii fun heq => hk (heq ▸ hletter)

end Color

namespace Directive

open Text

/-- The words that stand for a boolean. -/
def wordsFor : Bool → List String
  | true => ["1", "yes", "true", "on"]
  | false => ["0", "no", "false", "off"]

/-- A value that stands for a boolean. Nothing may stand around the word. -/
def IsBoolean (value : String) (on : Bool) : Prop :=
  ∃ word ∈ wordsFor on, InAnyCase word.toList value.toList

variable {value : String} {on : Bool}

theorem isBoolean_iff : IsBoolean value on ↔ value.toLower ∈ wordsFor on := by
  have hsmall : (wordsFor on).all isSmall = true := by
    cases on
    · decide +kernel
    · decide +kernel
  exact exists_inAnyCase_iff fun word hword =>
    toLower_eq_word_iff (List.all_eq_true.mp hsmall word hword)

theorem boolean?_eq_some_iff : boolean? value = some on ↔ IsBoolean value on := by
  rw [isBoolean_iff, boolean?]
  generalize value.toLower = word
  cases on
  all_goals
    simp only [wordsFor, List.mem_cons, List.not_mem_nil, or_false]
    grind

theorem boolean?_eq_none_iff : boolean? value = none ↔ ∀ on, ¬ IsBoolean value on := by
  simp only [← boolean?_eq_some_iff, Option.eq_none_iff_forall_ne_some, Ne]

end Directive

namespace Prompt.Theme

open Text

/-- The names of a theme. -/
def names : Theme → List String
  | classic => ["classic", "default"]
  | minimal => ["minimal"]

/-- A value that names a theme, perhaps with blanks around the name. -/
def IsNamed (value : String) (theme : Theme) : Prop :=
  ∃ name ∈ theme.names, ∃ kept, StandsIn kept value.toList ∧ InAnyCase name.toList kept

variable {value : String} {theme : Theme}

theorem isNamed_iff : IsNamed value theme ↔ Color.foldCase (trim value) ∈ theme.names := by
  have hwords : theme.names.all (fun name => isSmall name && !name.toList.contains 'k') = true := by
    cases theme
    · decide +kernel
    · decide +kernel
  have hfold : ∀ name ∈ theme.names, Color.foldCase (trim value) = name ↔
      InAnyCase name.toList (trimChars value.toList) := by
    intro name hname
    have hword := List.all_eq_true.mp hwords name hname
    simp only [Bool.and_eq_true, Bool.not_eq_true', List.contains_eq_mem, decide_eq_false_iff_not]
      at hword
    rw [Color.foldCase_eq_word_iff hword.1 hword.2, trim, String.toList_ofList]
  rw [← exists_inAnyCase_iff hfold]
  simp only [IsNamed, ← trimChars_eq_iff, exists_eq_left']

theorem ofName?_eq_some_iff : ofName? value = some theme ↔ IsNamed value theme := by
  rw [isNamed_iff, ofName?]
  generalize Color.foldCase (trim value) = name
  cases theme
  all_goals
    simp only [names, List.mem_cons, List.not_mem_nil, or_false]
    grind

theorem ofName?_eq_none_iff : ofName? value = none ↔ ∀ theme, ¬ IsNamed value theme := by
  simp only [← ofName?_eq_some_iff, Option.eq_none_iff_forall_ne_some, Ne]

end Prompt.Theme

namespace Palette.Part

/-- The key that each color has in a configuration. -/
inductive HasKey : Part → String → Prop
  | promptStatus : HasKey promptStatus "prompt_status"
  | promptCwd : HasKey promptCwd "prompt_cwd"
  | promptSymbol : HasKey promptSymbol "prompt_symbol"
  | keyword : HasKey keyword "keyword"
  | filename : HasKey filename "filename"
  | connector : HasKey connector "connector"
  | hint : HasKey hint "hint"

variable {part : Part} {key : String}

theorem hasKey_iff : HasKey part key ↔ part.key = key := by
  constructor
  · rintro (_ | _)
    all_goals rfl
  · rintro rfl
    cases part
    all_goals constructor

theorem ofKey?_eq_some_iff : ofKey? key = some part ↔ HasKey part key := by
  rw [hasKey_iff]
  constructor
  · intro h
    rw [ofKey?] at h
    have hkey := List.find?_some h
    exact of_decide_eq_true hkey
  · rintro rfl
    cases part
    all_goals rfl

theorem ofKey?_eq_none_iff : ofKey? key = none ↔ ∀ part, ¬ HasKey part key := by
  simp only [← ofKey?_eq_some_iff, Option.eq_none_iff_forall_ne_some, Ne]

end Palette.Part

end FileShell

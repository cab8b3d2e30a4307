import FileShell.Proofs.Command.Execution
import FileShell.Proofs.Editor.Expectation
import FileShell.Proofs.Suggestion.Nearest

/-!
# The hint on a line that is no command

What is hinted at depends on the first word of the line alone. `FirstWord` says which word that is
without reading the line, and `Meant` which keyword a word that is none most likely stands for, by
true distances. Every rejection blames the form of the line, and its hint is one of three kinds
(`hint_outcome`). Main statement: `hint_iff`.
-/

namespace FileShell

open Token

/-- The first word of a line: what stands in front of it belongs to no word, and what stands behind
does not continue it. -/
def Line.FirstWord (line word : String) : Prop :=
  ∃ front rest, line.toList = front ++ (word.toList ++ rest) ∧ Apart front ∧ IsWord word.toList ∧
    ¬ Continues word.toList rest

namespace Token

theorem apart_or_exists_word (cs : List Char) : Apart cs ∨ ∃ front word rest,
    cs = front ++ (word ++ rest) ∧ Apart front ∧ IsWord word ∧ ¬ Continues word rest := by
  induction cs with
  | nil => exact Or.inl fun c hc => absurd hc List.not_mem_nil
  | cons c cs ih =>
    cases hc : Text.isWordChar c with
    | true =>
      refine Or.inr ⟨[], (splitWord (c :: cs)).1, (splitWord (c :: cs)).2, ?_, ?_, ?_, ?_⟩
      · rw [List.nil_append, splitWord_append]
      · exact fun d hd => absurd hd List.not_mem_nil
      · exact isWord_splitWord ⟨c, cs, rfl, hc⟩
      · exact not_continues_splitWord (c :: cs)
    | false =>
      rcases ih with hapart | ⟨front, word, rest, rfl, hfront, hword, hrest⟩
      · exact Or.inl (List.forall_mem_cons.mpr ⟨hc, hapart⟩)
      · exact Or.inr ⟨c :: front, word, rest, rfl, List.forall_mem_cons.mpr ⟨hc, hfront⟩, hword,
          hrest⟩

end Token

namespace Line

variable {line word : String}

theorem FirstWord.map_front? (h : FirstWord line word) :
    (front? (tokenize line)).map Token.text = some word := by
  obtain ⟨front, rest, hline, hfront, hword, hrest⟩ := h
  rw [front?_tokenize, hline, scan_append_of_apart hfront, scan_append_word hword hrest,
    List.head?_cons, Option.map_some, ofWord, String.ofList_toList]

/-- The first word is the text of the token at the front. -/
theorem firstWord_iff :
    FirstWord line word ↔ (front? (tokenize line)).map Token.text = some word := by
  refine ⟨FirstWord.map_front?, ?_⟩
  intro h
  rcases apart_or_exists_word line.toList with hapart | ⟨front, other, rest, hline, hparts⟩
  · rw [front?_tokenize, scan_of_apart hapart] at h
    cases h
  · have hother : FirstWord line (String.ofList other) :=
      ⟨front, rest, by rwa [String.toList_ofList], by rwa [String.toList_ofList]⟩
    have heq := hother.map_front?.symm.trans h
    rwa [Option.some.inj heq] at hother

theorem FirstWord.unique {other : String} (h : FirstWord line word)
    (hother : FirstWord line other) : word = other :=
  Option.some.inj (h.map_front?.symm.trans hother.map_front?)

theorem FirstWord.ne_empty (h : FirstWord line word) : word ≠ "" := by
  obtain ⟨_, _, -, -, hword, -⟩ := h
  exact hword.isComponent.ne_empty

theorem firstWord_of_front? {head : Token} (h : front? (tokenize line) = some head) :
    FirstWord line head.text :=
  firstWord_iff.mpr (by rw [h, Option.map_some])

theorem not_firstWord_of_front? (h : front? (tokenize line) = none) (word : String) :
    ¬ FirstWord line word := by
  rw [firstWord_iff, h]
  exact fun hsome => by cases hsome

/-- The first word is a keyword exactly if it selects a command. -/
theorem selects_iff {kind : CommandKind} :
    Command.Selects (tokenize line) kind ↔ FirstWord line kind.shape.keyword := by
  rw [firstWord_iff, Option.map_eq_some_iff, Command.Selects]

end Line

namespace Suggestion

/-- The keyword that a word most likely stands for: of the keywords that it begins the first
shortest one, or, if it begins none, the first nearest one that is at most two edits away. -/
def Meant (word keyword : String) : Prop :=
  IsFirstLeast (fun k => Text.byteLength k.toList)
      (Shape.keywords.filter fun k => word.toList <+: k.toList) keyword ∨
    (∀ k ∈ Shape.keywords, ¬ word.toList <+: k.toList) ∧
      IsFirstLeast (distance word) (Shape.keywords.filter fun k => distance word k ≤ 2) keyword

variable {word keyword : String}

theorem Meant.mem (h : Meant word keyword) : keyword ∈ Shape.keywords := by
  rcases h with hleast | ⟨-, hleast⟩
  · exact (List.mem_filter.mp hleast.mem).1
  · exact (List.mem_filter.mp hleast.mem).1

theorem best_keywords_eq_some_iff (hword : word ≠ "") :
    best word Shape.keywords = some keyword ↔ Meant word keyword := by
  have hnear : (Shape.keywords.filter fun k => k ≠ "" ∧ distance word k ≤ 2) =
      Shape.keywords.filter fun k => distance word k ≤ 2 := by
    apply List.filter_congr
    intro k hk
    have hne : k ≠ "" := ne_of_mem_of_not_mem hk (by decide)
    simp only [ne_eq, hne, not_false_eq_true, true_and]
  have hnone : (Shape.keywords.filter fun k => word.toList <+: k.toList) = [] ↔
      ∀ k ∈ Shape.keywords, ¬ word.toList <+: k.toList := by
    simp only [List.filter_eq_nil_iff, decide_eq_true_eq]
  rw [best_of_ne hword, hnear, Option.or_eq_some_iff, firstLeast_eq_some_iff,
    firstLeast_eq_some_iff, firstLeast_eq_none_iff, hnone, Meant]

end Suggestion

namespace Line

open Suggestion

/-- A hint at a keyword that may be meant. -/
def meantHint (keyword : String) : String :=
  "did you mean '" ++ keyword ++ "'?"

/-- A hint at the form of a command. -/
def usageHint (usage : String) : String :=
  "usage: " ++ usage

theorem meantHint_inj {a b : String} : meantHint a = meantHint b ↔ a = b := by
  rw [meantHint, meantHint, String.append_left_inj, String.append_right_inj]

theorem usageHint_inj {a b : String} : usageHint a = usageHint b ↔ a = b := by
  rw [usageHint, usageHint, String.append_right_inj]

theorem meantHint_ne_usageHint (keyword usage : String) : meantHint keyword ≠ usageHint usage := by
  intro h
  have hhead := congrArg (fun s => s.toList.head?) h
  simp [meantHint, usageHint] at hhead

section Rejections

variable {strict : Bool} {line : String} {r : Rejection}

/-- Once a command is selected, its usage is the hint, whatever is wrong behind the first word. -/
theorem hint_diagnose_of_command {kind : CommandKind} (hcommand : r.command = some kind)
    (hempty : r.reason ≠ .empty) (hunknown : ∀ word, r.reason ≠ .unknownCommand word) :
    (diagnose r).hint = some (usageHint kind.shape.usage) := by
  obtain ⟨reason, index, offset, command⟩ := r
  subst hcommand
  cases reason with
  | empty => exact absurd rfl hempty
  | unknownCommand word => exact absurd rfl (hunknown word)
  | expectedMarker => rfl
  | expectedConnector => rfl
  | expectedFilename => rfl
  | trailing => rfl

theorem hint_diagnose_unknown {word : String} (h : r.reason = .unknownCommand word) :
    (diagnose r).hint = (best word Shape.keywords).map meantHint := by
  rw [diagnose, h]
  cases hbest : best word Shape.keywords with
  | none => simp only [hbest, Diagnostic.ofRejection, h, Option.map_none]
  | some keyword => simp only [hbest, Option.map_some, meantHint]

/-- What the hint on a rejected line is. -/
theorem hint_outcome (h : Command.Refused strict (tokenize line) r) :
    (∃ kind : CommandKind, FirstWord line kind.shape.keyword ∧
      (diagnose r).hint = some (usageHint kind.shape.usage)) ∨
    (∃ word, FirstWord line word ∧ word ∉ Shape.keywords ∧
      (diagnose r).hint = (best word Shape.keywords).map meantHint) ∨
    (∀ word, ¬ FirstWord line word) ∧ (diagnose r).hint = none := by
  cases h with
  | empty hfront => exact Or.inr (Or.inr ⟨not_firstWord_of_front? hfront, rfl⟩)
  | @unknown head hfront hword =>
    refine Or.inr (Or.inl ⟨head.text, firstWord_of_front? hfront, ?_, hint_diagnose_unknown rfl⟩)
    rw [Shape.mem_keywords_iff]
    rintro ⟨kind, hkey⟩
    exact hword kind hkey
  | @mismatch kind filled slot hsel =>
    have hreason := slot.mismatch_ne ((front? ((tokenize line).drop (filled + 1))).map Token.text)
    exact Or.inl ⟨kind, selects_iff.mp hsel,
      hint_diagnose_of_command rfl hreason.1 fun word => (hreason.2 word).1⟩
  | @trailing kind extra hsel =>
    refine Or.inl ⟨kind, selects_iff.mp hsel, hint_diagnose_of_command rfl ?_ fun word => ?_⟩
    · exact fun hreason => by cases hreason
    · exact fun hreason => by cases hreason

theorem hint_eq_meantHint_iff (h : Command.Refused strict (tokenize line) r) (keyword : String) :
    (diagnose r).hint = some (meantHint keyword) ↔
      ∃ word, FirstWord line word ∧ word ∉ Shape.keywords ∧ Meant word keyword := by
  rcases hint_outcome h with ⟨kind, hfirst, hhint⟩ | ⟨word, hfirst, hnot, hhint⟩ | ⟨hnone, hhint⟩
  · rw [hhint, Option.some.injEq]
    constructor
    · intro heq
      exact absurd heq.symm (meantHint_ne_usageHint _ _)
    · rintro ⟨word, hword, hnot, -⟩
      rw [hword.unique hfirst] at hnot
      exact absurd (Shape.mem_keywords_iff.mpr ⟨kind, rfl⟩) hnot
  · have hmeant := @best_keywords_eq_some_iff word keyword hfirst.ne_empty
    simp only [hhint, Option.map_eq_some_iff, meantHint_inj, exists_eq_right, hmeant]
    constructor
    · intro hbest
      exact ⟨word, hfirst, hnot, hbest⟩
    · rintro ⟨other, hother, -, hbest⟩
      rwa [hother.unique hfirst] at hbest
  · rw [hhint]
    constructor
    · exact fun heq => by cases heq
    · rintro ⟨word, hword, -⟩
      exact absurd hword (hnone word)

theorem hint_eq_usageHint_iff (h : Command.Refused strict (tokenize line) r) (usage : String) :
    (diagnose r).hint = some (usageHint usage) ↔
      ∃ kind : CommandKind, FirstWord line kind.shape.keyword ∧ usage = kind.shape.usage := by
  have hother : ¬ (∃ kind : CommandKind, FirstWord line kind.shape.keyword) →
      ¬ ∃ kind : CommandKind, FirstWord line kind.shape.keyword ∧ usage = kind.shape.usage :=
    fun hnone ⟨kind, hkind, _⟩ => hnone ⟨kind, hkind⟩
  rcases hint_outcome h with ⟨kind, hfirst, hhint⟩ | ⟨word, hfirst, hnot, hhint⟩ | ⟨hnone, hhint⟩
  · rw [hhint, Option.some.injEq, usageHint_inj]
    constructor
    · rintro rfl
      exact ⟨kind, hfirst, rfl⟩
    · rintro ⟨other, hkey, rfl⟩
      rw [CommandKind.eq_of_keyword_eq (hfirst.unique hkey)]
  · rw [hhint, Option.map_eq_some_iff]
    constructor
    · rintro ⟨keyword, -, heq⟩
      exact absurd heq (meantHint_ne_usageHint _ _)
    · refine fun hkind => absurd hkind (hother ?_)
      rintro ⟨kind, hkey⟩
      exact hnot (Shape.mem_keywords_iff.mpr ⟨kind, hfirst.unique hkey⟩)
  · rw [hhint]
    constructor
    · exact fun heq => by cases heq
    · exact fun hkind => absurd hkind (hother fun ⟨kind, hkey⟩ => hnone _ hkey)

theorem hint_cases (h : Command.Refused strict (tokenize line) r) :
    (∃ keyword, (diagnose r).hint = some (meantHint keyword)) ∨
      (∃ usage, (diagnose r).hint = some (usageHint usage)) ∨ (diagnose r).hint = none := by
  rcases hint_outcome h with ⟨kind, -, hhint⟩ | ⟨word, -, -, hhint⟩ | ⟨-, hhint⟩
  · exact Or.inr (Or.inl ⟨_, hhint⟩)
  · cases hbest : best word Shape.keywords with
    | none => exact Or.inr (Or.inr (by rw [hhint, hbest, Option.map_none]))
    | some keyword => exact Or.inl ⟨keyword, by rw [hhint, hbest, Option.map_some]⟩
  · exact Or.inr (Or.inr hhint)

/-- A line whose form is to blame is one that was rejected. -/
theorem exists_refused {root : String} {d : Disk} {diagnostic : Diagnostic}
    (h : (execute strict root line d).result = .error diagnostic)
    (hform : diagnostic.trouble = .form) :
    ∃ r, Command.Refused strict (tokenize line) r ∧ diagnostic = diagnose r := by
  cases hline : Command.ofLine strict line with
  | error r =>
    rw [execute_of_error hline] at h
    cases h
    exact ⟨r, Command.Refused.of_ofTokens hline, rfl⟩
  | ok c =>
    rw [(execute_of_ok hline root d).1] at h
    cases hresult : (c.execute root d).result with
    | ok outcome =>
      rw [hresult] at h
      cases h
    | error fault =>
      rw [hresult] at h
      cases h
      cases hform

end Rejections

/-- On a line whose form is to blame, the hint is a keyword exactly if the first word is none and
this keyword is meant; it is a usage exactly if the first word is a keyword, whose usage it is; and
there is none exactly if neither is the case. It is one of the three. A keyword that is hinted at is
not the first word itself. -/
theorem hint_iff {strict : Bool} {root line : String} {d : Disk} {diagnostic : Diagnostic}
    (h : (execute strict root line d).result = .error diagnostic)
    (hform : diagnostic.trouble = .form) :
    (∀ keyword, diagnostic.hint = some (meantHint keyword) ↔
      ∃ word, FirstWord line word ∧ word ∉ Shape.keywords ∧ Meant word keyword) ∧
    (∀ usage, diagnostic.hint = some (usageHint usage) ↔
      ∃ kind : CommandKind, FirstWord line kind.shape.keyword ∧ usage = kind.shape.usage) ∧
    (diagnostic.hint = none ↔
      (∀ word keyword, FirstWord line word → word ∉ Shape.keywords → ¬ Meant word keyword) ∧
        ∀ kind : CommandKind, ¬ FirstWord line kind.shape.keyword) ∧
    ((∃ keyword, diagnostic.hint = some (meantHint keyword)) ∨
      (∃ usage, diagnostic.hint = some (usageHint usage)) ∨ diagnostic.hint = none) ∧
    (∀ keyword usage, meantHint keyword ≠ usageHint usage) ∧
    ∀ word keyword, FirstWord line word → diagnostic.hint = some (meantHint keyword) →
      keyword ∈ Shape.keywords ∧ keyword ≠ word := by
  obtain ⟨r, hrefused, rfl⟩ := exists_refused h hform
  have hmeant := hint_eq_meantHint_iff hrefused
  have husage := hint_eq_usageHint_iff hrefused
  have hcases := hint_cases hrefused
  refine ⟨hmeant, husage, ⟨?_, ?_⟩, hcases, meantHint_ne_usageHint, ?_⟩
  · intro hnone
    constructor
    · intro word keyword hfirst hnot hmeans
      have hsome := (hmeant keyword).mpr ⟨word, hfirst, hnot, hmeans⟩
      rw [hnone] at hsome
      cases hsome
    · intro kind hfirst
      have hsome := (husage kind.shape.usage).mpr ⟨kind, hfirst, rfl⟩
      rw [hnone] at hsome
      cases hsome
  · rintro ⟨hnomeant, hnousage⟩
    rcases hcases with ⟨keyword, hsome⟩ | ⟨usage, hsome⟩ | hnone
    · obtain ⟨word, hfirst, hnot, hmeans⟩ := (hmeant keyword).mp hsome
      exact absurd hmeans (hnomeant word keyword hfirst hnot)
    · obtain ⟨kind, hfirst, -⟩ := (husage usage).mp hsome
      exact absurd hfirst (hnousage kind)
    · exact hnone
  · intro word keyword hfirst hsome
    obtain ⟨other, hother, hnot, hmeans⟩ := (hmeant keyword).mp hsome
    rw [hother.unique hfirst] at hnot
    exact ⟨hmeans.mem, ne_of_mem_of_not_mem hmeans.mem hnot⟩

/-- A mistyped keyword, and a keyword behind which something is missing. -/
theorem hint_iff_mistyped :
    ((execute false "/" "craete file a" {}).result =
      .error ⟨.form, "unknown command 'craete'", some (meantHint "create"), some 0⟩ ∧
      ∃ word, FirstWord "craete file a" word ∧ word ∉ Shape.keywords ∧ Meant word "create") ∧
    (execute false "/" "create a" {}).result =
      .error ⟨.form, "expected 'file' marker, found 'a'", some (usageHint "create file <name>"),
        some 7⟩ ∧
      ∃ kind : CommandKind, FirstWord "create a" kind.shape.keyword ∧
        "create file <name>" = kind.shape.usage := by
  have hmistyped : (execute false "/" "craete file a" {}).result =
      .error ⟨.form, "unknown command 'craete'", some (meantHint "create"), some 0⟩ := by
    decide +kernel
  have hunfinished : (execute false "/" "create a" {}).result =
      .error ⟨.form, "expected 'file' marker, found 'a'", some (usageHint "create file <name>"),
        some 7⟩ := by
    decide +kernel
  exact ⟨⟨hmistyped, ((hint_iff hmistyped rfl).1 "create").mp rfl⟩, hunfinished,
    ((hint_iff hunfinished rfl).2.1 _).mp rfl⟩

end Line

end FileShell

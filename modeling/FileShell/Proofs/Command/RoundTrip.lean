import FileShell.Proofs.Command.Acceptance
import FileShell.Proofs.Token.Gaps

/-!
# Writing a command and reading it back

`Slot.spell` puts operands into slots, `Command.words` gives the words of a command, and
`Command.written` writes them with single blanks, as usage texts do (`usage_eq_written`). Main
statement: `round_trip`. A command is read back from its words whatever keeps them apart, and the
operands of every command that is read are ones that can be written.
-/

namespace FileShell

open Token

namespace Slot

/-- The words at slots: the fixed ones, and the operands in turn where there are any left. -/
def spell : List Slot → List String → List String
  | [], _ => []
  | .literal _ text :: slots, operands => text :: spell slots operands
  | .operand :: slots, [] => spell slots []
  | .operand :: slots, name :: operands => name :: spell slots operands

/-- Words that are what slots spell fill these slots, and the operands are read back. The words
have to be of the kinds that the slots ask for. -/
theorem filled_of_spell {slots : List Slot} {operands : List String} {tokens : List Token}
    (more : List Token) (hfixed : ∀ role text, Slot.literal role text ∈ slots → kindOf text = role)
    (hlen : operands.length = (slots.filter Slot.isOperand).length)
    (hnames : ∀ name ∈ operands, kindOf name = .filename)
    (hkind : ∀ t ∈ tokens, t.kind = kindOf t.text)
    (htext : tokens.map Token.text = spell slots operands) :
    Filled slots (tokens ++ more) ∧ captures slots (tokens ++ more) = operands ∧
      tokens.length = slots.length := by
  induction slots generalizing operands tokens with
  | nil =>
    have hnil : tokens = [] := by simpa [spell] using htext
    have hops : operands = [] := List.eq_nil_of_length_eq_zero hlen
    subst hnil hops
    exact ⟨filled_nil _, rfl, rfl⟩
  | cons slot slots ih =>
    have hfixed' : ∀ role text, Slot.literal role text ∈ slots → kindOf text = role :=
      fun role text h => hfixed role text (List.mem_cons_of_mem _ h)
    cases slot with
    | literal role text =>
      cases tokens with
      | nil => simp [spell] at htext
      | cons t tokens =>
        simp only [List.map_cons, spell, List.cons.injEq] at htext
        obtain ⟨rfl, htext⟩ := htext
        have hrest : operands.length = (slots.filter Slot.isOperand).length := by
          simpa [List.filter_cons, isOperand] using hlen
        obtain ⟨hfilled, hcaptures, hcount⟩ := ih hfixed' hrest hnames
          (fun u hu => hkind u (List.mem_cons_of_mem _ hu)) htext
        have haccepts : (Slot.literal role t.text).Accepts t := by
          refine ⟨?_, rfl⟩
          rw [hkind t (by simp)]
          exact hfixed role t.text (by simp)
        refine ⟨filled_cons_iff.mpr ⟨⟨t, rfl, haccepts⟩, hfilled⟩, ?_, by simp [hcount]⟩
        rw [List.cons_append, captures_cons, hcaptures]
        rfl
    | operand =>
      cases operands with
      | nil => simp [List.filter_cons, isOperand] at hlen
      | cons name operands =>
        cases tokens with
        | nil => simp [spell] at htext
        | cons t tokens =>
          simp only [List.map_cons, spell, List.cons.injEq] at htext
          obtain ⟨rfl, htext⟩ := htext
          have hrest : operands.length = (slots.filter Slot.isOperand).length := by
            simpa [List.filter_cons, isOperand] using hlen
          obtain ⟨hfilled, hcaptures, hcount⟩ := ih hfixed' hrest
            (fun other h => hnames other (List.mem_cons_of_mem _ h))
            (fun u hu => hkind u (List.mem_cons_of_mem _ hu)) htext
          have haccepts : Slot.operand.Accepts t := by
            have hname := hnames t.text (by simp)
            rw [← hkind t (by simp)] at hname
            exact hname
          refine ⟨filled_cons_iff.mpr ⟨⟨t, rfl, haccepts⟩, hfilled⟩, ?_, by simp [hcount]⟩
          rw [List.cons_append, captures_cons, hcaptures]
          rfl

/-- What slots spell are the fixed words and the operands. -/
theorem mem_spell {slots : List Slot} {operands : List String} {word : String}
    (h : word ∈ spell slots operands) :
    (∃ role, Slot.literal role word ∈ slots) ∨ word ∈ operands := by
  fun_induction spell slots operands with
  | case1 operands => simp at h
  | case2 role text slots operands ih =>
    rcases List.mem_cons.mp h with rfl | h
    · exact Or.inl ⟨role, by simp⟩
    · obtain ⟨role, hmem⟩ | hmem := ih h
      · exact Or.inl ⟨role, List.mem_cons_of_mem _ hmem⟩
      · exact Or.inr hmem
  | case3 slots ih =>
    obtain ⟨role, hmem⟩ | hmem := ih h
    · exact Or.inl ⟨role, List.mem_cons_of_mem _ hmem⟩
    · simp at hmem
  | case4 slots name operands ih =>
    rcases List.mem_cons.mp h with rfl | h
    · exact Or.inr (by simp)
    · obtain ⟨role, hmem⟩ | hmem := ih h
      · exact Or.inl ⟨role, List.mem_cons_of_mem _ hmem⟩
      · exact Or.inr (List.mem_cons_of_mem _ hmem)

/-- With enough operands there is a word for each slot. -/
theorem length_spell {slots : List Slot} {operands : List String}
    (hlen : operands.length = (slots.filter Slot.isOperand).length) :
    (spell slots operands).length = slots.length := by
  fun_induction spell slots operands with
  | case1 operands => rfl
  | case2 role text slots operands ih => simpa [List.filter_cons, isOperand] using ih hlen
  | case3 slots ih => simp [List.filter_cons, isOperand] at hlen
  | case4 slots name operands ih =>
    simpa [List.filter_cons, isOperand] using ih (by simpa [List.filter_cons, isOperand] using hlen)

/-- With placeholders for the operands, slots spell their labels. -/
theorem spell_replicate (slots : List Slot) :
    spell slots (List.replicate (slots.filter isOperand).length "<name>") = slots.map label := by
  induction slots with
  | nil => rfl
  | cons slot slots ih =>
    cases slot with
    | literal role text => simpa [spell, label, isOperand] using ih
    | operand => simpa [spell, label, List.filter_cons, isOperand, List.replicate_succ] using ih

end Slot

/-- The fixed words of a command are of the kinds that their slots ask for. -/
theorem CommandKind.kindOf_literal {kind : CommandKind} {role : TokenKind} {text : String}
    (h : Slot.literal role text ∈ kind.shape.slots) : kindOf text = role := by
  rcases eq_of_literal_mem h with ⟨rfl, rfl⟩ | ⟨rfl, rfl⟩
  · decide
  · decide

theorem CommandKind.isWord_literal {kind : CommandKind} {role : TokenKind} {text : String}
    (h : Slot.literal role text ∈ kind.shape.slots) : IsWord text.toList := by
  rcases eq_of_literal_mem h with ⟨-, rfl⟩ | ⟨-, rfl⟩
  · exact .run (by decide)
  · exact .run (by decide)

theorem CommandKind.isWord_keyword (kind : CommandKind) : IsWord kind.shape.keyword.toList := by
  cases kind
  all_goals exact .run (by decide)

namespace Command

/-- What may be an operand: a word that is neither a keyword nor a connector. -/
def IsOperand (name : String) : Prop :=
  IsWord name.toList ∧ name ∉ Shape.keywords ∧ name ∉ Shape.connectors

/-- The words of a command, from its keyword on. -/
def words (c : Command) : List String :=
  c.kind.shape.keyword :: Slot.spell c.kind.shape.slots c.operands

/-- The words of a command with single blanks between them. -/
def written (c : Command) : String :=
  " ".intercalate c.words

/-- A line that spells a command with any characters between its words. -/
def spread (lead : List Char) (gaps : List (List Char)) (trail : List Char) (c : Command) :
    String :=
  String.ofList (lead ++ c.kind.shape.keyword.toList ++
    behind gaps (Slot.spell c.kind.shape.slots c.operands) ++ trail)

theorem kindOf_eq_filename_iff {name : String} :
    kindOf name = .filename ↔ name ∉ Shape.keywords ∧ name ∉ Shape.connectors := by
  rw [kindOf_eq]
  by_cases hkey : name ∈ Shape.keywords
  · simp [hkey]
  · by_cases hcon : name ∈ Shape.connectors
    · simp [hkey, hcon]
    · simp [hkey, hcon]

/-- A usage text is a written command, with a placeholder for each operand. -/
theorem usage_eq_written (kind : CommandKind) :
    kind.shape.usage = written ⟨kind, List.replicate kind.arity "<name>"⟩ := by
  have hspell := Slot.spell_replicate kind.shape.slots
  rw [Shape.usage, written, words, ← hspell]
  rfl

theorem isWord_of_mem_words {c : Command} (h : ∀ name ∈ c.operands, IsOperand name) :
    ∀ word ∈ c.words, IsWord word.toList := by
  intro word hword
  rcases List.mem_cons.mp hword with rfl | hspell
  · exact c.kind.isWord_keyword
  · obtain ⟨role, hmem⟩ | hmem := Slot.mem_spell hspell
    · exact CommandKind.isWord_literal hmem
    · exact (h word hmem).1

/-- A line whose words are those of a command is read as that command, whatever the mode. -/
theorem ofLine_eq_ok_of_words {c : Command} {line : String}
    (hlen : c.operands.length = c.kind.arity) (hnames : ∀ name ∈ c.operands, IsOperand name)
    (htext : (scan 0 line.toList).map Token.text = c.words) (strict : Bool) :
    ofLine strict line = .ok c := by
  obtain ⟨kind, operands⟩ := c
  simp only at hlen hnames
  cases hscan : scan 0 line.toList with
  | nil => simp [hscan, words] at htext
  | cons head rest =>
    rw [hscan, words, List.map_cons, List.cons.injEq] at htext
    obtain ⟨hkey, hrest⟩ := htext
    have hkind : ∀ t ∈ head :: rest, t.kind = kindOf t.text := fun t ht =>
      kind_eq_of_mem_scan (hscan ▸ ht)
    obtain ⟨hfilled, hcaptures, hcount⟩ := Slot.filled_of_spell
      [endMarker (Text.byteLength line.toList)] (fun _ _ => CommandKind.kindOf_literal) hlen
      (fun name hname => kindOf_eq_filename_iff.mpr (hnames name hname).2)
      (fun t ht => hkind t (List.mem_cons_of_mem _ ht)) hrest
    have htokens : tokenize line = head :: (rest ++ [endMarker (Text.byteLength line.toList)]) := by
      rw [tokenize, hscan, List.cons_append]
    have hhead : head.isEnd = false := isEnd_of_mem_scan (hscan ▸ List.mem_cons_self)
    rw [ofLine, ofTokens_eq_ok_iff, htokens, List.tail_cons]
    refine ⟨⟨⟨head, ?_, hkey⟩, hfilled, Or.inl ?_⟩, hcaptures.symm⟩
    · simp [front?, hhead]
    · -- Only the end marker stands behind the last slot.
      rw [List.drop_succ_cons, ← hcount, List.drop_left]
      rfl

/-- An operand that is read can be written: it is a word that names no command and connects
nothing. -/
theorem isOperand_of_ofLine {strict : Bool} {line : String} {c : Command}
    (h : ofLine strict line = .ok c) : ∀ name ∈ c.operands, IsOperand name := by
  obtain ⟨⟨-, hfilled, -⟩, hoperands⟩ := ofTokens_eq_ok_iff.mp h
  intro name hname
  rw [hoperands, Slot.captures, List.mem_filterMap] at hname
  obtain ⟨⟨slot, t⟩, hmem, hcaptured⟩ := hname
  obtain ⟨i, hi⟩ := List.mem_iff_getElem?.mp hmem
  obtain ⟨hslot, ht⟩ := List.getElem?_zip_eq_some.mp hi
  obtain ⟨u, hu, haccepts⟩ := hfilled i slot hslot
  rw [ht, Option.some.injEq] at hu
  subst hu
  cases slot with
  | literal role text => simp [Slot.captured, Slot.isOperand] at hcaptured
  | operand =>
    have htext : t.text = name := by simpa [Slot.captured, Slot.isOperand] using hcaptured
    have hkind : t.kind = .filename := haccepts
    have hin : t ∈ tokenize line := List.mem_of_mem_tail (List.mem_of_getElem? ht)
    rw [tokenize, List.mem_append, List.mem_singleton] at hin
    rcases hin with hscan | rfl
    · rw [← htext]
      refine ⟨(cuts_scan _ _).formed _ hscan, kindOf_eq_filename_iff.mp ?_⟩
      rw [← kind_eq_of_mem_scan hscan, hkind]
    · cases hkind

theorem length_operands_of_ofLine {strict : Bool} {line : String} {c : Command}
    (h : ofLine strict line = .ok c) : c.operands.length = c.kind.arity :=
  length_operands_of_ofTokens h

theorem ofLine_spread {c : Command} {lead trail : List Char} {gaps : List (List Char)}
    (hlen : c.operands.length = c.kind.arity) (hnames : ∀ name ∈ c.operands, IsOperand name)
    (hlead : Apart lead) (htrail : Apart trail) (hgaps : ∀ gap ∈ gaps, IsGap gap)
    (hcount : gaps.length + 1 = c.words.length) (strict : Bool) :
    ofLine strict (c.spread lead gaps trail) = .ok c := by
  refine ofLine_eq_ok_of_words hlen hnames ?_ strict
  have hlength : gaps.length = (Slot.spell c.kind.shape.slots c.operands).length := by
    simpa [words] using hcount
  rw [spread, String.toList_ofList, List.append_assoc, List.append_assoc,
    scan_append_of_apart hlead, ← List.append_assoc,
    map_text_scan_behind hgaps hlength htrail (isWord_of_mem_words hnames)]
  rfl

theorem isGap_blank : IsGap [' '] := by decide

theorem toList_intercalate_blank (word : String) (words : List String) :
    (" ".intercalate (word :: words)).toList =
      word.toList ++ behind (List.replicate words.length [' ']) words := by
  induction words generalizing word with
  | nil => simp
  | cons next words ih =>
    rw [String.intercalate_cons_cons, String.toList_append, ih, List.length_cons,
      List.replicate_succ]
    simp

/-- Of words with single blanks between them, exactly these words are read. -/
theorem map_text_scan_intercalate {words : List String}
    (hwords : ∀ word ∈ words, IsWord word.toList) (offset : Nat) :
    (scan offset (" ".intercalate words).toList).map Token.text = words := by
  cases words with
  | nil => exact congrArg (List.map Token.text) (scan_of_apart (by simp [Apart]) offset)
  | cons first words =>
    have hgaps : ∀ gap ∈ List.replicate words.length [' '], IsGap gap := by
      intro gap hgap
      rw [List.eq_of_mem_replicate hgap]
      exact isGap_blank
    have htrail : Apart [] := by simp [Apart]
    have hscan := map_text_scan_behind hgaps List.length_replicate htrail hwords offset
    rw [List.append_nil] at hscan
    rw [toList_intercalate_blank, hscan]

/-- A command is read from its usage form. -/
theorem ofLine_written {c : Command} (hlen : c.operands.length = c.kind.arity)
    (hnames : ∀ name ∈ c.operands, IsOperand name) (strict : Bool) :
    ofLine strict c.written = .ok c := by
  have htext := map_text_scan_intercalate (isWord_of_mem_words hnames) 0
  exact ofLine_eq_ok_of_words hlen hnames htext strict

/-- A command that is written with any gaps between its words is read as itself, also in strict
mode. The operands of a command that is read are ones that can be written, so that writing it in
the form of its usage text and reading it again gives the same command in both modes. -/
theorem round_trip :
    (∀ (c : Command) (lead trail : List Char) (gaps : List (List Char)) (strict : Bool),
      c.operands.length = c.kind.arity → (∀ name ∈ c.operands, IsOperand name) →
      Apart lead → Apart trail → (∀ gap ∈ gaps, IsGap gap) → gaps.length + 1 = c.words.length →
      ofLine strict (c.spread lead gaps trail) = .ok c) ∧
    (∀ (c : Command) (line : String) (strict : Bool), ofLine strict line = .ok c →
      c.operands.length = c.kind.arity ∧ (∀ name ∈ c.operands, IsOperand name) ∧
      ∀ other : Bool, ofLine other c.written = .ok c) ∧
    ∀ kind : CommandKind,
      kind.shape.usage = written ⟨kind, List.replicate kind.arity "<name>"⟩ := by
  refine ⟨?_, ?_, usage_eq_written⟩
  · intro c lead trail gaps strict hlen hnames hlead htrail hgaps hcount
    exact ofLine_spread hlen hnames hlead htrail hgaps hcount strict
  · intro c line strict h
    have hlen := length_operands_of_ofLine h
    have hnames := isOperand_of_ofLine h
    exact ⟨hlen, hnames, ofLine_written hlen hnames⟩

/-- Two dots and a dot beside other marks keep words apart, and `file` may name a file. -/
theorem round_trip_rename :
    ofLine true "(.rename..file .file->to\nä.b." = .ok ⟨.rename, ["file", "ä.b"]⟩ ∧
      ofLine false "rename file file to ä.b" = .ok ⟨.rename, ["file", "ä.b"]⟩ := by
  have hnames : ∀ name ∈ ["file", "ä.b"], IsOperand name := by
    intro name hname
    rcases List.mem_pair.mp hname with rfl | rfl
    · exact ⟨.run (by decide), by decide, by decide⟩
    · have hword : IsWord (['ä'] ++ '.' :: ['b']) := .dotted (by decide) (by decide)
      exact ⟨hword, by decide, by decide⟩
  have hread := round_trip.1 ⟨.rename, ["file", "ä.b"]⟩ ['(', '.'] ['.']
    [['.', '.'], [' ', '.'], ['-', '>'], ['\n']] true rfl hnames
    (by decide) (by decide) (by decide) rfl
  exact ⟨hread, (round_trip.2.1 _ _ _ hread).2.2 false⟩

end Command

end FileShell

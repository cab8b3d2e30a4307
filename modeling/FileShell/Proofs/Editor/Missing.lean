import FileShell.Proofs.Editor.Hint
import FileShell.Proofs.Text.Replace

/-!
# Hints for missing words

Behind a blank the hint shows the labels of the slots that are missing. `fillIn` puts names into
such a hint. Main statement: `ofShape_completes`, with names for its placeholders the hint completes
the command.
-/

namespace FileShell

open Text Token

namespace Editor

namespace Hint

open Command

variable {line text : String} {c : Cursor} {kind : CommandKind} {filled : List Token}
  {names : List String}

/-- The characters with each placeholder replaced by the next one of some names, as long as there
are any. What is put in is not searched again. -/
def substitute (names : List String) (cs : List Char) : List Char :=
  match names, cs with
  | [], cs => cs
  | _ :: _, [] => []
  | name :: names, c :: cs =>
    match _h : afterPattern? Slot.operand.label.toList (c :: cs) with
    | some rest => name.toList ++ substitute names rest
    | none => c :: substitute (name :: names) cs
termination_by cs.length
decreasing_by
  · have hne : Slot.operand.label.toList ≠ [] := by decide
    exact length_afterPattern_lt hne ‹_›
  · exact Nat.lt_succ_self _

/-- A hint with names in the place of its placeholders. -/
def fillIn (hint : String) (names : List String) : String :=
  String.ofList (substitute names hint.toList)

theorem substitute_label_append (name : String) (names : List String) (rest : List Char) :
    substitute (name :: names) (Slot.operand.label.toList ++ rest) =
      name.toList ++ substitute names rest := by
  have hafter := afterPattern?_append Slot.operand.label.toList rest
  have hcons : Slot.operand.label.toList ++ rest = '<' :: ("name>".toList ++ rest) := rfl
  rw [hcons] at hafter ⊢
  rw [substitute]
  split
  · next found heq =>
    rw [hafter, Option.some.injEq] at heq
    rw [heq]
  · next heq =>
    rw [hafter] at heq
    cases heq

/-- No placeholder begins in characters without an opening bracket. -/
theorem substitute_append_of_notMem {cs : List Char} (h : '<' ∉ cs) (names : List String)
    (rest : List Char) : substitute names (cs ++ rest) = cs ++ substitute names rest := by
  induction cs with
  | nil => rfl
  | cons d cs ih =>
    have hne : '<' ≠ d := fun heq => h (heq ▸ List.mem_cons_self)
    have hrest := ih fun hmem => h (List.mem_cons_of_mem _ hmem)
    cases names with
    | nil => rw [substitute, substitute]
    | cons name names =>
      have hafter : afterPattern? Slot.operand.label.toList (d :: (cs ++ rest)) = none :=
        afterPattern?_cons_of_ne hne _ _
      rw [List.cons_append, substitute]
      split
      · next found heq =>
        rw [hafter] at heq
        cases heq
      · rw [hrest, List.cons_append]

/-- With names for the placeholders, the labels of slots become the words that the slots spell. -/
theorem substitute_behind {slots : List Slot}
    (hfixed : ∀ role word, Slot.literal role word ∈ slots → '<' ∉ word.toList)
    (hlen : names.length = (slots.filter Slot.isOperand).length) :
    substitute names (behind (List.replicate slots.length [' ']) (slots.map Slot.label)) =
      behind (List.replicate slots.length [' ']) (Slot.spell slots names) := by
  induction slots generalizing names with
  | nil =>
    have hnil : names = [] := List.eq_nil_of_length_eq_zero hlen
    rw [hnil, substitute]
    rfl
  | cons slot slots ih =>
    have hrest : ∀ role word, Slot.literal role word ∈ slots → '<' ∉ word.toList :=
      fun role word hmem => hfixed role word (List.mem_cons_of_mem _ hmem)
    have hblank : '<' ∉ [' '] := by decide
    rw [List.length_cons, List.replicate_succ, List.map_cons, behind_cons, List.append_assoc,
      substitute_append_of_notMem hblank]
    cases slot with
    | literal role word =>
      have hword := hfixed role word List.mem_cons_self
      rw [Slot.label, Slot.spell, substitute_append_of_notMem hword, ih hrest hlen, behind_cons,
        List.append_assoc]
    | operand =>
      cases names with
      | nil => simp [List.filter_cons, Slot.isOperand] at hlen
      | cons name names =>
        have hlen : names.length = (slots.filter Slot.isOperand).length := by
          simpa [List.filter_cons, Slot.isOperand] using hlen
        rw [substitute_label_append, Slot.spell, ih hrest hlen, behind_cons, List.append_assoc]

/-- With a blank in front, each of some words stands behind a blank. -/
theorem cons_toList_intercalate {words : List String} (h : words ≠ []) :
    ' ' :: (" ".intercalate words).toList = behind (List.replicate words.length [' ']) words := by
  obtain ⟨first, rest, rfl⟩ := List.exists_cons_of_ne_nil h
  rw [toList_intercalate_blank, List.length_cons, List.replicate_succ, behind_cons]
  rfl

/-- The hint for slots, filled in, spells the slots. -/
theorem fillIn_labels {slots : List Slot}
    (hfixed : ∀ role word, Slot.literal role word ∈ slots → '<' ∉ word.toList)
    (hlen : names.length = (slots.filter Slot.isOperand).length) (hslots : slots ≠ []) :
    fillIn (" ".intercalate (slots.map Slot.label)) names =
      " ".intercalate (Slot.spell slots names) := by
  have hlabels : ' ' :: (" ".intercalate (slots.map Slot.label)).toList =
      behind (List.replicate slots.length [' ']) (slots.map Slot.label) := by
    rw [cons_toList_intercalate (by simpa using hslots), List.length_map]
  have hspell : ' ' :: (" ".intercalate (Slot.spell slots names)).toList =
      behind (List.replicate slots.length [' ']) (Slot.spell slots names) := by
    have hcount := Slot.length_spell hlen
    have hne : Slot.spell slots names ≠ [] := by
      rw [← List.length_pos_iff, hcount, List.length_pos_iff]
      exact hslots
    rw [cons_toList_intercalate hne, hcount]
  have hblank : '<' ∉ [' '] := by decide
  have hfill : ' ' :: substitute names (" ".intercalate (slots.map Slot.label)).toList =
      ' ' :: (" ".intercalate (Slot.spell slots names)).toList :=
    calc ' ' :: substitute names (" ".intercalate (slots.map Slot.label)).toList
      _ = substitute names (' ' :: (" ".intercalate (slots.map Slot.label)).toList) :=
          (substitute_append_of_notMem hblank names _).symm
      _ = behind (List.replicate slots.length [' ']) (Slot.spell slots names) := by
          rw [hlabels, substitute_behind hfixed hlen]
      _ = ' ' :: (" ".intercalate (Slot.spell slots names)).toList := hspell.symm
  rw [fillIn, (List.cons.inj hfill).2, String.ofList_toList]

/-- No label of a fixed word looks like a placeholder. -/
theorem bracket_notMem_literal {role : TokenKind} {word : String}
    (h : Slot.literal role word ∈ kind.shape.slots) : '<' ∉ word.toList := by
  rcases CommandKind.eq_of_literal_mem h with ⟨-, rfl⟩ | ⟨-, rfl⟩
  all_goals decide

/-- Nothing is missing where a command begins, and behind its last slot. -/
theorem missing?_of_after
    (h : Expectation.after text = .keyword ∨ Expectation.after text = .nothing) :
    missing? text = none := by
  have hslots : missingSlots? text = none ∨ missingSlots? text = some [] := by
    rw [Expectation.after] at h
    rw [missingSlots?]
    cases hwords : Token.words (tokenize text) with
    | nil => exact Or.inl rfl
    | cons head rest =>
      simp only [hwords] at h ⊢
      cases hshape : Shape.ofKeyword? head.text with
      | none => exact Or.inl rfl
      | some shape =>
        simp only [hshape] at h ⊢
        cases hslot : shape.slots[rest.length]? with
        | none =>
          have hlen := List.getElem?_eq_none_iff.mp hslot
          split
          · right
            rw [List.drop_eq_nil_of_le hlen]
          · exact Or.inl rfl
        | some slot =>
          rw [hslot] at h
          cases slot with
          | literal role word => rcases h with h | h <;> cases h
          | operand => rcases h with h | h <;> cases h
  rw [missing?]
  rcases hslots with hslots | hslots
  · rw [hslots]
  · rw [hslots]

/-- The hint behind a command that is being typed. -/
theorem missing?_of_underway (h : Underway text kind filled)
    (hlt : filled.length < kind.shape.slots.length) :
    missing? text =
      some (" ".intercalate ((kind.shape.slots.drop filled.length).map Slot.label)) := by
  obtain ⟨head, hscan, hkey⟩ := h.begun
  have hshape : Shape.ofKeyword? head.text = some kind.shape :=
    Shape.ofKeyword?_eq_some_iff.mpr ⟨kind, rfl, hkey⟩
  have hslots : missingSlots? text = some (kind.shape.slots.drop filled.length) := by
    rw [missingSlots?, words_tokenize, hscan]
    simp only [hshape, if_pos h.length_le]
  rw [missing?, hslots, List.drop_eq_getElem_cons hlt]

/-- Words that are put in behind a separator, with blanks between them, become tokens. -/
theorem exists_scan_append (hend : EndsApart line.toList) {words : List String}
    (hwords : ∀ word ∈ words, IsWord word.toList) :
    ∃ more, scan 0 (line ++ " ".intercalate words).toList = scan 0 line.toList ++ more ∧
      more.map Token.text = words ∧ ∀ t ∈ more, t.kind = kindOf t.text := by
  refine ⟨scan (0 + byteLength line.toList) (" ".intercalate words).toList, ?_,
    map_text_scan_intercalate hwords _, fun t => kind_eq_of_mem_scan⟩
  rw [String.toList_append, scan_append_of_endsApart hend]

/-- A command that is being typed is completed by the words that its missing slots spell. -/
theorem ofLine_append_spell (h : Underway line kind filled) (hend : EndsApart line.toList)
    (hlen : names.length =
      ((kind.shape.slots.drop filled.length).filter Slot.isOperand).length)
    (hnames : ∀ name ∈ names, IsOperand name) (strict : Bool) :
    ofLine strict (line ++
        " ".intercalate (Slot.spell (kind.shape.slots.drop filled.length) names)) =
      .ok ⟨kind, Slot.captures kind.shape.slots filled ++ names⟩ := by
  have hin : ∀ {role word}, Slot.literal role word ∈ kind.shape.slots.drop filled.length →
      Slot.literal role word ∈ kind.shape.slots := List.mem_of_mem_drop
  have hwords : ∀ word ∈ Slot.spell (kind.shape.slots.drop filled.length) names,
      IsWord word.toList := by
    intro word hword
    obtain ⟨role, hmem⟩ | hmem := Slot.mem_spell hword
    · exact CommandKind.isWord_literal (hin hmem)
    · exact (hnames word hmem).1
  obtain ⟨more, hscan, htext, hkind⟩ := exists_scan_append hend hwords
  obtain ⟨hfits, hcaptures, hcount⟩ := Slot.filled_of_spell []
    (fun _ _ hmem => CommandKind.kindOf_literal (hin hmem)) hlen
    (fun name hname => kindOf_eq_filename_iff.mpr (hnames name hname).2) hkind htext
  rw [List.append_nil] at hfits hcaptures
  have hall : filled.length + more.length = kind.shape.slots.length := by
    have hle := h.length_le
    rw [hcount, List.length_drop]
    omega
  have hmore : Slot.Filled ((kind.shape.slots.drop filled.length).take more.length) more := by
    rw [hcount, List.take_length]
    exact hfits
  have hunder := h.extend hscan (Nat.le_of_eq hall) hmore
  rw [← List.length_append] at hall
  rw [hunder.ofLine_eq_ok hall strict, Slot.captures_append, hcaptures]

/-- With names for its placeholders, the hint behind a command that is being typed completes it. -/
theorem ofLine_append_fillIn (h : Underway line kind filled) (hend : EndsApart line.toList)
    (hlt : filled.length < kind.shape.slots.length)
    (hlen : names.length =
      ((kind.shape.slots.drop filled.length).filter Slot.isOperand).length)
    (hnames : ∀ name ∈ names, IsOperand name) (strict : Bool) :
    ofLine strict (line ++
        fillIn (" ".intercalate ((kind.shape.slots.drop filled.length).map Slot.label)) names) =
      .ok ⟨kind, Slot.captures kind.shape.slots filled ++ names⟩ := by
  have hslots : kind.shape.slots.drop filled.length ≠ [] := by
    rw [List.drop_eq_getElem_cons hlt]
    exact List.cons_ne_nil _ _
  have hfixed : ∀ role word, Slot.literal role word ∈ kind.shape.slots.drop filled.length →
      '<' ∉ word.toList := fun _ _ hmem => bracket_notMem_literal (List.mem_of_mem_drop hmem)
  rw [fillIn_labels hfixed hlen hslots]
  exact ofLine_append_spell h hend hlen hnames strict

/-- Behind a blank at the end of a line, the hint is about what is missing. -/
theorem ofShape_of_blank {blank : Char}
    (hc : Cursor.at? line (byteLength line.toList) = some c)
    (hlast : line.toList.getLast? = some blank) (hblank : isBlank blank = true) :
    ofShape c = missing? line ∧ EndsApart line.toList := by
  have hend : EndsApart line.toList := by
    intro ch hch
    rw [hlast, Option.some.injEq] at hch
    exact separates_of_isBlank (hch ▸ hblank)
  refine ⟨?_, hend⟩
  have hbefore := Cursor.before_of_at?_end hc
  have hfollows : c.followsBlank = true := by
    rw [Cursor.followsBlank, hbefore, hlast]
    exact hblank
  rw [ofShape, if_pos (Cursor.word_of_endsApart (hbefore ▸ hend)), if_pos hfollows, hbefore,
    String.ofList_toList]

/-- At the end of a line that ends with a blank, the hint is true. If the line is refused only
because it ends too early, the hint consists of the labels of the slots that are missing, and with
any names of files for its placeholders it completes the line to a command, also in strict mode,
whose operands are those typed so far and these names. There is no hint if the line is a command or
has no words. -/
theorem ofShape_completes {blank : Char}
    (hc : Cursor.at? line (byteLength line.toList) = some c)
    (hlast : line.toList.getLast? = some blank) (hblank : isBlank blank = true) :
    (∀ h : History, ofHistory h line (byteLength line.toList) = .nothing →
      find h line (byteLength line.toList) = some (ofShape c)) ∧
    (∀ strict r kind, ofLine strict line = .error r → r.command = some kind →
      r.reason.found = none →
      ∃ missing hint, missing = kind.shape.slots.drop (r.index - 1) ∧ missing ≠ [] ∧
        hint = " ".intercalate (missing.map Slot.label) ∧ ofShape c = some hint ∧
        ∀ names, names.length = (missing.filter Slot.isOperand).length →
          (∀ name ∈ names, IsOperand name) →
          ofLine true (line ++ fillIn hint names) = .ok
            ⟨kind, Slot.captures kind.shape.slots (Token.words (tokenize line)).tail ++ names⟩) ∧
    (∀ strict command, ofLine strict line = .ok command → ofShape c = none) ∧
    (Token.words (tokenize line) = [] → ofShape c = none) := by
  obtain ⟨hshape, hend⟩ := ofShape_of_blank hc hlast hblank
  rw [hshape]
  refine ⟨fun h hpast => hshape ▸ find_of_nothing hc (Nat.le_refl _) hpast, ?_, ?_, ?_⟩
  · intro strict r kind hline hkind hfound
    obtain ⟨filled, slot, hunder, hslot, hindex⟩ := underway_of_ofLine hline hkind hfound
    have hlt := (List.getElem?_eq_some_iff.mp hslot).1
    have hdrop : r.index - 1 = filled.length := by omega
    have htyped : (Token.words (tokenize line)).tail = filled := by
      obtain ⟨head, hscan, -⟩ := hunder.begun
      rw [words_tokenize, hscan, List.tail_cons]
    rw [hdrop, htyped]
    refine ⟨_, _, rfl, ?_, rfl, missing?_of_underway hunder hlt, ?_⟩
    · rw [List.drop_eq_getElem_cons hlt]
      exact List.cons_ne_nil _ _
    · intro names hlen hnames
      exact ofLine_append_fillIn hunder hend hlt hlen hnames true
  · intro strict command hline
    obtain ⟨⟨hsel, hfilled, -⟩, -⟩ := ofTokens_eq_ok_iff.mp hline
    exact missing?_of_after (Or.inr (Expectation.after_of_filled hsel hfilled))
  · intro hnil
    rw [words_tokenize] at hnil
    exact missing?_of_after (Or.inl (Expectation.after_of_scan_nil hnil))

/-- Behind a tab, with one name typed and another one missing. -/
theorem ofShape_completes_connector :
    find {} "copy file ä.b\t" 15 = some (some "to <name>") ∧
      ofLine true ("copy file ä.b\t" ++ fillIn "to <name>" ["file"]) =
        .ok ⟨.copy, ["ä.b", "file"]⟩ := by
  have hc : Cursor.at? "copy file ä.b\t" 15 = some ⟨"copy file ä.b\t".toList, []⟩ := by
    decide +kernel
  have hline : ofLine false "copy file ä.b\t" =
      .error ⟨.expectedConnector "to" none, 3, 15, some .copy⟩ := by with_unfolding_all rfl
  have hnames : ∀ name ∈ ["file"], IsOperand name := by
    intro name hname
    rw [List.mem_singleton.mp hname]
    exact ⟨.run (by decide), by decide, by decide⟩
  have hblank : isBlank '\t' = true := by decide
  obtain ⟨hfind, hmissing, -⟩ := ofShape_completes hc rfl hblank
  obtain ⟨missing, hint, hslots, -, hlabels, hshape, hcompletes⟩ :=
    hmissing false _ .copy hline rfl rfl
  have hfind := hfind {} (by decide +kernel)
  have htyped : Slot.captures CommandKind.copy.shape.slots
      (Token.words (tokenize "copy file ä.b\t")).tail = ["ä.b"] := by decide +kernel
  subst hslots
  have hcompletes := hcompletes ["file"] rfl hnames
  rw [hshape, hlabels] at hfind
  rw [hlabels, htyped] at hcompletes
  exact ⟨hfind, hcompletes⟩

end Hint

end Editor

end FileShell

import FileShell.Editor.Completion
import FileShell.Proofs.Command.RoundTrip
import FileShell.Proofs.Editor.Cursor
import FileShell.Proofs.Editor.Underway
import FileShell.Proofs.Suggestion.Nearest

/-!
# Accepting a completion

`Demands` says which fixed words can stand next in a text and of which kind they are there, and
`DemandsNone` that no fixed word is expected. What stands before the word at the cursor ends with a
separator (`Cursor.endsApart_lead`), so a word that is put in there becomes one more token. Main
statement: `offer_accepted`, a completion takes a command that is being typed one slot further.
-/

namespace FileShell

open Text Token

namespace Editor

/-- The fixed words that can stand next in a text, with the kind that they have there. -/
inductive Demands (text : String) : TokenKind → List String → Prop
  | command : words (tokenize text) = [] → Demands text .keyword Shape.keywords
  | literal {kind : CommandKind} {head : Token} {rest : List Token} {role : TokenKind}
      {word : String} : words (tokenize text) = head :: rest →
      head.text = kind.shape.keyword →
      kind.shape.slots[rest.length]? = some (.literal role word) → Demands text role [word]

/-- No fixed word is expected next in a text: its first word is no keyword, a file name comes next,
or all slots are behind. -/
inductive DemandsNone (text : String) : Prop
  | unknown {head : Token} {rest : List Token} : words (tokenize text) = head :: rest →
      head.text ∉ Shape.keywords → DemandsNone text
  | operand {kind : CommandKind} {head : Token} {rest : List Token} :
      words (tokenize text) = head :: rest → head.text = kind.shape.keyword →
      kind.shape.slots[rest.length]? = some .operand → DemandsNone text
  | past {kind : CommandKind} {head : Token} {rest : List Token} :
      words (tokenize text) = head :: rest → head.text = kind.shape.keyword →
      kind.shape.slots.length ≤ rest.length → DemandsNone text

namespace Demands

variable {text choice : String} {role : TokenKind} {choices : List String}

theorem choices?_after (h : Demands text role choices) :
    (Expectation.after text).choices? = some choices := by
  cases h with
  | command hwords =>
    rw [Expectation.after, hwords]
    rfl
  | literal hwords hkey hslot =>
    rw [Expectation.after_of_words hwords hkey, hslot]
    rfl

/-- The keywords are demanded as such, `file` as a file name and `to` as a connector. -/
theorem cases_eq (h : Demands text role choices) :
    role = .keyword ∧ choices = Shape.keywords ∨ role = .filename ∧ choices = ["file"] ∨
      role = .connector ∧ choices = ["to"] := by
  cases h with
  | command => exact Or.inl ⟨rfl, rfl⟩
  | literal _ _ hslot =>
    right
    rcases CommandKind.eq_of_literal_mem (List.mem_of_getElem? hslot) with ⟨rfl, rfl⟩ | ⟨rfl, rfl⟩
    · exact Or.inl ⟨rfl, rfl⟩
    · exact Or.inr ⟨rfl, rfl⟩

theorem ne_nil (h : Demands text role choices) : choices ≠ [] := by
  rcases h.cases_eq with ⟨-, rfl⟩ | ⟨-, rfl⟩ | ⟨-, rfl⟩
  all_goals decide

theorem empty_notMem (h : Demands text role choices) : "" ∉ choices := by
  rcases h.cases_eq with ⟨-, rfl⟩ | ⟨-, rfl⟩ | ⟨-, rfl⟩
  all_goals decide

/-- What is demanded are words, and of the kind that is demanded. -/
theorem isWord (h : Demands text role choices) (hmem : choice ∈ choices) :
    IsWord choice.toList ∧ kindOf choice = role := by
  cases h with
  | command =>
    obtain ⟨kind, rfl⟩ := Shape.mem_keywords_iff.mp hmem
    refine ⟨kind.isWord_keyword, ?_⟩
    rw [kindOf_eq, if_pos hmem]
  | literal hwords hkey hslot =>
    obtain rfl := List.mem_singleton.mp hmem
    have hin := List.mem_of_getElem? hslot
    exact ⟨CommandKind.isWord_literal hin, CommandKind.kindOf_literal hin⟩

end Demands

theorem demands_or_demandsNone (text : String) :
    (∃ role choices, Demands text role choices) ∨ DemandsNone text := by
  cases hwords : words (tokenize text) with
  | nil => exact Or.inl ⟨_, _, .command hwords⟩
  | cons head rest =>
    by_cases hkey : head.text ∈ Shape.keywords
    · obtain ⟨kind, hkey⟩ := Shape.mem_keywords_iff.mp hkey
      cases hslot : kind.shape.slots[rest.length]? with
      | none => exact Or.inr (.past hwords hkey (List.getElem?_eq_none_iff.mp hslot))
      | some slot =>
        cases slot with
        | literal role word => exact Or.inl ⟨role, [word], .literal hwords hkey hslot⟩
        | operand => exact Or.inr (.operand hwords hkey hslot)
    · exact Or.inr (.unknown hwords hkey)

theorem DemandsNone.after_eq {text : String} (h : DemandsNone text) :
    Expectation.after text = .filename ∨ Expectation.after text = .nothing := by
  cases h with
  | @unknown head rest hwords hkey =>
    right
    have hfront : front? (tokenize text) = some head := by
      rw [front?_tokenize, ← words_tokenize, hwords, List.head?_cons]
    exact Expectation.after_of_unknown hfront fun kind heq =>
      hkey (Shape.mem_keywords_iff.mpr ⟨kind, heq⟩)
  | operand hwords hkey hslot =>
    left
    rw [Expectation.after_of_words hwords hkey, hslot]
    rfl
  | past hwords hkey hlen =>
    right
    rw [Expectation.after_of_words hwords hkey, List.getElem?_eq_none hlen]
    rfl

theorem DemandsNone.choices?_after {text : String} (h : DemandsNone text) :
    (Expectation.after text).choices? = none := by
  rcases h.after_eq with hafter | hafter
  · rw [hafter]
    rfl
  · rw [hafter]
    rfl

theorem exists_demands {text : String}
    (h : Expectation.after text = .keyword ∨ ∃ word, Expectation.after text = .literal word) :
    ∃ role choices, Demands text role choices := by
  rcases demands_or_demandsNone text with hdemands | hnone
  · exact hdemands
  · have hchoices := hnone.choices?_after
    rcases h with hafter | ⟨word, hafter⟩
    · rw [hafter] at hchoices
      cases hchoices
    · rw [hafter] at hchoices
      cases hchoices

namespace Completion

variable {text choice : String} {role : TokenKind} {choices : List String} {c : Cursor}

theorem offer_of_demands (d : Disk) (home : Option String) (h : Demands c.lead role choices) :
    offer d home c = ⟨c.wordStart, ofChoices c.word choices⟩ := by
  have hafter := h.choices?_after
  unfold offer
  split
  · next heq =>
    rw [heq] at hafter
    cases hafter
    rfl
  · next heq =>
    rw [heq] at hafter
    cases hafter
    rfl
  · next heq =>
    rw [heq] at hafter
    cases hafter
  · next heq =>
    rw [heq] at hafter
    cases hafter

theorem shown_ofChoices (word : String) (choices : List String) :
    (ofChoices word choices).map Candidate.shown =
      choices.filter fun choice => word.toList <+: choice.toList := by
  rw [ofChoices, List.map_map]
  have hid : (Candidate.shown ∘ fun choice => ⟨choice, choice ++ " "⟩) = id := rfl
  rw [hid, List.map_id]
  apply List.filter_congr
  intro choice _
  rw [Bool.eq_iff_iff, Suggestion.begins_iff, decide_eq_true_iff]

theorem of_mem_ofChoices {word : String} {k : Candidate} (h : k ∈ ofChoices word choices) :
    k.shown ∈ choices ∧ k.replacement = k.shown ++ " " := by
  obtain ⟨choice, hchoice, rfl⟩ := List.mem_map.mp h
  exact ⟨List.mem_of_mem_filter hchoice, rfl⟩

/-- A word that is put in behind a separator, with a blank after it, becomes one more token. -/
theorem scan_put_in (htext : EndsApart text.toList) (hword : IsWord choice.toList) :
    scan 0 (text ++ (choice ++ " ")).toList =
      scan 0 text.toList ++ [⟨kindOf choice, choice, byteLength text.toList⟩] := by
  have hblank : Apart " ".toList := Command.isGap_blank.apart
  rw [String.toList_append, String.toList_append, scan_append_of_endsApart htext, Nat.zero_add,
    scan_append_word hword (hblank.not_continues _), scan_of_apart hblank, ofWord,
    String.ofList_toList]

/-- If the text before the cursor is a command that is being typed, it stays one with a word that
is demanded. -/
theorem underway_put_in (htext : EndsApart text.toList) (h : Demands text role choices)
    (hmem : choice ∈ choices) {strict : Bool} {r : Rejection}
    (hline : Command.ofLine strict text = .error r) (hfound : r.reason.found = none) :
    ∃ kind filled, Command.Underway (text ++ (choice ++ " ")) kind filled ∧
      filled.length = r.index := by
  obtain ⟨hword, hrole⟩ := h.isWord hmem
  have hscan := scan_put_in htext hword
  have hrefused := Command.Refused.of_ofTokens hline
  cases hkind : r.command with
  | none =>
    have hindex : r.index = 0 := by
      have hsome := hrefused.command_isSome
      rw [hkind] at hsome
      simpa using hsome
    have hnil : scan 0 text.toList = [] := by
      rw [← List.length_eq_zero_iff, ← hrefused.index_eq_length hfound, hindex]
    cases h with
    | command =>
      obtain ⟨kind, rfl⟩ := Shape.mem_keywords_iff.mp hmem
      rw [hnil, List.nil_append] at hscan
      exact ⟨kind, [], ⟨⟨_, hscan, rfl⟩, Nat.zero_le _, Slot.filled_nil _⟩, hindex.symm⟩
    | literal hwords =>
      rw [words_tokenize, hnil] at hwords
      cases hwords
  | some kind =>
    obtain ⟨filled, slot, hunder, hslot, hindex⟩ :=
      Command.underway_of_ofLine hline hkind hfound
    obtain ⟨head, htokens, hkey⟩ := hunder.begun
    cases h with
    | command hwords =>
      rw [words_tokenize, htokens] at hwords
      cases hwords
    | @literal other first rest _ word hwords hother hslot' =>
      rw [words_tokenize, htokens] at hwords
      obtain ⟨rfl, rfl⟩ := List.cons.inj hwords
      obtain rfl := CommandKind.eq_of_keyword_eq (hkey.symm.trans hother)
      obtain rfl := List.mem_singleton.mp hmem
      refine ⟨_, _, hunder.step hslot' hscan ⟨hrole, rfl⟩, ?_⟩
      rw [List.length_append, hindex]
      rfl

/-- Where a keyword or a fixed word is expected, the candidates are those that begin with the word
at the cursor, in the order of the table. Each of them, put in from the start of that word, becomes
one more token behind the words before it, of the kind that its slot demands. And if these words
were a command up to there, so are the words with the new one: they are a whole command, also in
strict mode, or they are refused at the end again, one word later. -/
theorem offer_accepted (d : Disk) (home : Option String) {line : String} {offset : Nat}
    (hc : Cursor.at? line offset = some c)
    (hexpected : Expectation.after c.lead = .keyword ∨
      ∃ word, Expectation.after c.lead = .literal word) :
    ∃ role choices, Demands c.lead role choices ∧
      (role = .keyword ∧ choices = Shape.keywords ∨ role = .filename ∧ choices = ["file"] ∨
        role = .connector ∧ choices = ["to"]) ∧
      cutAt line.toList (offer d home c).start = some (c.lead.toList, c.word.toList ++ c.after) ∧
      (offer d home c).candidates.map Candidate.shown =
        (choices.filter fun choice => c.word.toList <+: choice.toList) ∧
      ∀ k ∈ (offer d home c).candidates,
        tokenize (c.lead ++ k.replacement) =
          words (tokenize c.lead) ++ [⟨role, k.shown, (offer d home c).start⟩,
            endMarker (byteLength (c.lead ++ k.replacement).toList)] ∧
        ∀ strict r, Command.ofLine strict c.lead = .error r → r.reason.found = none →
          (∃ command, Command.ofLine true (c.lead ++ k.replacement) = .ok command) ∨
          ∃ next, (∀ mode, Command.ofLine mode (c.lead ++ k.replacement) = .error next) ∧
            next.reason.found = none ∧ next.index = r.index + 1 := by
  obtain ⟨role, choices, hdemands⟩ := exists_demands hexpected
  rw [offer_of_demands d home hdemands]
  refine ⟨role, choices, hdemands, hdemands.cases_eq, c.cutAt_wordStart hc,
    shown_ofChoices _ _, ?_⟩
  intro k hk
  obtain ⟨hmem, hreplacement⟩ := of_mem_ofChoices hk
  obtain ⟨hword, hrole⟩ := hdemands.isWord hmem
  rw [hreplacement]
  refine ⟨?_, ?_⟩
  · rw [words_tokenize, tokenize, scan_put_in c.endsApart_lead hword, List.append_assoc, hrole]
    rfl
  · intro strict r hline hfound
    obtain ⟨kind, filled, hunder, hlen⟩ :=
      underway_put_in c.endsApart_lead hdemands hmem hline hfound
    rcases hunder.ofLine_outcome with ⟨command, hok⟩ | ⟨next, herror, hnext, hindex⟩
    · exact Or.inl ⟨command, hok true⟩
    · exact Or.inr ⟨next, herror, hnext, by rw [hindex, hlen]⟩

/-- A word that is begun behind the first file name is completed to the connector, and what stands
behind the cursor does not matter. -/
theorem offer_accepted_connector :
    Cursor.at? "copy file ä.b tö" 16 = some ⟨"copy file ä.b t".toList, ['ö']⟩ ∧
      ∃ next, (∀ mode, Command.ofLine mode "copy file ä.b to " = .error next) ∧
        next.reason.found = none ∧ next.index = 4 := by
  have hc : Cursor.at? "copy file ä.b tö" 16 = some ⟨"copy file ä.b t".toList, ['ö']⟩ := by
    decide +kernel
  obtain ⟨role, choices, -, -, -, -, haccepted⟩ :=
    offer_accepted {} none hc (Or.inr ⟨"to", by decide +kernel⟩)
  obtain ⟨-, hnext⟩ := haccepted ⟨"to", "to "⟩ (by decide +kernel)
  have hline : Command.ofLine false "copy file ä.b " =
      .error ⟨.expectedConnector "to" none, 3, 15, some .copy⟩ := by with_unfolding_all rfl
  rcases hnext false _ hline rfl with ⟨command, hok⟩ | hnext
  · have herror : Command.ofLine true "copy file ä.b to " =
        .error ⟨.expectedFilename none, 4, 18, some .copy⟩ := by with_unfolding_all rfl
    cases hok.symm.trans herror
  · exact ⟨hc, hnext⟩

end Completion

end Editor

end FileShell

import FileShell.Editor.Highlight
import FileShell.Proofs.Token.Tokenization

/-!
# Colors leave the text alone

A line consists of pieces, each a word with the characters in front of it, and of a tail. `Placed`
says that the pieces stand where their tokens say, and `setting?` which setting colors a word.
Highlighting writes the sequence of that color and the reset sequence around the word and copies
everything else (`paintTokens_of_placed`), and `Color.erase` takes such sequences out of a text.
Main statement: `line_puts_codes_around_words`.
-/

namespace FileShell

open Text Token

namespace Color

/-- A sequence that sets a color: an escape character, a bracket, digits and the letter `m`. -/
def IsSequence (cs : List Char) : Prop :=
  ∃ digits : List Char, (∀ d ∈ digits, d.isDigit = true) ∧ cs = escape :: '[' :: digits ++ ['m']

/-- The characters behind the sequence that they begin with. -/
def afterSequence? : List Char → Option (List Char)
  | first :: '[' :: cs =>
    if first = escape then
      match cs.dropWhile Char.isDigit with
      | 'm' :: after => some after
      | _ => none
    else none
  | _ => none

theorem length_afterSequence_lt {cs after : List Char} (h : afterSequence? cs = some after) :
    after.length < cs.length := by
  unfold afterSequence? at h
  split at h
  · next first cs =>
    split at h
    · split at h
      · next rest hdrop =>
        obtain rfl := Option.some.inj h
        have hle := (List.dropWhile_sublist Char.isDigit (l := cs)).length_le
        rw [hdrop, List.length_cons] at hle
        rw [List.length_cons, List.length_cons]
        omega
      · cases h
    · cases h
  · cases h

/-- The characters without the sequences among them that set a color. -/
def erase (cs : List Char) : List Char :=
  match cs with
  | [] => []
  | c :: rest =>
    match _h : afterSequence? (c :: rest) with
    | some after => erase after
    | none => c :: erase rest
termination_by cs.length
decreasing_by
  · exact length_afterSequence_lt ‹_›
  · exact Nat.lt_succ_self _

variable {cs code text : List Char}

theorem afterSequence?_append (h : IsSequence code) (rest : List Char) :
    afterSequence? (code ++ rest) = some rest := by
  obtain ⟨digits, hdigits, rfl⟩ := h
  have hdrop : (digits ++ 'm' :: rest).dropWhile Char.isDigit = 'm' :: rest := by
    rw [List.dropWhile_append_of_pos hdigits]
    rfl
  simp [afterSequence?, hdrop]

theorem afterSequence?_of_ne {c : Char} (h : c ≠ escape) (rest : List Char) :
    afterSequence? (c :: rest) = none := by
  unfold afterSequence?
  split
  · next heq =>
    obtain ⟨rfl, -⟩ := List.cons.inj heq
    exact if_neg h
  · rfl

theorem erase_append_sequence (h : IsSequence code) (rest : List Char) :
    erase (code ++ rest) = erase rest := by
  have hafter := afterSequence?_append h rest
  obtain ⟨digits, -, rfl⟩ := h
  rw [List.cons_append, List.cons_append] at hafter ⊢
  rw [erase]
  split
  · next hsome => rw [Option.some.inj (hsome.symm.trans hafter)]
  · next hnone => cases hnone.symm.trans hafter

/-- Only an escape character can begin a sequence. -/
theorem erase_append_of_notMem (h : escape ∉ cs) (rest : List Char) :
    erase (cs ++ rest) = cs ++ erase rest := by
  induction cs with
  | nil => rfl
  | cons c cs ih =>
    have hc : c ≠ escape := fun heq => h (heq ▸ List.mem_cons_self)
    have hnone := afterSequence?_of_ne hc (cs ++ rest)
    rw [List.cons_append, erase]
    split
    · next hsome => cases hsome.symm.trans hnone
    · rw [ih fun hmem => h (List.mem_cons_of_mem c hmem), List.cons_append]

theorem erase_of_notMem (h : escape ∉ cs) : erase cs = cs := by
  have herase := erase_append_of_notMem h []
  rwa [List.append_nil, erase, List.append_nil] at herase

theorem isSequence_reset : IsSequence reset.toList :=
  ⟨['0'], List.forall_mem_singleton.mpr rfl, by decide +kernel⟩

end Color

namespace Editor.Highlight

open Color

/-- The setting that colors the words of a kind. The end of a line is no word and has none. -/
def setting? (palette : Palette) : TokenKind → Option String
  | .keyword => some palette.keyword
  | .filename => some palette.filename
  | .connector => some palette.connector
  | .endOfInput => none

/-- The sequence in front of the words of a kind, empty for no color. -/
def codeFor (palette : Palette) (kind : TokenKind) : String :=
  ((setting? palette kind).map code).getD ""

theorem tokenCode_eq (palette : Palette) (kind : TokenKind) :
    palette.tokenCode kind = codeFor palette kind := by
  cases kind
  all_goals simp [Palette.tokenCode, codeFor, setting?]

theorem codeFor_cases (palette : Palette) (kind : TokenKind) : codeFor palette kind = "" ∨
    ∃ value ∈ [palette.keyword, palette.filename, palette.connector],
      codeFor palette kind = code value := by
  cases kind with
  | keyword => exact Or.inr ⟨palette.keyword, by simp, by simp [codeFor, setting?]⟩
  | filename => exact Or.inr ⟨palette.filename, by simp, by simp [codeFor, setting?]⟩
  | connector => exact Or.inr ⟨palette.connector, by simp, by simp [codeFor, setting?]⟩
  | endOfInput => exact Or.inl rfl

/-- A word of a line and the characters between the word before it and itself. -/
structure Piece where
  gap : List Char
  token : Token

namespace Piece

/-- The characters of a piece as they stand in the line. -/
def plain (p : Piece) : List Char :=
  p.gap ++ p.token.text.toList

/-- The characters of a piece with the code of its color in front of the word and the reset
sequence behind it, if it has a color. -/
def painted (palette : Palette) (p : Piece) : List Char :=
  let code := codeFor palette p.token.kind
  if code = "" then p.plain
  else p.gap ++ code.toList ++ p.token.text.toList ++ reset.toList

end Piece

/-- The words stand where their tokens say if the pieces follow byte `offset` of the line. -/
def Placed (offset : Nat) : List Piece → Prop
  | [] => True
  | p :: rest => p.token.offset = offset + byteLength p.gap ∧ Placed p.token.stop rest

theorem exists_pieces_scan (offset : Nat) (cs : List Char) : ∃ pieces tail,
    cs = pieces.flatMap Piece.plain ++ tail ∧ pieces.map Piece.token = scan offset cs ∧
      Placed offset pieces := by
  fun_induction scan offset cs with
  | case1 => exact ⟨[], [], rfl, rfl, trivial⟩
  | case2 offset c cs hc word ih =>
    obtain ⟨pieces, tail, hcs, htokens, hplaced⟩ := ih
    refine ⟨⟨[], ofWord offset word.1⟩ :: pieces, tail, ?_, ?_, ?_⟩
    · rw [List.flatMap_cons, Piece.plain, toList_text_ofWord, List.nil_append,
        List.append_assoc, ← hcs]
      exact (splitWord_append (c :: cs)).symm
    · rw [List.map_cons, htokens]
      rfl
    · refine ⟨rfl, ?_⟩
      rwa [stop_ofWord]
  | case3 offset c cs hc ih =>
    -- The character belongs to the gap of the next piece, or to the tail.
    obtain ⟨pieces, tail, hcs, htokens, hplaced⟩ := ih
    cases pieces with
    | nil => exact ⟨[], c :: tail, congrArg (c :: ·) hcs, htokens, trivial⟩
    | cons p pieces =>
      refine ⟨⟨c :: p.gap, p.token⟩ :: pieces, tail, congrArg (c :: ·) hcs, htokens, ?_, hplaced.2⟩
      rw [hplaced.1, byteLength_cons, Nat.add_assoc]

theorem paintTokens_of_placed (palette : Palette) {offset : Nat} {pieces : List Piece}
    (h : Placed offset pieces) (tail : List Char) :
    paintTokens palette offset (pieces.flatMap Piece.plain ++ tail) (pieces.map Piece.token) =
      pieces.flatMap (Piece.painted palette) ++ tail := by
  induction pieces generalizing offset with
  | nil => rfl
  | cons p pieces ih =>
    obtain ⟨hoffset, hrest⟩ := h
    have hgap : p.token.offset - offset = byteLength p.gap := by omega
    have hword : (wrap (palette.tokenCode p.token.kind) p.token.text).toList =
        if codeFor palette p.token.kind = "" then p.token.text.toList
        else (codeFor palette p.token.kind).toList ++ p.token.text.toList ++ reset.toList := by
      rw [tokenCode_eq, wrap]
      split
      · rfl
      · rw [String.toList_append, String.toList_append]
    rw [List.map_cons, paintTokens]
    simp only [List.flatMap_cons, Piece.plain, List.append_assoc, hgap, cutAt_byteLength,
      String.ofList_toList, hword, ih hrest]
    rw [Piece.painted, Piece.plain]
    split
    · simp only [List.append_assoc]
    · simp only [List.append_assoc]

/-- Without colors the pieces stand as they are. -/
theorem painted_of_empty {palette : Palette} (h : ∀ kind, codeFor palette kind = "") :
    Piece.painted palette = Piece.plain := by
  funext p
  exact if_pos (h p.token.kind)

theorem erase_painted {palette : Palette}
    (h : ∀ kind, codeFor palette kind = "" ∨ IsSequence (codeFor palette kind).toList)
    {pieces : List Piece} {tail : List Char}
    (hplain : escape ∉ pieces.flatMap Piece.plain ++ tail) :
    erase (pieces.flatMap (Piece.painted palette) ++ tail) =
      pieces.flatMap Piece.plain ++ tail := by
  induction pieces with
  | nil => exact erase_of_notMem hplain
  | cons p pieces ih =>
    simp only [List.flatMap_cons, List.append_assoc, List.mem_append, not_or, Piece.plain]
      at hplain
    obtain ⟨hgap, htext, hmore⟩ := hplain
    have hrest := ih (by simpa [List.mem_append, not_or] using hmore)
    rw [List.flatMap_cons, List.flatMap_cons, List.append_assoc, List.append_assoc, ← hrest,
      Piece.painted]
    rcases h p.token.kind with hnone | hcode
    · rw [if_pos hnone, Piece.plain, List.append_assoc, List.append_assoc,
        erase_append_of_notMem hgap, erase_append_of_notMem htext]
    · have hcolor : codeFor palette p.token.kind ≠ "" := by
        intro hempty
        obtain ⟨digits, -, heq⟩ := hcode
        rw [hempty] at heq
        cases heq
      rw [if_neg hcolor, Piece.plain]
      simp only [List.append_assoc]
      rw [erase_append_of_notMem hgap, erase_append_sequence hcode, erase_append_of_notMem htext,
        erase_append_sequence isSequence_reset]

/-- A highlighted line is the line with the code of each word's color directly in front of the word
and the reset sequence directly behind it, where the word has a color, and nothing else differs. So
erasing the sequences gives back the line if all codes are sequences and the line has no escape
character, and without colors the line stays as it is. -/
theorem line_puts_codes_around_words (palette : Palette) (text : String) :
    (∃ pieces tail, pieces.map Piece.token = words (tokenize text) ∧ Placed 0 pieces ∧
      text.toList = pieces.flatMap Piece.plain ++ tail ∧
      (line palette text).toList = pieces.flatMap (Piece.painted palette) ++ tail) ∧
    (escape ∉ text.toList →
      (∀ value ∈ [palette.keyword, palette.filename, palette.connector],
        code value = "" ∨ IsSequence (code value).toList) →
      erase (line palette text).toList = text.toList) ∧
    ((∀ value ∈ [palette.keyword, palette.filename, palette.connector], code value = "") →
      line palette text = text) := by
  obtain ⟨pieces, tail, htext, htokens, hplaced⟩ := exists_pieces_scan 0 text.toList
  have hline : (line palette text).toList = pieces.flatMap (Piece.painted palette) ++ tail := by
    rw [line, String.toList_ofList, words_tokenize, ← htokens]
    conv => lhs; rw [htext]
    exact paintTokens_of_placed palette hplaced tail
  refine ⟨⟨pieces, tail, ?_, hplaced, htext, hline⟩, ?_, ?_⟩
  · rw [words_tokenize, htokens]
  · intro hplain hcodes
    have hkinds : ∀ kind, codeFor palette kind = "" ∨
        IsSequence (codeFor palette kind).toList := by
      intro kind
      rcases codeFor_cases palette kind with hnone | ⟨value, hvalue, hcode⟩
      · exact Or.inl hnone
      · rw [hcode]
        exact hcodes value hvalue
    rw [htext] at hplain ⊢
    rw [hline, erase_painted hkinds hplain]
  · intro hcodes
    have hkinds : ∀ kind, codeFor palette kind = "" := by
      intro kind
      rcases codeFor_cases palette kind with hnone | ⟨value, hvalue, hcode⟩
      · exact hnone
      · rw [hcode, hcodes value hvalue]
    rw [← String.toList_inj, hline, painted_of_empty hkinds, htext]

/-- Two dotted words side by side, one of them with a letter of two bytes, and underlined. -/
theorem line_puts_codes_around_words_underlined :
    (line { filename := "ansi:\x1b[4m" } "copy ä.b.c.d to !" =
        "\x1b[1mcopy\x1b[0m \x1b[4mä.b\x1b[0m.\x1b[4mc.d\x1b[0m \x1b[33mto\x1b[0m !" ∧
      erase (line { filename := "ansi:\x1b[4m" } "copy ä.b.c.d to !").toList =
        "copy ä.b.c.d to !".toList) ∧
    line { keyword := "none", connector := " " } "copy file ä to b" = "copy file ä to b" := by
  have hbold : (code "bold").toList = escape :: '[' :: ['1'] ++ ['m'] := by decide +kernel
  have hline : (code "ansi:\x1b[4m").toList = escape :: '[' :: ['4'] ++ ['m'] := by decide +kernel
  have hyellow : (code "yellow").toList = escape :: '[' :: ['3', '3'] ++ ['m'] := by decide +kernel
  obtain ⟨-, hcolored, -⟩ := line_puts_codes_around_words { filename := "ansi:\x1b[4m" }
    "copy ä.b.c.d to !"
  obtain ⟨-, -, hplain⟩ := line_puts_codes_around_words { keyword := "none", connector := " " }
    "copy file ä to b"
  refine ⟨⟨by decide +kernel, hcolored (by decide +kernel) ?_⟩, hplain (by decide +kernel)⟩
  intro value hvalue
  simp only [List.mem_cons, List.not_mem_nil, or_false] at hvalue
  rcases hvalue with rfl | rfl | rfl
  · exact Or.inr ⟨['1'], List.forall_mem_singleton.mpr rfl, hbold⟩
  · exact Or.inr ⟨['4'], List.forall_mem_singleton.mpr rfl, hline⟩
  · refine Or.inr ⟨['3', '3'], ?_, hyellow⟩
    exact List.forall_mem_cons.mpr ⟨rfl, List.forall_mem_singleton.mpr rfl⟩

end Editor.Highlight

end FileShell

import FileShell.Proofs.Token.Word

/-!
# Which tokens a line has

`Cuts` says which tokens are the words of some characters, without scanning them: where words
stand, what they are made of, and that no word character is left out. Main statement:
`eq_tokenize_iff`, the tokens of a line are the only ones that cut it and end with its end
marker. It follows from one equation for each step of the scan, and an induction over the scan.
-/

namespace FileShell.Token

open Text

/-- The words among the characters `cs`, of which the first stands at byte `offset` of the
line. -/
structure Cuts (offset : Nat) (cs : List Char) (words : List Token) : Prop where
  /-- A text stands at its token's offset, and what follows there does not continue it. -/
  placed : ∀ t ∈ words, ∃ before after, cs = before ++ t.text.toList ++ after ∧
    t.offset = offset + byteLength before ∧ ¬ Continues t.text.toList after
  /-- The tokens stand one after the other and do not overlap. -/
  ordered : words.Pairwise fun s t => s.offset < t.offset ∧ s.stop ≤ t.offset
  /-- The texts are words. -/
  formed : ∀ t ∈ words, IsWord t.text.toList
  /-- Each word character lies inside a token. -/
  covered : ∀ before c after, cs = before ++ c :: after → isWordChar c = true →
    ∃ t ∈ words, t.offset ≤ offset + byteLength before ∧
      offset + byteLength before + c.utf8Size ≤ t.stop
  /-- The text alone decides the kind: keywords first, then connectors. -/
  classified : ∀ t ∈ words, t.kind =
    if t.text ∈ Shape.keywords then .keyword
    else if t.text ∈ Shape.connectors then .connector
    else .filename

theorem kindOf_eq (word : String) : kindOf word =
    if word ∈ Shape.keywords then .keyword
    else if word ∈ Shape.connectors then .connector
    else .filename := by
  have hkey : Shape.isKeyword word = true ↔ word ∈ Shape.keywords := by
    simp [Shape.isKeyword, Shape.keywords]
  by_cases h : word ∈ Shape.keywords
  · simp [kindOf, hkey.mpr h, h]
  · have hfalse : ¬ Shape.isKeyword word = true := fun hk => h (hkey.mp hk)
    rw [kindOf, if_neg hfalse, if_neg h]

theorem kindOf_ne_endOfInput (word : String) : kindOf word ≠ .endOfInput := by
  unfold kindOf
  split
  · simp
  · split <;> simp

/-- The token of a word at an offset. -/
def ofWord (offset : Nat) (word : List Char) : Token :=
  ⟨kindOf (String.ofList word), String.ofList word, offset⟩

@[simp] theorem toList_text_ofWord (offset : Nat) (word : List Char) :
    (ofWord offset word).text.toList = word := by
  simp [ofWord]

@[simp] theorem offset_ofWord (offset : Nat) (word : List Char) :
    (ofWord offset word).offset = offset := rfl

@[simp] theorem stop_ofWord (offset : Nat) (word : List Char) :
    (ofWord offset word).stop = offset + byteLength word := by
  simp [stop]

/-- A token with this text, offset and kind is the token of a word. -/
theorem eq_ofWord {t : Token} {word : List Char} (htext : t.text.toList = word)
    (hkind : t.kind = kindOf t.text) : t = ofWord t.offset word := by
  subst htext
  cases t with
  | mk kind text offset =>
    simp only at hkind
    simp [ofWord, hkind]

namespace Cuts

variable {offset : Nat} {c : Char} {cs word rest : List Char} {words tail : List Token}

theorem le_offset (h : Cuts offset cs words) {t : Token} (ht : t ∈ words) :
    offset ≤ t.offset := by
  obtain ⟨before, after, -, hoffset, -⟩ := h.placed t ht
  omega

theorem nil_iff : Cuts offset [] words ↔ words = [] := by
  constructor
  · intro h
    cases words with
    | nil => rfl
    | cons t words =>
      obtain ⟨before, after, hcs, -, -⟩ := h.placed t (by simp)
      obtain ⟨c, more, htext, -⟩ := (h.formed t (by simp)).startsWord
      simp [htext] at hcs
  · rintro rfl
    exact ⟨by simp, .nil, by simp, by simp, by simp⟩

/-- A character that belongs to no word moves the words behind it. -/
theorem cons_iff (hc : isWordChar c = false) :
    Cuts offset (c :: cs) words ↔ Cuts (offset + c.utf8Size) cs words := by
  constructor
  · intro h
    refine ⟨?_, h.ordered, h.formed, ?_, h.classified⟩
    · intro t ht
      obtain ⟨before, after, hcs, hoffset, hstop⟩ := h.placed t ht
      cases before with
      | nil =>
        -- The word would begin with the character.
        obtain ⟨d, more, htext, hd⟩ := (h.formed t ht).startsWord
        simp only [htext, List.nil_append, List.cons_append, List.cons.injEq] at hcs
        rw [← hcs.1, hc] at hd
        cases hd
      | cons d before =>
        simp only [List.cons_append, List.cons.injEq] at hcs
        obtain ⟨rfl, hcs⟩ := hcs
        rw [byteLength_cons] at hoffset
        exact ⟨before, after, hcs, by omega, hstop⟩
    · intro before d after hcs hd
      obtain ⟨t, ht, hle, hge⟩ := h.covered (c :: before) d after (by simp [hcs]) hd
      rw [byteLength_cons] at hle hge
      exact ⟨t, ht, by omega, by omega⟩
  · intro h
    refine ⟨?_, h.ordered, h.formed, ?_, h.classified⟩
    · intro t ht
      obtain ⟨before, after, hcs, hoffset, hstop⟩ := h.placed t ht
      exact ⟨c :: before, after, by simp [hcs], by simp [hoffset, Nat.add_assoc], hstop⟩
    · intro before d after hcs hd
      cases before with
      | nil =>
        simp only [List.nil_append, List.cons.injEq] at hcs
        rw [← hcs.1, hc] at hd
        cases hd
      | cons e before =>
        simp only [List.cons_append, List.cons.injEq] at hcs
        obtain ⟨rfl, hcs⟩ := hcs
        obtain ⟨t, ht, hle, hge⟩ := h.covered before d after hcs hd
        rw [byteLength_cons]
        exact ⟨t, ht, by omega, by omega⟩

/-- The first token is that of the word at the front. -/
theorem exists_eq_cons (h : Cuts offset (word ++ rest) words) (hword : IsWord word)
    (hrest : ¬ Continues word rest) : ∃ tail, words = ofWord offset word :: tail := by
  obtain ⟨c, more, hcons, hc⟩ := hword.startsWord
  obtain ⟨t, ht, hle, -⟩ := h.covered [] c (more ++ rest) (by simp [hcons]) hc
  obtain ⟨before, after, hcs, hoffset, hstop⟩ := h.placed t ht
  rw [byteLength_nil] at hle
  have hbefore : before = [] := byteLength_eq_zero (by omega)
  subst hbefore
  -- Both words are split off the front of the same characters.
  have hsplit := splitWord_append_eq hword hrest
  rw [hcs, List.nil_append, splitWord_append_eq (h.formed t ht) hstop] at hsplit
  have htext : t.text.toList = word := (Prod.mk.inj hsplit).1
  have hkind : t.kind = kindOf t.text := by rw [kindOf_eq]; exact h.classified t ht
  have hzero : t.offset = offset := by simpa using hoffset
  have heq := eq_ofWord htext hkind
  rw [hzero] at heq
  cases words with
  | nil => simp at ht
  | cons s words =>
    rcases List.mem_cons.mp ht with rfl | htail
    · exact ⟨words, by rw [← heq]⟩
    · have hlt := (List.rel_of_pairwise_cons h.ordered htail).1
      have hge := h.le_offset (t := s) (by simp)
      omega

/-- The tokens behind that of the first word are the words behind it. -/
theorem of_cons (h : Cuts offset (word ++ rest) (ofWord offset word :: tail)) :
    Cuts (offset + byteLength word) rest tail := by
  refine ⟨?_, h.ordered.of_cons, fun t ht => h.formed t (by simp [ht]), ?_,
    fun t ht => h.classified t (by simp [ht])⟩
  · intro t ht
    obtain ⟨before, after, hcs, hoffset, hstop⟩ := h.placed t (by simp [ht])
    have hlast := (List.rel_of_pairwise_cons h.ordered ht).2
    rw [stop_ofWord] at hlast
    rw [List.append_assoc] at hcs
    -- It stands behind the first word, since it does not overlap that.
    obtain ⟨mid, rfl, hmid⟩ := eq_append_of_byteLength_le hcs (by omega)
    rw [byteLength_append] at hoffset
    exact ⟨mid, after, by rw [hmid, List.append_assoc], by omega, hstop⟩
  · intro before c after hcs hc
    obtain ⟨t, ht, hle, hge⟩ := h.covered (word ++ before) c after (by simp [hcs]) hc
    rw [byteLength_append] at hle hge
    rcases List.mem_cons.mp ht with rfl | htail
    · -- The first word stops before the character.
      have hpos := Char.utf8Size_pos c
      rw [stop_ofWord] at hge
      omega
    · exact ⟨t, htail, by omega, by omega⟩

/-- A word in front of words that are cut already. -/
theorem cons (h : Cuts (offset + byteLength word) rest tail) (hword : IsWord word)
    (hrest : ¬ Continues word rest) :
    Cuts offset (word ++ rest) (ofWord offset word :: tail) := by
  have hpos : 0 < byteLength word := by
    obtain ⟨c, more, rfl, -⟩ := hword.startsWord
    have hc := Char.utf8Size_pos c
    rw [byteLength_cons]
    omega
  refine ⟨?_, ?_, ?_, ?_, ?_⟩
  · intro t ht
    rcases List.mem_cons.mp ht with rfl | htail
    · exact ⟨[], rest, by simp, by simp, by simpa using hrest⟩
    · obtain ⟨before, after, hcs, hoffset, hstop⟩ := h.placed t htail
      refine ⟨word ++ before, after, by simp [hcs], ?_, hstop⟩
      rw [byteLength_append]
      omega
  · refine List.Pairwise.cons ?_ h.ordered
    intro t ht
    have hge := h.le_offset ht
    rw [offset_ofWord, stop_ofWord]
    exact ⟨by omega, hge⟩
  · intro t ht
    rcases List.mem_cons.mp ht with rfl | htail
    · simpa using hword
    · exact h.formed t htail
  · intro before c after hcs hc
    rcases List.append_eq_append_iff.mp hcs with ⟨mid, rfl, hmid⟩ | ⟨mid, rfl, hmid⟩
    · obtain ⟨t, ht, hle, hge⟩ := h.covered mid c after hmid hc
      rw [byteLength_append]
      exact ⟨t, by simp [ht], by omega, by omega⟩
    · cases mid with
      | nil =>
        -- The character is the first one behind the word.
        obtain ⟨t, ht, hle, hge⟩ := h.covered [] c after (by simpa using hmid.symm) hc
        rw [byteLength_nil, byteLength_append, byteLength_nil] at hle hge
        exact ⟨t, by simp [ht], by omega, by omega⟩
      | cons d mid =>
        obtain ⟨rfl, -⟩ := List.cons.inj hmid
        refine ⟨ofWord offset (before ++ c :: mid), by simp, ?_, ?_⟩
        · rw [offset_ofWord]
          omega
        · rw [stop_ofWord, byteLength_append, byteLength_cons]
          omega
  · intro t ht
    rcases List.mem_cons.mp ht with rfl | htail
    · exact kindOf_eq _
    · exact h.classified t htail

/-- The words of characters that begin with a word are that word and those behind it. -/
theorem append_iff (hword : IsWord word) (hrest : ¬ Continues word rest) :
    Cuts offset (word ++ rest) words ↔
      ∃ tail, words = ofWord offset word :: tail ∧ Cuts (offset + byteLength word) rest tail := by
  constructor
  · intro h
    obtain ⟨tail, rfl⟩ := h.exists_eq_cons hword hrest
    exact ⟨tail, rfl, h.of_cons⟩
  · rintro ⟨tail, rfl, h⟩
    exact h.cons hword hrest

end Cuts

/-- The scan finds the words of the characters, and nothing else cuts them. -/
theorem scan_eq_iff (offset : Nat) (cs : List Char) (words : List Token) :
    scan offset cs = words ↔ Cuts offset cs words := by
  fun_induction scan offset cs generalizing words with
  | case1 offset => rw [Cuts.nil_iff]; exact eq_comm
  | case2 offset c cs hc word ih =>
    have hword : IsWord word.1 := isWord_splitWord ⟨c, cs, rfl, hc⟩
    have hrest : ¬ Continues word.1 word.2 := not_continues_splitWord (c :: cs)
    rw [← splitWord_append (c :: cs), Cuts.append_iff hword hrest]
    constructor
    · rintro rfl
      exact ⟨_, rfl, (ih _).mp rfl⟩
    · rintro ⟨tail, rfl, htail⟩
      rw [(ih tail).mpr htail]
      rfl
  | case3 offset c cs hc ih =>
    rw [Cuts.cons_iff (by simpa using hc)]
    exact ih words

section Scanned

variable {offset : Nat} {cs : List Char} {t : Token}

theorem cuts_scan (offset : Nat) (cs : List Char) : Cuts offset cs (scan offset cs) :=
  (scan_eq_iff offset cs _).mp rfl

theorem kind_eq_of_mem_scan (h : t ∈ scan offset cs) : t.kind = kindOf t.text := by
  rw [kindOf_eq]
  exact (cuts_scan offset cs).classified t h

theorem isEnd_of_mem_scan (h : t ∈ scan offset cs) : t.isEnd = false := by
  have hkind := kindOf_ne_endOfInput t.text
  rw [← kind_eq_of_mem_scan h] at hkind
  simpa [isEnd] using hkind

theorem words_tokenize (line : String) : words (tokenize line) = scan 0 line.toList := by
  have hscan : words (scan 0 line.toList) = scan 0 line.toList := by
    rw [words, List.filter_eq_self]
    intro t ht
    rw [isEnd_of_mem_scan ht]
    rfl
  rw [words] at hscan
  rw [words, tokenize, List.filter_append, hscan]
  exact List.append_nil _

end Scanned

/-- A list of tokens is that of a line exactly if it consists of the words that cut the line and
of the end marker at its byte length. -/
theorem eq_tokenize_iff (line : String) (tokens : List Token) :
    tokens = tokenize line ↔
      ∃ words, tokens = words ++ [endMarker (byteLength line.toList)] ∧
        (∀ t ∈ words, t.isEnd = false) ∧ Cuts 0 line.toList words := by
  constructor
  · rintro rfl
    have hcuts := (scan_eq_iff 0 line.toList _).mp rfl
    refine ⟨scan 0 line.toList, rfl, ?_, hcuts⟩
    intro t ht
    have hkind : t.kind = kindOf t.text := by rw [kindOf_eq]; exact hcuts.classified t ht
    simp [isEnd, hkind, kindOf_ne_endOfInput]
  · rintro ⟨words, rfl, -, hcuts⟩
    rw [tokenize, (scan_eq_iff 0 line.toList words).mpr hcuts]

example : tokenize "ä.b..c" =
    [⟨.filename, "ä.b", 0⟩, ⟨.filename, "c", 6⟩, ⟨.endOfInput, "", 7⟩] := by
  decide +kernel

end FileShell.Token

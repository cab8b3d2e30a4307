import FileShell.Proofs.Token.Tokenization

/-!
# Words with gaps between them

How a scan goes over the parts of a line: characters that belong to no word leave no token
(`scan_append_of_apart`), and a word that nothing continues becomes the next one
(`scan_append_word`). `behind` writes words with a gap in front of each, and `map_text_scan_behind`
reads them back.
-/

namespace FileShell.Token

open Text

/-- Characters that belong to no word. -/
def Apart (cs : List Char) : Prop :=
  ∀ c ∈ cs, isWordChar c = false

/-- Characters that keep two words apart. A single dot does not, since it can join them. -/
structure IsGap (cs : List Char) : Prop where
  apart : Apart cs
  ne_nil : cs ≠ []
  ne_dot : cs ≠ ['.']

-- By the characters of the list, never by all characters there are.
instance (cs : List Char) : Decidable (Apart cs) :=
  List.decidableBAll (fun c => isWordChar c = false) cs

instance (cs : List Char) : Decidable (IsRun cs) :=
  have := List.decidableBAll (fun c => isWordChar c = true) cs
  inferInstanceAs (Decidable (cs ≠ [] ∧ ∀ c ∈ cs, isWordChar c = true))

instance (cs : List Char) : Decidable (IsGap cs) :=
  decidable_of_iff (Apart cs ∧ cs ≠ [] ∧ cs ≠ ['.'])
    ⟨fun ⟨hapart, hnil, hdot⟩ => ⟨hapart, hnil, hdot⟩, fun h => ⟨h.apart, h.ne_nil, h.ne_dot⟩⟩

/-- Words, each one behind a gap. -/
def behind (gaps : List (List Char)) (words : List String) : List Char :=
  (List.zipWith (fun gap word => gap ++ word.toList) gaps words).flatten

@[simp] theorem behind_nil (words : List String) : behind [] words = [] := rfl

@[simp] theorem behind_cons (gap : List Char) (gaps : List (List Char)) (word : String)
    (words : List String) :
    behind (gap :: gaps) (word :: words) = gap ++ word.toList ++ behind gaps words := rfl

theorem Apart.not_startsWord {cs : List Char} (h : Apart cs) : ¬ StartsWord cs := by
  rintro ⟨c, rest, rfl, hc⟩
  rw [h c (by simp)] at hc
  cases hc

/-- Nothing continues a word at the end of a line. -/
theorem Apart.not_continues {cs : List Char} (h : Apart cs) (word : List Char) :
    ¬ Continues word cs := by
  rintro (hstart | ⟨-, tail, rfl, hstart⟩)
  · exact h.not_startsWord hstart
  · have htail : Apart tail := fun c hc => h c (by simp [hc])
    exact htail.not_startsWord hstart

/-- A gap ends the word in front of it, whatever follows. -/
theorem IsGap.not_continues {gap : List Char} (h : IsGap gap) (word rest : List Char) :
    ¬ Continues word (gap ++ rest) := by
  have hapart := h.apart
  cases gap with
  | nil => exact absurd rfl h.ne_nil
  | cons c gap =>
    rintro (⟨d, more, heq, hd⟩ | ⟨-, tail, heq, d, more, rfl, hd⟩)
    · have hc := hapart c (by simp)
      rw [(List.cons.inj heq).1, hd] at hc
      cases hc
    · -- The gap goes on behind the dot, so no word character stands there.
      obtain ⟨hdot, htail⟩ := List.cons.inj heq
      cases gap with
      | nil => exact h.ne_dot (by rw [hdot])
      | cons e gap =>
        have he := hapart e (by simp)
        rw [(List.cons.inj htail).1, hd] at he
        cases he

theorem scan_append_of_apart {gap : List Char} (h : Apart gap) (offset : Nat) (rest : List Char) :
    scan offset (gap ++ rest) = scan (offset + byteLength gap) rest := by
  induction gap generalizing offset with
  | nil => rfl
  | cons c gap ih =>
    have hc : ¬ isWordChar c = true := by simp [h c (by simp)]
    rw [List.cons_append, scan, dif_neg hc, ih (fun d hd => h d (by simp [hd])), byteLength_cons,
      Nat.add_assoc]

theorem scan_of_apart {cs : List Char} (h : Apart cs) (offset : Nat) : scan offset cs = [] := by
  have hscan := scan_append_of_apart h offset []
  rw [List.append_nil] at hscan
  rw [hscan, scan]

theorem scan_append_word {word rest : List Char} (hword : IsWord word)
    (hrest : ¬ Continues word rest) (offset : Nat) :
    scan offset (word ++ rest) = ofWord offset word :: scan (offset + byteLength word) rest := by
  rw [scan_eq_iff, Cuts.append_iff hword hrest]
  exact ⟨_, rfl, (scan_eq_iff _ _ _).mp rfl⟩

/-- Of words with gaps between them, exactly these words are read. -/
theorem map_text_scan_behind {words : List String} {gaps : List (List Char)} {trail : List Char}
    (hgaps : ∀ gap ∈ gaps, IsGap gap) (hlen : gaps.length = words.length) (htrail : Apart trail)
    {first : String} (hwords : ∀ word ∈ first :: words, IsWord word.toList) (offset : Nat) :
    (scan offset (first.toList ++ behind gaps words ++ trail)).map text = first :: words := by
  -- Induction on the words behind the first one: each is the first one of the rest.
  induction words generalizing first gaps offset with
  | nil =>
    have hnil : gaps = [] := List.eq_nil_of_length_eq_zero hlen
    have hfirst := hwords first (by simp)
    subst hnil
    rw [behind_nil, List.append_nil, scan_append_word hfirst (htrail.not_continues _),
      scan_of_apart htrail]
    simp [ofWord]
  | cons word words ih =>
    cases gaps with
    | nil => simp at hlen
    | cons gap gaps =>
      have hgap := hgaps gap (by simp)
      have hfirst := hwords first (by simp)
      have hrest := ih (fun g hg => hgaps g (List.mem_cons_of_mem _ hg)) (by simpa using hlen)
        (fun w hw => hwords w (List.mem_cons_of_mem _ hw))
      have hcs : first.toList ++ behind (gap :: gaps) (word :: words) ++ trail =
          first.toList ++ (gap ++ (word.toList ++ behind gaps words ++ trail)) := by
        simp
      rw [hcs, scan_append_word hfirst (hgap.not_continues _ _),
        scan_append_of_apart hgap.apart, List.map_cons, hrest]
      simp [ofWord]

end FileShell.Token

import FileShell.Text.Replace

/-!
# Several replacements in one pass

A text is read as fragments: patterns, found from left to right, and the characters between them
(`ReadAs`). Where no pattern begins another one there is one way to read it (`exists_readAs`,
`ReadAs.unique`), and a pass puts a replacement in the place of each pattern
(`ReadAs.replacePass_eq`). Main statement: `replacePass_replacePass`. If all patterns begin with a
mark that they have nowhere else, two passes come to one, provided that nothing of what the first
one puts in occurs in the patterns of the second one.
-/

namespace FileShell.Text

/-- A part of a text in which patterns are looked for. -/
inductive Fragment where
  | kept (c : Char)
  | found (pattern : List Char)
  deriving DecidableEq, Repr

/-- From left to right the characters are these fragments: a pattern where one begins, and a single
character elsewhere. -/
inductive ReadAs (patterns : List (List Char)) : List Char → List Fragment → Prop
  | nil : ReadAs patterns [] []
  | found {cs pattern rest : List Char} {fragments : List Fragment} : pattern ∈ patterns →
      cs = pattern ++ rest → ReadAs patterns rest fragments →
      ReadAs patterns cs (.found pattern :: fragments)
  | kept {c : Char} {rest : List Char} {fragments : List Fragment} :
      (∀ pattern ∈ patterns, ¬ pattern <+: c :: rest) → ReadAs patterns rest fragments →
      ReadAs patterns (c :: rest) (.kept c :: fragments)

/-- The fragments with a text in the place of each pattern. -/
def fill (value : List Char → List Char) : List Fragment → List Char
  | [] => []
  | .kept c :: fragments => c :: fill value fragments
  | .found pattern :: fragments => value pattern ++ fill value fragments

/-- What each pattern is replaced by. -/
def rulesOf (value : List Char → List Char) (patterns : List (List Char)) :
    List (List Char × List Char) :=
  patterns.map fun pattern => (pattern, value pattern)

/-- No pattern is empty, and none begins another one. -/
structure ToldApart (patterns : List (List Char)) : Prop where
  ne_nil : ∀ p ∈ patterns, p ≠ []
  eq_of_prefix : ∀ p ∈ patterns, ∀ q ∈ patterns, p <+: q → p = q

instance (patterns : List (List Char)) : Decidable (ToldApart patterns) :=
  decidable_of_iff
    ((∀ p ∈ patterns, p ≠ []) ∧ ∀ p ∈ patterns, ∀ q ∈ patterns, p <+: q → p = q)
    ⟨fun h => ⟨h.1, h.2⟩, fun h => ⟨h.1, h.2⟩⟩

/-- The pattern begins with the mark and has it nowhere else. -/
def Marked (mark : Char) (pattern : List Char) : Prop :=
  ∃ body, pattern = mark :: body ∧ mark ∉ body

variable {p q cs rest after : List Char} {c mark : Char} {patterns : List (List Char)}
  {value : List Char → List Char} {fragments others : List Fragment}

theorem afterPattern?_append (pattern rest : List Char) :
    afterPattern? pattern (pattern ++ rest) = some rest := by
  induction pattern with
  | nil => cases rest <;> rfl
  | cons p ps ih => rw [List.cons_append, afterPattern?, if_pos rfl, ih]

theorem afterPattern?_cons_of_ne {p c : Char} (h : p ≠ c) (ps cs : List Char) :
    afterPattern? (p :: ps) (c :: cs) = none := by
  rw [afterPattern?, if_neg h]

theorem afterPattern?_eq_some_iff : afterPattern? p cs = some after ↔ cs = p ++ after := by
  constructor
  · intro h
    induction p generalizing cs with
    | nil =>
      cases cs with
      | nil => exact Option.some.inj h
      | cons c cs => exact Option.some.inj h
    | cons d p ih =>
      cases cs with
      | nil => cases h
      | cons c cs =>
        rw [afterPattern?] at h
        split at h
        · next hd => rw [hd, List.cons_append, ih h]
        · cases h
  · rintro rfl
    exact afterPattern?_append p after

theorem afterPattern?_eq_none_iff : afterPattern? p cs = none ↔ ¬ p <+: cs := by
  rw [Option.eq_none_iff_forall_ne_some]
  constructor
  · rintro h ⟨after, rfl⟩
    exact h after (afterPattern?_append p after)
  · intro h after hsome
    exact h ⟨after, (afterPattern?_eq_some_iff.mp hsome).symm⟩

theorem readAs_found_iff (h : afterPattern? p cs = some rest) :
    ReadAs patterns cs (.found p :: fragments) ↔ p ∈ patterns ∧ ReadAs patterns rest fragments := by
  have hcs := afterPattern?_eq_some_iff.mp h
  constructor
  · rintro (_ | ⟨hp, hother, hlater⟩)
    exact ⟨hp, List.append_cancel_left (hcs.symm.trans hother) ▸ hlater⟩
  · rintro ⟨hp, hlater⟩
    exact .found hp hcs hlater

theorem readAs_kept_iff {d : Char} : ReadAs patterns (c :: rest) (.kept d :: fragments) ↔
    c = d ∧ (∀ p ∈ patterns, ¬ p <+: c :: rest) ∧ ReadAs patterns rest fragments := by
  constructor
  · rintro (_ | _ | ⟨hnone, hlater⟩)
    exact ⟨rfl, hnone, hlater⟩
  · rintro ⟨rfl, hnone, hlater⟩
    exact .kept hnone hlater

instance decidableReadAs (patterns : List (List Char)) :
    (cs : List Char) → (fragments : List Fragment) → Decidable (ReadAs patterns cs fragments)
  | [], [] => isTrue .nil
  | _ :: _, [] => isFalse nofun
  | [], .kept _ :: _ => isFalse nofun
  | _ :: rest, .kept _ :: fragments =>
    have := decidableReadAs patterns rest fragments
    decidable_of_iff _ readAs_kept_iff.symm
  | cs, .found p :: fragments =>
    match h : afterPattern? p cs with
    | some rest =>
      have := decidableReadAs patterns rest fragments
      decidable_of_iff _ (readAs_found_iff h).symm
    | none => isFalse <| by
      rintro (_ | ⟨-, hcs, -⟩)
      exact afterPattern?_eq_none_iff.mp h ⟨_, hcs.symm⟩

theorem firstPattern?_of_none (h : ∀ q ∈ patterns, ¬ q <+: cs) :
    firstPattern? (rulesOf value patterns) cs = none := by
  induction patterns with
  | nil => rfl
  | cons q patterns ih =>
    obtain ⟨hq, hrest⟩ := List.forall_mem_cons.mp h
    rw [rulesOf, List.map_cons, firstPattern?, afterPattern?_eq_none_iff.mpr hq]
    exact ih hrest

theorem firstPattern?_append (hp : p ∈ patterns) (h : ∀ q ∈ patterns, q <+: p ++ rest → q = p) :
    firstPattern? (rulesOf value patterns) (p ++ rest) = some (value p, rest) := by
  induction patterns with
  | nil => cases hp
  | cons q patterns ih =>
    obtain ⟨hq, hothers⟩ := List.forall_mem_cons.mp h
    rw [rulesOf, List.map_cons, firstPattern?]
    by_cases hqp : q = p
    · rw [hqp, afterPattern?_append]
    · rw [afterPattern?_eq_none_iff.mpr fun hbegin => hqp (hq hbegin)]
      exact ih (List.mem_of_ne_of_mem (Ne.symm hqp) hp) hothers

namespace ToldApart

/-- At the front of a text there is one pattern at most. -/
theorem eq_of_prefix_append (h : ToldApart patterns) (hp : p ∈ patterns) (hq : q ∈ patterns)
    (hbegin : q <+: p ++ rest) : q = p := by
  rcases List.prefix_or_prefix_of_prefix hbegin (List.prefix_append p rest) with hqp | hpq
  · exact h.eq_of_prefix q hq p hp hqp
  · exact (h.eq_of_prefix p hp q hq hpq).symm

theorem of_subset {others : List (List Char)} (h : ToldApart patterns) (hsub : others ⊆ patterns) :
    ToldApart others :=
  ⟨fun p hp => h.ne_nil p (hsub hp),
    fun p hp q hq => h.eq_of_prefix p (hsub hp) q (hsub hq)⟩

end ToldApart

theorem replacePass_cons_of_none (h : ∀ q ∈ patterns, ¬ q <+: c :: rest) :
    replacePass (rulesOf value patterns) (c :: rest) =
      c :: replacePass (rulesOf value patterns) rest := by
  rw [replacePass, firstPattern?_of_none h]

theorem replacePass_append (h : ToldApart patterns) (hp : p ∈ patterns) (rest : List Char) :
    replacePass (rulesOf value patterns) (p ++ rest) =
      value p ++ replacePass (rulesOf value patterns) rest := by
  have hfirst : firstPattern? (rulesOf value patterns) (p ++ rest) = some (value p, rest) :=
    firstPattern?_append hp fun q hq => h.eq_of_prefix_append hp hq
  obtain ⟨c, body, rfl⟩ := List.exists_cons_of_ne_nil (h.ne_nil p hp)
  have hlt : rest.length < (c :: (body ++ rest)).length := by
    rw [List.length_cons, List.length_append]
    omega
  rw [List.cons_append] at hfirst ⊢
  rw [replacePass, hfirst]
  exact if_pos hlt

section Reading

variable (h : ToldApart patterns)

include h

/-- A text can be read in search of any patterns. -/
theorem exists_readAs (cs : List Char) : ∃ fragments, ReadAs patterns cs fragments := by
  induction hlength : cs.length using Nat.strongRecOn generalizing cs with
  | ind n ih =>
    subst hlength
    cases cs with
    | nil => exact ⟨[], .nil⟩
    | cons c rest =>
      by_cases hbegins : ∃ p ∈ patterns, p <+: c :: rest
      · obtain ⟨p, hp, after, hcs⟩ := hbegins
        have hpos := List.length_pos_iff.mpr (h.ne_nil p hp)
        have hlt : after.length < (c :: rest).length := by
          rw [← hcs, List.length_append]
          omega
        obtain ⟨fragments, hread⟩ := ih _ hlt after rfl
        exact ⟨.found p :: fragments, .found hp hcs.symm hread⟩
      · obtain ⟨fragments, hread⟩ := ih _ (Nat.lt_succ_self _) rest rfl
        exact ⟨.kept c :: fragments, .kept (fun p hp hbegin => hbegins ⟨p, hp, hbegin⟩) hread⟩

theorem ReadAs.of_append (hp : p ∈ patterns) (hread : ReadAs patterns (p ++ rest) fragments) :
    ∃ later, fragments = .found p :: later ∧ ReadAs patterns rest later := by
  generalize hcs : p ++ rest = cs at hread
  cases hread with
  | nil => exact absurd (List.append_eq_nil_iff.mp hcs).1 (h.ne_nil p hp)
  | @found _ q _ later hq heq hlater =>
    rw [← hcs] at heq
    obtain rfl : q = p := h.eq_of_prefix_append hp hq ⟨_, heq.symm⟩
    exact ⟨later, rfl, List.append_cancel_left heq ▸ hlater⟩
  | kept hnone => exact absurd ⟨rest, hcs⟩ (hnone p hp)

omit h in
theorem ReadAs.of_cons (hnone : ∀ p ∈ patterns, ¬ p <+: c :: rest)
    (hread : ReadAs patterns (c :: rest) fragments) :
    ∃ later, fragments = .kept c :: later ∧ ReadAs patterns rest later := by
  cases hread with
  | found hp hcs => exact absurd ⟨_, hcs.symm⟩ (hnone _ hp)
  | kept _ hlater => exact ⟨_, rfl, hlater⟩

/-- There is one way to read a text. -/
theorem ReadAs.unique (hread : ReadAs patterns cs fragments) (hother : ReadAs patterns cs others) :
    others = fragments := by
  induction hread generalizing others with
  | nil =>
    cases hother with
    | nil => rfl
    | found hp hcs => exact absurd (List.append_eq_nil_iff.mp hcs.symm).1 (h.ne_nil _ hp)
  | found hp hcs _ ih =>
    subst hcs
    obtain ⟨later, rfl, hlater⟩ := hother.of_append h hp
    rw [ih hlater]
  | kept hnone _ ih =>
    obtain ⟨later, rfl, hlater⟩ := hother.of_cons hnone
    rw [ih hlater]

/-- What a text is read as in search of patterns is determined. -/
theorem exists_readAs_iff (cs : List Char) :
    ∃ fragments, ∀ others, ReadAs patterns cs others ↔ others = fragments := by
  obtain ⟨fragments, hread⟩ := exists_readAs h cs
  refine ⟨fragments, fun others => ⟨hread.unique h, ?_⟩⟩
  rintro rfl
  exact hread

/-- A pass puts the replacements in the place of the patterns and keeps what is between them. -/
theorem ReadAs.replacePass_eq (hread : ReadAs patterns cs fragments) :
    replacePass (rulesOf value patterns) cs = fill value fragments := by
  induction hread with
  | nil => rw [replacePass, fill]
  | found hp hcs _ ih => rw [hcs, replacePass_append h hp, ih, fill]
  | kept hnone _ ih => rw [replacePass_cons_of_none hnone, ih, fill]

end Reading

theorem replacePass_append_of_notMem {xs : List Char} (hmarks : ∀ q ∈ patterns, Marked mark q)
    (hxs : mark ∉ xs) (rest : List Char) :
    replacePass (rulesOf value patterns) (xs ++ rest) =
      xs ++ replacePass (rulesOf value patterns) rest := by
  induction xs with
  | nil => rfl
  | cons c xs ih =>
    rw [List.mem_cons, not_or] at hxs
    have hnone : ∀ q ∈ patterns, ¬ q <+: c :: (xs ++ rest) := by
      intro q hq hbegin
      obtain ⟨body, rfl, -⟩ := hmarks q hq
      exact hxs.1 (List.cons_prefix_cons.mp hbegin).1
    rw [List.cons_append, replacePass_cons_of_none hnone, ih hxs.2, List.cons_append]

/-- What has nothing in common with the replacement begins the text that a pass leaves only if it
began the text before. -/
theorem prefix_of_prefix_replacePass {word : List Char} (hvalue : value p ≠ [])
    (hword : ∀ c ∈ value p, c ∉ word) (hpattern : p ≠ [])
    (h : word <+: replacePass (rulesOf value [p]) cs) : word <+: cs := by
  have happart : ToldApart [p] :=
    ⟨List.forall_mem_singleton.mpr hpattern, by simp⟩
  induction word generalizing cs with
  | nil => exact List.nil_prefix
  | cons d word ih =>
    cases cs with
    | nil =>
      rw [replacePass] at h
      exact absurd h (by simp)
    | cons c rest =>
      by_cases hbegins : p <+: c :: rest
      · -- The replacement stands at the front, and its first character is not in the word.
        obtain ⟨after, hcs⟩ := hbegins
        obtain ⟨e, more, hfirst⟩ := List.exists_cons_of_ne_nil hvalue
        rw [← hcs, replacePass_append happart List.mem_cons_self, hfirst, List.cons_append] at h
        have heq := (List.cons_prefix_cons.mp h).1
        exact absurd List.mem_cons_self (heq ▸ hword e (hfirst ▸ List.mem_cons_self))
      · rw [replacePass_cons_of_none (by simpa using hbegins)] at h
        obtain ⟨rfl, hrest⟩ := List.cons_prefix_cons.mp h
        have hwordRest : ∀ c ∈ value p, c ∉ word := fun c hc hmem =>
          hword c hc (List.mem_cons_of_mem _ hmem)
        exact (List.prefix_cons_inj d).mpr (ih hwordRest hrest)

/-- Two passes come to one if the second one finds nothing in what the first one puts in, and
nothing around it that was not there before. -/
theorem replacePass_replacePass (h : ToldApart (p :: patterns))
    (hmarks : ∀ q ∈ p :: patterns, Marked mark q) (hvalue : value p ≠ [])
    (hmark : mark ∉ value p) (hclean : ∀ q ∈ patterns, ∀ c ∈ value p, c ∉ q) (cs : List Char) :
    replacePass (rulesOf value patterns) (replacePass (rulesOf value [p]) cs) =
      replacePass (rulesOf value (p :: patterns)) cs := by
  have hone : ToldApart [p] := h.of_subset (by simp)
  have hothers : ToldApart patterns := h.of_subset (List.subset_cons_self p patterns)
  obtain ⟨hp, hmarked⟩ := List.forall_mem_cons.mp hmarks
  obtain ⟨fragments, hread⟩ := exists_readAs h cs
  induction hread with
  | nil => rw [replacePass, replacePass, replacePass]
  | @found _ q rest _ hq hcs _ ih =>
    rw [hcs, replacePass_append h hq]
    by_cases hqp : q = p
    · subst hqp
      rw [replacePass_append hone List.mem_cons_self, replacePass_append_of_notMem hmarked hmark,
        ih]
    · -- The first pass leaves this pattern as it is, and the second one finds it.
      have hq := List.mem_of_ne_of_mem hqp hq
      have hnone : ∀ x ∈ [p], ¬ x <+: q ++ rest := by
        rw [List.forall_mem_singleton]
        intro hbegin
        exact hqp (h.eq_of_prefix_append (List.mem_cons_of_mem p hq) List.mem_cons_self
          hbegin).symm
      obtain ⟨body, hbody, hinside⟩ := hmarked q hq
      have hfirst : replacePass (rulesOf value [p]) (q ++ rest) =
          q ++ replacePass (rulesOf value [p]) rest := by
        rw [hbody, List.cons_append] at hnone ⊢
        rw [replacePass_cons_of_none hnone,
          replacePass_append_of_notMem (List.forall_mem_singleton.mpr hp) hinside,
          List.cons_append]
      rw [hfirst, replacePass_append hothers hq, ih]
  | @kept c rest _ hnone _ ih =>
    obtain ⟨hnotP, hnotOthers⟩ := List.forall_mem_cons.mp hnone
    have hstill : ∀ q ∈ patterns, ¬ q <+: c :: replacePass (rulesOf value [p]) rest := by
      intro q hq hbegin
      obtain ⟨body, rfl, -⟩ := hmarked q hq
      obtain ⟨rfl, hbody⟩ := List.cons_prefix_cons.mp hbegin
      have hapart : ∀ c ∈ value p, c ∉ body := fun c hc hmem =>
        hclean _ hq c hc (List.mem_cons_of_mem _ hmem)
      have hbefore :=
        prefix_of_prefix_replacePass hvalue hapart (h.ne_nil p List.mem_cons_self) hbody
      exact hnotOthers _ hq ((List.prefix_cons_inj _).mpr hbefore)
    rw [replacePass_cons_of_none hnone,
      replacePass_cons_of_none (List.forall_mem_singleton.mpr hnotP),
      replacePass_cons_of_none hstill, ih]

end FileShell.Text

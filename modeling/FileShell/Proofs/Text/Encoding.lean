import FileShell.Text.Encoding

/-!
# Texts and their bytes

The reader of bytes and the encoding of texts are made without regard to each other. `Finishes` says
which bytes finish a character that is under way, and `Spells` which ones are a whole character.
These are the bytes that the encoding has for it (`spells_encodeChar`, `Spells.encodeChar_eq`), and
the reader gives the character for them (`Spells.piecesFrom`) and accepts nothing else
(`exists_spells`). Main statement: `decode?_eq_some_iff`.
-/

namespace FileShell.Text

/-- The bytes that finish a character under way, and the character. -/
inductive Finishes : Unfinished → Bytes → Char → Prop
  | last {low high code : Nat} {b : UInt8} : low ≤ b.toNat → b.toNat ≤ high →
      Finishes (.character 0 low high code) [b] (Char.ofNat (code * 64 + (b.toNat - 0x80)))
  | more {missing low high code : Nat} {b : UInt8} {bytes : Bytes} {c : Char} :
      low ≤ b.toNat → b.toNat ≤ high →
      Finishes (.character missing 0x80 0xBF (code * 64 + (b.toNat - 0x80))) bytes c →
      Finishes (.character (missing + 1) low high code) (b :: bytes) c

/-- The bytes of a character. -/
inductive Spells : Bytes → Char → Prop
  | single {b : UInt8} : b.toNat < 0x80 → Spells [b] (Char.ofNat b.toNat)
  | several {b : UInt8} {unfinished : Unfinished} {bytes : Bytes} {c : Char} :
      firstByte b.toNat = ([], unfinished) → Finishes unfinished bytes c → Spells (b :: bytes) c

section FirstByte

variable {n : Nat}

theorem firstByte_one (h : n < 0x80) : firstByte n = ([some (Char.ofNat n)], .nothing) := by
  rw [firstByte, if_pos h]

theorem firstByte_two (hlow : 0xC2 ≤ n) (hhigh : n < 0xE0) :
    firstByte n = ([], .character 0 0x80 0xBF (n - 0xC0)) := by
  rw [firstByte, if_neg (by omega), if_neg (by omega), if_pos hhigh]

theorem firstByte_three (hlow : 0xE0 ≤ n) (hhigh : n < 0xF0) :
    firstByte n = ([], .character 1 (if n = 0xE0 then 0xA0 else 0x80)
      (if n = 0xED then 0x9F else 0xBF) (n - 0xE0)) := by
  by_cases hfirst : n = 0xE0
  · subst hfirst
    rfl
  by_cases hsurrogate : n = 0xED
  · subst hsurrogate
    rfl
  rw [firstByte, if_neg (by omega), if_neg (by omega), if_neg (by omega), if_neg hfirst,
    if_neg hsurrogate, if_pos hhigh, if_neg hfirst, if_neg hsurrogate]

theorem firstByte_four (hlow : 0xF0 ≤ n) (hhigh : n < 0xF5) :
    firstByte n = ([], .character 2 (if n = 0xF0 then 0x90 else 0x80)
      (if n = 0xF4 then 0x8F else 0xBF) (n - 0xF0)) := by
  by_cases hfirst : n = 0xF0
  · subst hfirst
    rfl
  by_cases hlast : n = 0xF4
  · subst hlast
    rfl
  have hmiddle : n < 0xF4 := by omega
  rw [firstByte, if_neg (by omega), if_neg (by omega), if_neg (by omega), if_neg (by omega),
    if_neg (by omega), if_neg (by omega), if_neg hfirst, if_pos hmiddle, if_neg hfirst,
    if_neg hlast]

theorem firstByte_none (h : 0x80 ≤ n ∧ n < 0xC2 ∨ 0xF5 ≤ n) :
    firstByte n = ([none], .nothing) := by
  rcases h with ⟨hlow, hhigh⟩ | hlow
  · rw [firstByte, if_neg (by omega), if_pos hhigh]
  · rw [firstByte, if_neg (by omega), if_neg (by omega), if_neg (by omega), if_neg (by omega),
      if_neg (by omega), if_neg (by omega), if_neg (by omega), if_neg (by omega),
      if_neg (by omega)]

/-- Every byte is of one of these kinds. -/
theorem firstByte_ranges (n : Nat) : n < 0x80 ∨ (0x80 ≤ n ∧ n < 0xC2 ∨ 0xF5 ≤ n) ∨
    0xC2 ≤ n ∧ n < 0xE0 ∨ 0xE0 ≤ n ∧ n < 0xF0 ∨ 0xF0 ≤ n ∧ n < 0xF5 := by
  omega

end FirstByte

section Reader

variable {unfinished : Unfinished} {front rest : Bytes} {c : Char} {cs : List Char} {b : UInt8}

theorem Finishes.piecesFrom (h : Finishes unfinished front c) (rest : Bytes) :
    piecesFrom unfinished (front ++ rest) = some c :: piecesFrom .nothing rest := by
  induction h with
  | last hlow hhigh =>
    rw [List.singleton_append, Text.piecesFrom, nextByte, if_pos ⟨hlow, hhigh⟩]
    rfl
  | more hlow hhigh _ ih =>
    rw [List.cons_append, Text.piecesFrom, nextByte, if_pos ⟨hlow, hhigh⟩]
    exact ih

theorem Spells.piecesFrom (h : Spells front c) (rest : Bytes) :
    piecesFrom .nothing (front ++ rest) = some c :: piecesFrom .nothing rest := by
  cases h with
  | single hb =>
    rw [List.singleton_append, Text.piecesFrom, nextByte, firstByte, if_pos hb]
    rfl
  | several hfirst hfinishes =>
    rw [List.cons_append, Text.piecesFrom, nextByte, hfirst]
    exact hfinishes.piecesFrom rest

/-- If nothing is malformed, a character under way is finished by the bytes at the front. -/
theorem exists_finishes {missing low high code : Nat} {bytes : Bytes}
    (h : allPresent (piecesFrom (.character missing low high code) bytes) = some cs) :
    ∃ front rest c later, bytes = front ++ rest ∧
      Finishes (.character missing low high code) front c ∧ cs = c :: later ∧
      allPresent (piecesFrom .nothing rest) = some later := by
  induction missing generalizing low high code bytes with
  | zero =>
    cases bytes with
    | nil => cases h
    | cons b bytes =>
      rw [piecesFrom, nextByte] at h
      by_cases hb : low ≤ b.toNat ∧ b.toNat ≤ high
      · rw [if_pos hb] at h
        obtain ⟨later, hlater, rfl⟩ := Option.map_eq_some_iff.mp h
        exact ⟨[b], bytes, _, later, rfl, .last hb.1 hb.2, rfl, hlater⟩
      · rw [if_neg hb] at h
        cases h
  | succ missing ih =>
    cases bytes with
    | nil => cases h
    | cons b bytes =>
      rw [piecesFrom, nextByte] at h
      by_cases hb : low ≤ b.toNat ∧ b.toNat ≤ high
      · rw [if_pos hb] at h
        obtain ⟨front, rest, c, later, rfl, hfinishes, hcs, hrest⟩ := ih h
        exact ⟨b :: front, rest, c, later, rfl, .more hb.1 hb.2 hfinishes, hcs, hrest⟩
      · rw [if_neg hb] at h
        cases h

/-- If nothing is malformed, a character is spelled at the front. -/
theorem exists_spells {bytes : Bytes} (hne : bytes ≠ [])
    (h : allPresent (piecesFrom .nothing bytes) = some cs) :
    ∃ front rest c later, bytes = front ++ rest ∧ Spells front c ∧ cs = c :: later ∧
      allPresent (piecesFrom .nothing rest) = some later := by
  obtain ⟨b, bytes, rfl⟩ := List.exists_cons_of_ne_nil hne
  rw [piecesFrom, nextByte] at h
  have hseveral : ∀ {missing low high code : Nat},
      firstByte b.toNat = ([], .character missing low high code) →
      ∃ front rest c later, b :: bytes = front ++ rest ∧ Spells front c ∧ cs = c :: later ∧
        allPresent (piecesFrom .nothing rest) = some later := by
    intro missing low high code hfirst
    rw [hfirst] at h
    obtain ⟨front, rest, c, later, rfl, hfinishes, hcs, hrest⟩ := exists_finishes h
    exact ⟨b :: front, rest, c, later, rfl, .several hfirst hfinishes, hcs, hrest⟩
  rcases firstByte_ranges b.toNat with hone | hnone | ⟨hlow, hhigh⟩ | ⟨hlow, hhigh⟩ | ⟨hlow, hhigh⟩
  · rw [firstByte_one hone] at h
    obtain ⟨later, hlater, rfl⟩ := Option.map_eq_some_iff.mp h
    exact ⟨[b], bytes, _, later, rfl, .single hone, rfl, hlater⟩
  · rw [firstByte_none hnone] at h
    cases h
  · exact hseveral (firstByte_two hlow hhigh)
  · exact hseveral (firstByte_three hlow hhigh)
  · exact hseveral (firstByte_four hlow hhigh)

end Reader

section Arithmetic

variable {n : Nat} {b : UInt8} {bytes : Bytes} {c : Char}

theorem toNat_ofNat (h : n.isValidChar) : (Char.ofNat n).toNat = n := by
  rw [Char.ofNat, dif_pos h]
  rfl

theorem ofNat_eq_of_eq_toNat (h : n = b.toNat) : UInt8.ofNat n = b := by
  rw [h, UInt8.ofNat_toNat]

theorem toNat_ofNat_of_lt (h : n < 0x100) : (UInt8.ofNat n).toNat = n := by
  rw [UInt8.toNat_ofNat']
  exact Nat.mod_eq_of_lt h

theorem encodeChar_ofNat (h : n.isValidChar) : String.utf8EncodeChar (Char.ofNat n) =
    if n ≤ 0x7F then [UInt8.ofNat n]
    else if n ≤ 0x7FF then [UInt8.ofNat (n / 64 % 32 + 0xC0), UInt8.ofNat (n % 64 + 0x80)]
    else if n ≤ 0xFFFF then
      [UInt8.ofNat (n / 4096 % 16 + 0xE0), UInt8.ofNat (n / 64 % 64 + 0x80),
        UInt8.ofNat (n % 64 + 0x80)]
    else
      [UInt8.ofNat (n / 262144 % 8 + 0xF0), UInt8.ofNat (n / 4096 % 64 + 0x80),
        UInt8.ofNat (n / 64 % 64 + 0x80), UInt8.ofNat (n % 64 + 0x80)] := by
  rw [String.utf8EncodeChar, Char.toNat_val, toNat_ofNat h]

/-- The bytes that spell a character are those that it is encoded with. -/
theorem Spells.encodeChar_eq (h : Spells bytes c) : String.utf8EncodeChar c = bytes := by
  cases h with
  | @single b hb => rw [encodeChar_ofNat (by omega), if_pos (by omega), UInt8.ofNat_toNat]
  | @several b unfinished bytes c hfirst hfinishes =>
    rcases firstByte_ranges b.toNat with
      hone | hnone | ⟨hlow, hhigh⟩ | ⟨hlow, hhigh⟩ | ⟨hlow, hhigh⟩
    · cases (firstByte_one hone).symm.trans hfirst
    · cases (firstByte_none hnone).symm.trans hfirst
    · cases (firstByte_two hlow hhigh).symm.trans hfirst
      obtain @⟨_, _, _, b₁, hlow₁, hhigh₁⟩ := hfinishes
      rw [encodeChar_ofNat (by omega), if_neg (by omega), if_pos (by omega),
        @ofNat_eq_of_eq_toNat _ b (by omega), @ofNat_eq_of_eq_toNat _ b₁ (by omega)]
    · cases (firstByte_three hlow hhigh).symm.trans hfirst
      obtain _ | @⟨_, _, _, _, b₁, _, _, hlow₁, hhigh₁, hfinishes⟩ := hfinishes
      obtain @⟨_, _, _, b₂, hlow₂, hhigh₂⟩ := hfinishes
      -- The bounds on the second byte keep the number out of the lower range and the surrogates.
      have hlong : 0x80 ≤ b₁.toNat ∧ (b.toNat = 0xE0 → 0xA0 ≤ b₁.toNat) := by
        split at hlow₁ <;> omega
      have hvalid : b₁.toNat ≤ 0xBF ∧ (b.toNat = 0xED → b₁.toNat ≤ 0x9F) := by
        split at hhigh₁ <;> omega
      rw [encodeChar_ofNat (by omega), if_neg (by omega), if_neg (by omega), if_pos (by omega),
        @ofNat_eq_of_eq_toNat _ b (by omega), @ofNat_eq_of_eq_toNat _ b₁ (by omega),
        @ofNat_eq_of_eq_toNat _ b₂ (by omega)]
    · cases (firstByte_four hlow hhigh).symm.trans hfirst
      obtain _ | @⟨_, _, _, _, b₁, _, _, hlow₁, hhigh₁, hfinishes⟩ := hfinishes
      obtain _ | @⟨_, _, _, _, b₂, _, _, hlow₂, hhigh₂, hfinishes⟩ := hfinishes
      obtain @⟨_, _, _, b₃, hlow₃, hhigh₃⟩ := hfinishes
      have hlong : 0x80 ≤ b₁.toNat ∧ (b.toNat = 0xF0 → 0x90 ≤ b₁.toNat) := by
        split at hlow₁ <;> omega
      have hvalid : b₁.toNat ≤ 0xBF ∧ (b.toNat = 0xF4 → b₁.toNat ≤ 0x8F) := by
        split at hhigh₁ <;> omega
      rw [encodeChar_ofNat (by omega), if_neg (by omega), if_neg (by omega), if_neg (by omega),
        @ofNat_eq_of_eq_toNat _ b (by omega), @ofNat_eq_of_eq_toNat _ b₁ (by omega),
        @ofNat_eq_of_eq_toNat _ b₂ (by omega), @ofNat_eq_of_eq_toNat _ b₃ (by omega)]

/-- Every character is spelled by its encoding. -/
theorem spells_encodeChar (c : Char) : Spells (String.utf8EncodeChar c) c := by
  have hvalid : c.toNat.isValidChar := c.valid
  have hfrom : ∀ {bytes k}, Spells bytes (Char.ofNat k) → k = c.toNat → Spells bytes c := by
    rintro bytes k hspells rfl
    rwa [Char.ofNat_toNat] at hspells
  have hbytes := encodeChar_ofNat hvalid
  rw [Char.ofNat_toNat] at hbytes
  rw [hbytes]
  split
  · have h₀ := @toNat_ofNat_of_lt c.toNat (by omega)
    exact hfrom (.single (by omega)) h₀
  split
  · have h₀ := @toNat_ofNat_of_lt (c.toNat / 64 % 32 + 0xC0) (by omega)
    have h₁ := @toNat_ofNat_of_lt (c.toNat % 64 + 0x80) (by omega)
    exact hfrom (.several (firstByte_two (by omega) (by omega)) (.last (by omega) (by omega)))
      (by omega)
  split
  · have h₀ := @toNat_ofNat_of_lt (c.toNat / 4096 % 16 + 0xE0) (by omega)
    have h₁ := @toNat_ofNat_of_lt (c.toNat / 64 % 64 + 0x80) (by omega)
    have h₂ := @toNat_ofNat_of_lt (c.toNat % 64 + 0x80) (by omega)
    refine hfrom (.several (firstByte_three (by omega) (by omega)) (.more ?_ ?_
      (.last (by omega) (by omega)))) (by omega)
    · split <;> omega
    · split <;> omega
  · have h₀ := @toNat_ofNat_of_lt (c.toNat / 262144 % 8 + 0xF0) (by omega)
    have h₁ := @toNat_ofNat_of_lt (c.toNat / 4096 % 64 + 0x80) (by omega)
    have h₂ := @toNat_ofNat_of_lt (c.toNat / 64 % 64 + 0x80) (by omega)
    have h₃ := @toNat_ofNat_of_lt (c.toNat % 64 + 0x80) (by omega)
    refine hfrom (.several (firstByte_four (by omega) (by omega)) (.more ?_ ?_
      (.more (by omega) (by omega) (.last (by omega) (by omega))))) (by omega)
    · split <;> omega
    · split <;> omega

end Arithmetic

theorem allPresent_piecesFrom_iff {bytes : Bytes} {cs : List Char} :
    allPresent (piecesFrom .nothing bytes) = some cs ↔
      cs.flatMap String.utf8EncodeChar = bytes := by
  constructor
  · intro h
    induction cs generalizing bytes with
    | nil =>
      by_cases hbytes : bytes = []
      · exact hbytes.symm
      · obtain ⟨_, _, _, _, -, -, hcs, -⟩ := exists_spells hbytes h
        cases hcs
    | cons c cs ih =>
      by_cases hbytes : bytes = []
      · subst hbytes
        cases h
      · obtain ⟨front, rest, _, _, rfl, hspells, hcs, hrest⟩ := exists_spells hbytes h
        cases hcs
        rw [List.flatMap_cons, hspells.encodeChar_eq, ih hrest]
  · rintro rfl
    induction cs with
    | nil => rfl
    | cons c cs ih =>
      rw [List.flatMap_cons, (spells_encodeChar c).piecesFrom, allPresent, ih]
      rfl

/-- Bytes are well-formed exactly if they are the encoding of a text, and then they are read as
that text. -/
theorem decode?_eq_some_iff {bytes : Bytes} {s : String} :
    decode? bytes = some s ↔ encode s = bytes := by
  rw [decode?, encode, ← allPresent_piecesFrom_iff, Option.map_eq_some_iff]
  constructor
  · rintro ⟨cs, hcs, rfl⟩
    rw [hcs, String.toList_ofList]
  · intro h
    exact ⟨s.toList, h, String.ofList_toList⟩

theorem decode?_eq_none_iff {bytes : Bytes} :
    decode? bytes = none ↔ ∀ s, encode s ≠ bytes := by
  rw [Option.eq_none_iff_forall_ne_some]
  exact forall_congr' fun s => not_congr decode?_eq_some_iff

end FileShell.Text

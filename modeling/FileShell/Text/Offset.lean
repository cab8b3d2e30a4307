/-!
# Byte offsets in a text

Positions in a line are counted in the bytes of its UTF-8 form, while the line itself is a list of
characters. `byteLength` measures, and `cutAt` splits a line at an offset. An offset is a boundary
of the line exactly when `cutAt` succeeds: it fails inside a character and past the end.
-/

namespace FileShell.Text

/-- The number of bytes that the characters occupy in UTF-8. -/
def byteLength : List Char → Nat
  | [] => 0
  | c :: cs => c.utf8Size + byteLength cs

/-- The characters before and from a byte offset; none when the offset is no boundary. -/
def cutAt : List Char → Nat → Option (List Char × List Char)
  | cs, 0 => some ([], cs)
  | [], _ + 1 => none
  | c :: cs, n + 1 =>
    if c.utf8Size ≤ n + 1 then
      (cutAt cs (n + 1 - c.utf8Size)).map fun (before, after) => (c :: before, after)
    else none

@[simp] theorem byteLength_nil : byteLength [] = 0 := rfl

@[simp] theorem byteLength_cons (c : Char) (cs : List Char) :
    byteLength (c :: cs) = c.utf8Size + byteLength cs := rfl

@[simp] theorem byteLength_append (xs ys : List Char) :
    byteLength (xs ++ ys) = byteLength xs + byteLength ys := by
  induction xs with
  | nil => simp
  | cons c xs ih => simp [ih, Nat.add_assoc]

theorem byteLength_eq_zero {cs : List Char} (h : byteLength cs = 0) : cs = [] := by
  cases cs with
  | nil => rfl
  | cons c cs =>
    have hpos := Char.utf8Size_pos c
    rw [byteLength_cons] at h
    omega

/-- Of two beginnings of one text, the one with no more bytes is a beginning of the other. -/
theorem eq_append_of_byteLength_le {xs ys before after : List Char}
    (h : xs ++ ys = before ++ after) (hle : byteLength xs ≤ byteLength before) :
    ∃ mid, before = xs ++ mid ∧ ys = mid ++ after := by
  rcases List.append_eq_append_iff.mp h with ⟨mid, hbefore, hys⟩ | ⟨mid, hxs, hafter⟩
  · exact ⟨mid, hbefore, hys⟩
  · have hmid : mid = [] := by
      apply byteLength_eq_zero
      rw [hxs, byteLength_append] at hle
      omega
    subst hmid
    exact ⟨[], by simp [hxs], by simp [hafter]⟩

@[simp] theorem cutAt_zero (cs : List Char) : cutAt cs 0 = some ([], cs) := by
  cases cs <;> rfl

/-- Cutting after `before` gives back the two parts. -/
theorem cutAt_byteLength (before after : List Char) :
    cutAt (before ++ after) (byteLength before) = some (before, after) := by
  induction before with
  | nil => simp
  | cons c cs ih =>
    have hpos := Char.utf8Size_pos c
    obtain ⟨n, hn⟩ : ∃ n, c.utf8Size + byteLength cs = n + 1 :=
      ⟨c.utf8Size + byteLength cs - 1, by omega⟩
    have hle : c.utf8Size ≤ n + 1 := by omega
    have hrest : n + 1 - c.utf8Size = byteLength cs := by omega
    simp [cutAt, hn, hle, hrest, ih]

/-- The parts of a cut make up the text, and the first one has the length of the offset. -/
theorem eq_append_of_cutAt {cs before after : List Char} {n : Nat}
    (h : cutAt cs n = some (before, after)) : cs = before ++ after ∧ byteLength before = n := by
  induction cs generalizing n before with
  | nil =>
    cases n with
    | zero => simp_all
    | succ n => simp [cutAt] at h
  | cons c cs ih =>
    cases n with
    | zero => simp_all
    | succ n =>
      simp only [cutAt] at h
      split at h
      · obtain ⟨⟨b, a⟩, hcut, heq⟩ := Option.map_eq_some_iff.mp h
        simp only [Prod.mk.injEq] at heq
        obtain ⟨rfl, rfl⟩ := heq
        obtain ⟨rfl, hlen⟩ := ih hcut
        exact ⟨rfl, by simp; omega⟩
      · simp at h

end FileShell.Text

import FileShell.Proofs.Text.Replace
import FileShell.Prompt

/-!
# Prompts from templates

A template is filled in by one replacement after the other, and each of them looks through what the
ones before have put in. Main statement: `ofTemplate_fills`. It makes no difference to reading the
template once and putting a text in the place of each placeholder, since a status has no character
in common with any placeholder, and the directory comes last. Only a placeholder that is left empty
can bring together what stands around it.
-/

namespace FileShell.Prompt

open Text

/-- The placeholders that have a text for every status. -/
def fixedPlaceholders : List (List Char) :=
  [statusAlways.toList, cwdPlaceholder.toList]

def placeholders : List (List Char) :=
  statusIfAny.toList :: fixedPlaceholders

/-- What takes the place of a placeholder: the directory, or else the status. -/
def valueOf (status : Int) (cwd : String) (placeholder : List Char) : List Char :=
  if placeholder = cwdPlaceholder.toList then cwd.toList else (toString status).toList

theorem toldApart_placeholders : ToldApart placeholders := by decide

theorem fixedPlaceholders_subset : fixedPlaceholders ⊆ placeholders :=
  List.subset_cons_self _ _

theorem marked_of_mem_placeholders {p : List Char} (h : p ∈ placeholders) : Marked '\x7b' p := by
  simp only [placeholders, fixedPlaceholders, List.mem_cons, List.not_mem_nil, or_false] at h
  rcases h with rfl | rfl | rfl
  · exact ⟨_, rfl, by decide⟩
  · exact ⟨_, rfl, by decide⟩
  · exact ⟨_, rfl, by decide⟩

variable {status : Int} {c : Char}

/-- A status is written with digits and perhaps a minus sign. -/
theorem isDigit_or_minus_of_mem (h : c ∈ (toString status).toList) :
    c.isDigit = true ∨ c = '-' := by
  have hdigit : ∀ {n : Nat}, c ∈ n.repr.toList → c.isDigit = true := by
    intro n hc
    rw [Nat.toList_repr] at hc
    exact Nat.isDigit_of_mem_toDigits (by omega) (by omega) hc
  cases status with
  | ofNat n => exact Or.inl (hdigit h)
  | negSucc n =>
    have h : c ∈ ("-" ++ n.succ.repr).toList := h
    rw [String.toList_append, List.mem_append] at h
    rcases h with hminus | hrest
    · exact Or.inr (List.mem_singleton.mp hminus)
    · exact Or.inl (hdigit hrest)

theorem toList_toString_ne_nil (status : Int) : (toString status).toList ≠ [] := by
  have hdigits : ∀ n : Nat, n.repr.toList ≠ [] := by
    intro n
    rw [Nat.toList_repr]
    exact Nat.toDigits_ne_nil
  cases status with
  | ofNat n => exact hdigits n
  | negSucc n =>
    show ("-" ++ n.succ.repr).toList ≠ []
    rw [String.toList_append]
    exact List.append_ne_nil_of_left_ne_nil (by decide) _

/-- No placeholder has a character of a status. -/
theorem notMem_of_mem_placeholders (h : c ∈ (toString status).toList) {p : List Char}
    (hp : p ∈ placeholders) : c ∉ p := by
  have hplain : (placeholders.all fun p => p.all fun d => !d.isDigit && decide (d ≠ '-')) := by
    decide
  intro hmem
  obtain ⟨hdigit, hminus⟩ : c.isDigit = false ∧ c ≠ '-' := by
    simpa using List.all_eq_true.mp (List.all_eq_true.mp hplain p hp) c hmem
  rcases isDigit_or_minus_of_mem h with hc | hc
  · rw [hdigit] at hc
    cases hc
  · exact hminus hc

theorem valueOf_of_ne {p : List Char} (h : p ≠ cwdPlaceholder.toList) (status : Int)
    (cwd : String) : valueOf status cwd p = (toString status).toList :=
  if_neg h

/-- A pass that puts in the status can be made one with a pass for other placeholders. -/
theorem replacePass_status {p : List Char} {patterns : List (List Char)}
    (hp : p ≠ cwdPlaceholder.toList) (hsub : p :: patterns ⊆ placeholders) (status : Int)
    (cwd : String) (cs : List Char) :
    replacePass (rulesOf (valueOf status cwd) patterns)
        (replacePass (rulesOf (valueOf status cwd) [p]) cs) =
      replacePass (rulesOf (valueOf status cwd) (p :: patterns)) cs := by
  have hvalue := valueOf_of_ne hp status cwd
  refine replacePass_replacePass (toldApart_placeholders.of_subset hsub)
    (fun q hq => marked_of_mem_placeholders (hsub hq)) ?_ ?_ ?_ cs
  · rw [hvalue]
    exact toList_toString_ne_nil status
  · rw [hvalue]
    intro hmem
    obtain ⟨body, hbody, -⟩ := marked_of_mem_placeholders (hsub List.mem_cons_self)
    exact notMem_of_mem_placeholders hmem (hsub List.mem_cons_self) (hbody ▸ List.mem_cons_self)
  · rw [hvalue]
    intro q hq c hc
    exact notMem_of_mem_placeholders hc (hsub (List.mem_cons_of_mem p hq))

theorem replaceAll_eq (value : List Char → List Char) {p replacement : String}
    (h : replacement.toList = value p.toList) (s : String) :
    replaceAll p replacement s =
      String.ofList (replacePass (rulesOf value [p.toList]) s.toList) := by
  rw [replaceAll, h]
  rfl

/-- The placeholder that may be left empty is treated first, and the others in one pass. -/
theorem ofTemplate_eq (template : String) (status : Int) (cwd : String) :
    ofTemplate template status cwd =
      String.ofList (replacePass (rulesOf (valueOf status cwd) fixedPlaceholders)
        (replaceAll statusIfAny (if status = 0 then "" else toString status) template).toList) := by
  have hstatus : (toString status).toList = valueOf status cwd statusAlways.toList :=
    (valueOf_of_ne (by decide) status cwd).symm
  have hcwd : cwd.toList = valueOf status cwd cwdPlaceholder.toList := (if_pos rfl).symm
  rw [ofTemplate, replaceAll_eq _ hstatus, replaceAll_eq _ hcwd, String.toList_ofList,
    replacePass_status (by decide) fixedPlaceholders_subset]
  rfl

/-- A template is filled in as it stands. If the status is not zero, the template falls into
placeholders and characters between them, in a way that has nothing to do with what is put in, and
the prompt has the status or the directory in the place of each placeholder. If the status is zero,
the prompt is that of what is left of the template without the placeholder that is then empty, with
the others in it filled in likewise. -/
theorem ofTemplate_fills (template : String) :
    (∃ fragments, (∀ others, ReadAs placeholders template.toList others ↔ others = fragments) ∧
      ∀ status cwd, status ≠ 0 →
        ofTemplate template status cwd = String.ofList (fill (valueOf status cwd) fragments)) ∧
    (∃ cut fragments,
      (∀ others, ReadAs [statusIfAny.toList] template.toList others ↔ others = cut) ∧
      (∀ others, ReadAs fixedPlaceholders (fill (fun _ => []) cut) others ↔ others = fragments) ∧
      ∀ cwd, ofTemplate template 0 cwd = String.ofList (fill (valueOf 0 cwd) fragments)) := by
  have hfixed := toldApart_placeholders.of_subset fixedPlaceholders_subset
  constructor
  · obtain ⟨fragments, hread⟩ := exists_readAs_iff toldApart_placeholders template.toList
    refine ⟨fragments, hread, fun status cwd hstatus => ?_⟩
    have hvalue : (toString status).toList = valueOf status cwd statusIfAny.toList :=
      (valueOf_of_ne (by decide) status cwd).symm
    rw [ofTemplate_eq, if_neg hstatus, replaceAll_eq _ hvalue, String.toList_ofList,
      replacePass_status (by decide) (List.Subset.refl placeholders)]
    exact congrArg _ (((hread fragments).mpr rfl).replacePass_eq toldApart_placeholders)
  · have hone : ToldApart [statusIfAny.toList] := by decide
    obtain ⟨cut, hcut⟩ := exists_readAs_iff hone template.toList
    obtain ⟨fragments, hread⟩ := exists_readAs_iff hfixed (fill (fun _ => []) cut)
    refine ⟨cut, fragments, hcut, hread, fun cwd => ?_⟩
    rw [ofTemplate_eq, if_pos rfl, replaceAll_eq (fun _ => []) rfl, String.toList_ofList,
      ((hcut cut).mpr rfl).replacePass_eq hone, ((hread fragments).mpr rfl).replacePass_eq hfixed]

/-- A placeholder in the name of the directory is left alone, and a status does not complete one. -/
theorem ofTemplate_fills_nested :
    ofTemplate "\x7bsta\x7bstatus?\x7dtus\x7d\x7bcwd\x7d" 3 "\x7bstatus\x7d" =
        "\x7bsta3tus\x7d\x7bstatus\x7d" ∧
      ofTemplate "\x7bsta\x7bstatus?\x7dtus\x7d\x7bcwd\x7d" 0 "\x7bstatus\x7d" =
        "0\x7bstatus\x7d" := by
  obtain ⟨⟨fragments, hread, hfills⟩, cut, others, hcut, hothers, hempty⟩ :=
    ofTemplate_fills "\x7bsta\x7bstatus?\x7dtus\x7d\x7bcwd\x7d"
  have hfragments := (hread [.kept '\x7b', .kept 's', .kept 't', .kept 'a',
    .found statusIfAny.toList, .kept 't', .kept 'u', .kept 's', .kept '\x7d',
    .found cwdPlaceholder.toList]).mp (by decide)
  have hcut := (hcut [.kept '\x7b', .kept 's', .kept 't', .kept 'a',
    .found statusIfAny.toList, .kept 't', .kept 'u', .kept 's', .kept '\x7d', .kept '\x7b',
    .kept 'c', .kept 'w', .kept 'd', .kept '\x7d']).mp (by decide)
  subst hfragments hcut
  have hothers := (hothers [.found statusAlways.toList, .found cwdPlaceholder.toList]).mp
    (by decide)
  subst hothers
  rw [hfills 3 _ (by decide), hempty]
  decide

end FileShell.Prompt

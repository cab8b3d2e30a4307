import FileShell.Arguments
import Mathlib.Data.List.Induction

/-!
# What a list of arguments asks for

`Means` says what a single argument is, and reading it finds that (`means_classify`) and nothing else
(`Means.classify_eq`). The arguments are heeded one after the other, and the first one that asks for
help or is bad settles what is read (`read_append_cons`). An argument that is heeded replaces what
was given before it, so the last one counts (`LastOf`). Main statements: `read_eq_help_iff`,
`read_eq_error_iff`, `read_eq_run_iff`.
-/

namespace FileShell.Arguments

/-- The arguments that mean something as they are. -/
def flags : List String := ["-h", "--help", "-x", "--strict", "--no-strict"]

def IsHelp (argument : String) : Prop :=
  argument = "-h" ∨ argument = "--help"

/-- The argument turns the strict mode on or off. -/
def GivesStrict (argument : String) (on : Bool) : Prop :=
  argument = if on then "--strict" else "--no-strict"

def GivesRoot (argument directory : String) : Prop :=
  directory ≠ "" ∧ argument = "--root=" ++ directory

/-- An argument that means nothing. -/
def Bad (argument : String) : Prop :=
  argument ∉ flags ∧ ∀ directory, ¬ GivesRoot argument directory

/-- The error for a bad argument. -/
def errorFor (argument : String) : ArgumentError :=
  if argument = "--root=" then .missingDirectory else .unknown argument

/-- What an argument means. -/
inductive Means (argument : String) : Argument → Prop
  | help : IsHelp argument → Means argument .help
  | trace : argument = "-x" → Means argument .trace
  | strict {on : Bool} : GivesStrict argument on → Means argument (.strict on)
  | root {directory : String} : GivesRoot argument directory → Means argument (.root directory)
  | wrong : Bad argument → Means argument (.wrong (errorFor argument))

section Single

variable {argument directory : String} {on : Bool} {meaning : Argument}

theorem IsHelp.mem_flags (h : IsHelp argument) : argument ∈ flags := by
  rcases h with rfl | rfl
  · decide
  · decide

theorem GivesStrict.mem_flags (h : GivesStrict argument on) : argument ∈ flags := by
  cases on with
  | false => exact h ▸ (by decide)
  | true => exact h ▸ (by decide)

/-- Beginning with the mark of a directory, the argument is none of the flags. -/
theorem GivesRoot.notMem_flags (h : GivesRoot argument directory) : argument ∉ flags := by
  have hflags : ∀ flag ∈ flags, flag.toList[2]? ≠ some 'r' := by decide
  have hthird : argument.toList[2]? = some 'r' := by
    rw [h.2, String.toList_append]
    rfl
  exact fun hmem => hflags argument hmem hthird

theorem GivesRoot.unique {other : String} (h : GivesRoot argument directory)
    (hother : GivesRoot argument other) : directory = other :=
  (String.append_right_inj _).mp (h.2.symm.trans hother.2)

/-- The mark of a directory with nothing behind it. -/
theorem means_mark : Means "--root=" (.wrong .missingDirectory) := by
  refine .wrong ⟨by decide, fun directory hroot => hroot.1 ?_⟩
  exact (String.append_right_inj "--root=").mp hroot.2.symm

theorem means_of_not_mark (hnone : argument ∉ flags)
    (h : ∀ directory, argument ≠ "--root=" ++ directory) :
    Means argument (.wrong (.unknown argument)) := by
  have herror : errorFor argument = .unknown argument := if_neg fun heq => h "" heq
  rw [← herror]
  exact .wrong ⟨hnone, fun directory hroot => h directory hroot.2⟩

theorem means_classify (argument : String) : Means argument (classify argument) := by
  unfold classify
  split
  · next h => exact .help h
  next hhelp =>
  split
  · next h => exact .trace h
  next htrace =>
  split
  · next h => exact .strict h
  next hon =>
  split
  · next h => exact .strict h
  next hoff =>
  have hnone : argument ∉ flags := by
    simp only [flags, List.mem_cons, List.not_mem_nil, or_false, not_or]
    exact ⟨(not_or.mp hhelp).1, (not_or.mp hhelp).2, htrace, hon, hoff⟩
  split
  · next hmark =>
    obtain ⟨rest, hrest⟩ := List.isPrefixOf_iff_prefix.mp hmark
    have hargument : argument = "--root=" ++ String.ofList rest := by
      rw [← String.toList_inj, ← hrest, String.toList_append, @String.toList_ofList rest, rootMark]
    rw [← hrest, List.drop_left]
    cases rest with
    | nil =>
      rw [String.ofList_nil, String.append_empty] at hargument
      exact hargument ▸ means_mark
    | cons c rest => exact .root ⟨by simp, hargument⟩
  · next hmark =>
    refine means_of_not_mark hnone ?_
    rintro directory rfl
    rw [String.toList_append, List.isPrefixOf_iff_prefix] at hmark
    exact hmark (List.prefix_append _ _)

theorem Means.classify_eq (h : Means argument meaning) : classify argument = meaning := by
  cases h with
  | help h =>
    rcases h with rfl | rfl
    · rfl
    · rfl
  | trace h =>
    subst h
    rfl
  | @strict on h =>
    subst h
    cases on with
    | false => rfl
    | true => rfl
  | root h =>
    have hmeans := means_classify argument
    generalize classify argument = found at hmeans
    cases hmeans with
    | help hhelp => exact absurd hhelp.mem_flags h.notMem_flags
    | trace htrace => exact absurd (htrace ▸ by decide) h.notMem_flags
    | strict hstrict => exact absurd hstrict.mem_flags h.notMem_flags
    | root hroot => rw [h.unique hroot]
    | wrong hbad => exact absurd h (hbad.2 _)
  | wrong h =>
    have hmeans := means_classify argument
    generalize classify argument = found at hmeans
    cases hmeans with
    | help hhelp => exact absurd hhelp.mem_flags h.1
    | trace htrace => exact absurd (htrace ▸ by decide) h.1
    | strict hstrict => exact absurd hstrict.mem_flags h.1
    | root hroot => exact absurd hroot (h.2 _)
    | wrong => rfl

end Single

/-- An argument that does not end the reading. -/
def Heeded (argument : String) : Prop :=
  ¬ IsHelp argument ∧ ¬ Bad argument

/-- The options when one more argument has been heeded. -/
def heed (options : Options) (argument : String) : Options :=
  match classify argument with
  | .trace => { options with trace := true }
  | .strict on => { options with strict := some on }
  | .root directory => { options with root := some directory }
  | _ => options

section Reading

variable {argument : String} {arguments : List String} {options : Options}

theorem readFrom_cons_of_heeded (h : Heeded argument) (rest : List String) :
    readFrom options (argument :: rest) = readFrom (heed options argument) rest := by
  have hmeans := means_classify argument
  rw [readFrom, heed]
  generalize classify argument = meaning at hmeans
  cases hmeans with
  | help hhelp => exact absurd hhelp h.1
  | trace => rfl
  | strict => rfl
  | root => rfl
  | wrong hbad => exact absurd hbad h.2

theorem readFrom_append_of_heeded (h : ∀ argument ∈ arguments, Heeded argument)
    (rest : List String) :
    readFrom options (arguments ++ rest) = readFrom (arguments.foldl heed options) rest := by
  induction arguments generalizing options with
  | nil => rfl
  | cons argument arguments ih =>
    obtain ⟨hargument, harguments⟩ := List.forall_mem_cons.mp h
    rw [List.cons_append, readFrom_cons_of_heeded hargument, ih harguments, List.foldl_cons]

theorem readFrom_cons_of_isHelp (h : IsHelp argument) (rest : List String) :
    readFrom options (argument :: rest) = .ok .help := by
  rw [readFrom, (Means.help h).classify_eq]

theorem readFrom_cons_of_bad (h : Bad argument) (rest : List String) :
    readFrom options (argument :: rest) = .error (errorFor argument) := by
  rw [readFrom, (Means.wrong h).classify_eq]

/-- The place of the first argument that is not heeded. -/
theorem all_heeded_or_first (arguments : List String) : (∀ argument ∈ arguments, Heeded argument) ∨
    ∃ before argument after, arguments = before ++ argument :: after ∧
      (∀ earlier ∈ before, Heeded earlier) ∧ ¬ Heeded argument := by
  induction arguments with
  | nil => exact Or.inl fun argument h => absurd h List.not_mem_nil
  | cons first rest ih =>
    by_cases hfirst : Heeded first
    · rcases ih with hall | ⟨before, argument, after, rfl, hbefore, hargument⟩
      · exact Or.inl (List.forall_mem_cons.mpr ⟨hfirst, hall⟩)
      · exact Or.inr ⟨first :: before, argument, after, rfl,
          List.forall_mem_cons.mpr ⟨hfirst, hbefore⟩, hargument⟩
    · exact Or.inr ⟨[], first, rest, rfl, fun earlier h => absurd h List.not_mem_nil, hfirst⟩

variable {before after : List String}

/-- The first argument that is not heeded settles what is read. -/
theorem read_append_cons (hbefore : ∀ earlier ∈ before, Heeded earlier) (h : ¬ Heeded argument)
    (after : List String) :
    IsHelp argument ∧ read (before ++ argument :: after) = .ok .help ∨
      Bad argument ∧ read (before ++ argument :: after) = .error (errorFor argument) := by
  rw [read, readFrom_append_of_heeded hbefore]
  by_cases hhelp : IsHelp argument
  · exact Or.inl ⟨hhelp, readFrom_cons_of_isHelp hhelp after⟩
  · have hbad : Bad argument := not_not.mp fun hbad => h ⟨hhelp, hbad⟩
    exact Or.inr ⟨hbad, readFrom_cons_of_bad hbad after⟩

theorem read_of_heeded (h : ∀ argument ∈ arguments, Heeded argument) :
    read arguments = .ok (.run (arguments.foldl heed {})) := by
  have hread : readFrom {} (arguments ++ []) = _ := readFrom_append_of_heeded h []
  rwa [List.append_nil] at hread

/-- An argument that is not heeded settles what is read, or one in front of it does. -/
theorem exists_settles (h : ¬ Heeded argument) (before after : List String) :
    ∃ first, (first = argument ∨ first ∈ before) ∧
      (IsHelp first ∧ read (before ++ argument :: after) = .ok .help ∨
        Bad first ∧ read (before ++ argument :: after) = .error (errorFor first)) := by
  rcases all_heeded_or_first before with hall | ⟨front, first, back, rfl, hfront, hfirst⟩
  · exact ⟨argument, Or.inl rfl, read_append_cons hall h after⟩
  · refine ⟨first, Or.inr (List.mem_append_right _ List.mem_cons_self), ?_⟩
    rw [List.append_assoc, List.cons_append]
    exact read_append_cons hfront hfirst (back ++ argument :: after)

theorem IsHelp.not_bad (h : IsHelp argument) : ¬ Bad argument :=
  fun hbad => hbad.1 h.mem_flags

/-- Help is given exactly if it is asked for before anything bad. -/
theorem read_eq_help_iff : read arguments = .ok .help ↔
    ∃ before argument after, arguments = before ++ argument :: after ∧ IsHelp argument ∧
      ∀ earlier ∈ before, ¬ Bad earlier := by
  constructor
  · intro h
    rcases all_heeded_or_first arguments with hall | ⟨before, argument, after, rfl, hbefore, hnot⟩
    · rw [read_of_heeded hall] at h
      cases h
    · rcases read_append_cons hbefore hnot after with ⟨hhelp, -⟩ | ⟨-, herror⟩
      · exact ⟨before, argument, after, rfl, hhelp, fun b hb => (hbefore b hb).2⟩
      · rw [herror] at h
        cases h
  · rintro ⟨before, argument, after, rfl, hhelp, hbefore⟩
    obtain ⟨first, hfirst, ⟨-, hread⟩ | ⟨hbad, -⟩⟩ :=
      exists_settles (fun h => h.1 hhelp) before after
    · exact hread
    · rcases hfirst with rfl | hmem
      · exact absurd hbad hhelp.not_bad
      · exact absurd hbad (hbefore first hmem)

/-- The error is that of the first bad argument, if help is not asked for before it. -/
theorem read_eq_error_iff {error : ArgumentError} : read arguments = .error error ↔
    ∃ before argument after, arguments = before ++ argument :: after ∧ Bad argument ∧
      (∀ earlier ∈ before, ¬ IsHelp earlier ∧ ¬ Bad earlier) ∧ error = errorFor argument := by
  constructor
  · intro h
    rcases all_heeded_or_first arguments with hall | ⟨before, argument, after, rfl, hbefore, hnot⟩
    · rw [read_of_heeded hall] at h
      cases h
    · rcases read_append_cons hbefore hnot after with ⟨-, hhelp⟩ | ⟨hbad, herror⟩
      · rw [hhelp] at h
        cases h
      · exact ⟨before, argument, after, rfl, hbad, hbefore, Except.error.inj (h.symm.trans herror)⟩
  · rintro ⟨before, argument, after, rfl, hbad, hbefore, rfl⟩
    rcases read_append_cons hbefore (fun h => h.2 hbad) after with ⟨hhelp, -⟩ | ⟨-, hread⟩
    · exact absurd hbad hhelp.not_bad
    · exact hread

theorem exists_read_eq_error_iff : (∃ error, read arguments = .error error) ↔
    ∃ before argument after, arguments = before ++ argument :: after ∧ Bad argument ∧
      ∀ earlier ∈ before, ¬ IsHelp earlier := by
  constructor
  · rintro ⟨error, h⟩
    obtain ⟨before, argument, after, harguments, hbad, hbefore, -⟩ := read_eq_error_iff.mp h
    exact ⟨before, argument, after, harguments, hbad, fun b hb => (hbefore b hb).1⟩
  · rintro ⟨before, argument, after, rfl, hbad, hbefore⟩
    obtain ⟨first, hfirst, ⟨hhelp, -⟩ | ⟨-, hread⟩⟩ :=
      exists_settles (fun h => h.2 hbad) before after
    · rcases hfirst with rfl | hmem
      · exact absurd hbad hhelp.not_bad
      · exact absurd hhelp (hbefore first hmem)
    · exact ⟨_, hread⟩

end Reading

/-- The last one of the arguments that give a value gives this one. -/
def LastOf {α : Type} (Gives : String → α → Prop) (arguments : List String) (v : α) : Prop :=
  ∃ before argument after, arguments = before ++ argument :: after ∧ Gives argument v ∧
    ∀ later ∈ after, ∀ w, ¬ Gives later w

section Last

variable {α : Type} {Gives : String → α → Prop} {get : Options → Option α}
  {arguments : List String} {argument : String} {v : α}

theorem lastOf_concat_iff : LastOf Gives (arguments ++ [argument]) v ↔
    Gives argument v ∨ (∀ w, ¬ Gives argument w) ∧ LastOf Gives arguments v := by
  constructor
  · rintro ⟨before, other, after, heq, hother, hafter⟩
    rcases List.eq_nil_or_concat after with rfl | ⟨after, last, rfl⟩
    · obtain ⟨-, hlast⟩ := List.append_inj' heq rfl
      exact Or.inl (List.singleton_inj.mp hlast ▸ hother)
    · rw [List.concat_eq_append, ← List.cons_append, ← List.append_assoc] at heq
      obtain ⟨rfl, hlast⟩ := List.append_inj' heq rfl
      rw [List.singleton_inj.mp hlast]
      simp only [List.concat_eq_append, List.mem_append, List.mem_singleton] at hafter
      exact Or.inr ⟨hafter last (Or.inr rfl), before, other, after, rfl, hother,
        fun later hlater => hafter later (Or.inl hlater)⟩
  · rintro (hgives | ⟨hnone, before, other, after, rfl, hother, hafter⟩)
    · exact ⟨arguments, argument, [], rfl, hgives, fun later h => absurd h List.not_mem_nil⟩
    · refine ⟨before, other, after ++ [argument], by simp, hother, ?_⟩
      intro later hlater
      rcases List.mem_append.mp hlater with hmem | hmem
      · exact hafter later hmem
      · rw [List.mem_singleton.mp hmem]
        exact hnone

theorem not_lastOf_nil : ¬ LastOf Gives [] v := by
  rintro ⟨before, argument, after, heq, -⟩
  exact absurd heq.symm (List.append_ne_nil_of_right_ne_nil _ (List.cons_ne_nil _ _))

theorem LastOf.exists_mem (h : LastOf Gives arguments v) :
    ∃ argument ∈ arguments, Gives argument v := by
  obtain ⟨before, argument, after, rfl, hgives, -⟩ := h
  exact ⟨argument, List.mem_append_right _ List.mem_cons_self, hgives⟩

theorem exists_lastOf (hmem : argument ∈ arguments) (h : Gives argument v) :
    ∃ w, LastOf Gives arguments w := by
  induction arguments using List.reverseRecOn with
  | nil => exact absurd hmem List.not_mem_nil
  | append_singleton arguments last ih =>
    by_cases hlast : ∃ w, Gives last w
    · obtain ⟨w, hw⟩ := hlast
      exact ⟨w, lastOf_concat_iff.mpr (Or.inl hw)⟩
    · have hnot := not_exists.mp hlast
      rcases List.mem_append.mp hmem with hmem | hmem
      · obtain ⟨w, hw⟩ := ih hmem
        exact ⟨w, lastOf_concat_iff.mpr (Or.inr ⟨hnot, hw⟩)⟩
      · exact absurd (List.mem_singleton.mp hmem ▸ h) (hnot v)

section Option

variable
  (hgives : ∀ options argument v, Gives argument v → get (heed options argument) = some v)
  (hkeeps : ∀ options argument, (∀ v, ¬ Gives argument v) →
    get (heed options argument) = get options)
  (hnone : get {} = none)

include hgives hkeeps hnone

/-- An option that each argument which gives a value sets to it, and the others leave alone, has
the value that the last of them gives. -/
theorem get_foldl_heed_eq_some_iff : get (arguments.foldl heed {}) = some v ↔
    LastOf Gives arguments v := by
  induction arguments using List.reverseRecOn generalizing v with
  | nil =>
    rw [List.foldl_nil, hnone]
    exact ⟨(nomatch ·), fun h => absurd h not_lastOf_nil⟩
  | append_singleton arguments last ih =>
    rw [List.foldl_append, List.foldl_cons, List.foldl_nil, lastOf_concat_iff]
    by_cases h : ∃ w, Gives last w
    · obtain ⟨w, hw⟩ := h
      rw [hgives _ _ _ hw, Option.some.injEq]
      constructor
      · rintro rfl
        exact Or.inl hw
      · rintro (hv | ⟨hnot, -⟩)
        · exact Option.some.inj ((hgives {} _ _ hw).symm.trans (hgives {} _ _ hv))
        · exact absurd hw (hnot w)
    · have hnot := not_exists.mp h
      rw [hkeeps _ _ hnot, ih]
      exact ⟨fun hv => Or.inr ⟨hnot, hv⟩, fun hv => (hv.resolve_left (hnot v)).2⟩

theorem get_foldl_heed_eq_none_iff : get (arguments.foldl heed {}) = none ↔
    ∀ argument ∈ arguments, ∀ v, ¬ Gives argument v := by
  have hsome := fun v =>
    @get_foldl_heed_eq_some_iff α Gives get arguments v hgives hkeeps hnone
  simp only [Option.eq_none_iff_forall_ne_some, ne_eq, hsome]
  constructor
  · intro h argument hmem v hv
    obtain ⟨w, hw⟩ := exists_lastOf hmem hv
    exact h w hw
  · intro h v hlast
    obtain ⟨argument, hmem, hv⟩ := hlast.exists_mem
    exact h argument hmem v hv

end Option

end Last

section Heeding

variable (options : Options) (argument : String)

theorem strict_heed_of_gives (on : Bool) (h : GivesStrict argument on) :
    (heed options argument).strict = some on := by
  rw [heed, (Means.strict h).classify_eq]

theorem strict_heed_of_not_gives (h : ∀ on, ¬ GivesStrict argument on) :
    (heed options argument).strict = options.strict := by
  have hmeans := means_classify argument
  rw [heed]
  generalize classify argument = meaning at hmeans
  cases hmeans with
  | strict hstrict => exact absurd hstrict (h _)
  | _ => rfl

theorem root_heed_of_gives (directory : String) (h : GivesRoot argument directory) :
    (heed options argument).root = some directory := by
  rw [heed, (Means.root h).classify_eq]

theorem root_heed_of_not_gives (h : ∀ directory, ¬ GivesRoot argument directory) :
    (heed options argument).root = options.root := by
  have hmeans := means_classify argument
  rw [heed]
  generalize classify argument = meaning at hmeans
  cases hmeans with
  | root hroot => exact absurd hroot (h _)
  | _ => rfl

theorem trace_heed :
    (heed options argument).trace = true ↔ options.trace = true ∨ argument = "-x" := by
  have hmeans := means_classify argument
  by_cases htrace : argument = "-x"
  · rw [heed, (Means.trace htrace).classify_eq]
    simp [htrace]
  · rw [heed]
    generalize classify argument = meaning at hmeans
    cases hmeans with
    | trace h => exact absurd h htrace
    | _ => simp [htrace]

theorem trace_foldl_heed (arguments : List String) :
    (arguments.foldl heed options).trace = true ↔ options.trace = true ∨ "-x" ∈ arguments := by
  induction arguments generalizing options with
  | nil => simp
  | cons argument arguments ih =>
    rw [List.foldl_cons, ih, trace_heed, List.mem_cons, or_assoc, @eq_comm _ argument]

end Heeding

/-- The options that the arguments ask for if all of them are heeded. -/
structure Asks (arguments : List String) (options : Options) : Prop where
  trace_iff : options.trace = true ↔ "-x" ∈ arguments
  strict_eq_some_iff : ∀ on, options.strict = some on ↔ LastOf GivesStrict arguments on
  strict_eq_none_iff : options.strict = none ↔
    ∀ argument ∈ arguments, ∀ on, ¬ GivesStrict argument on
  root_eq_some_iff : ∀ directory, options.root = some directory ↔
    LastOf GivesRoot arguments directory
  root_eq_none_iff : options.root = none ↔
    ∀ argument ∈ arguments, ∀ directory, ¬ GivesRoot argument directory

section Run

variable {arguments : List String} {options : Options}

theorem asks_foldl_heed (arguments : List String) : Asks arguments (arguments.foldl heed {}) where
  trace_iff := by
    rw [trace_foldl_heed]
    exact or_iff_right Bool.false_ne_true
  strict_eq_some_iff _ := get_foldl_heed_eq_some_iff strict_heed_of_gives
    strict_heed_of_not_gives rfl
  strict_eq_none_iff := get_foldl_heed_eq_none_iff strict_heed_of_gives
    strict_heed_of_not_gives rfl
  root_eq_some_iff _ := get_foldl_heed_eq_some_iff root_heed_of_gives root_heed_of_not_gives rfl
  root_eq_none_iff := get_foldl_heed_eq_none_iff root_heed_of_gives root_heed_of_not_gives rfl

theorem Asks.unique {other : Options} (h : Asks arguments options) (hother : Asks arguments other) :
    options = other := by
  have htrace : options.trace = other.trace :=
    Bool.eq_iff_iff.mpr (h.trace_iff.trans hother.trace_iff.symm)
  have hstrict : options.strict = other.strict :=
    Option.ext fun on => (h.strict_eq_some_iff on).trans (hother.strict_eq_some_iff on).symm
  have hroot : options.root = other.root :=
    Option.ext fun directory =>
      (h.root_eq_some_iff directory).trans (hother.root_eq_some_iff directory).symm
  cases options
  cases other
  rw [Options.mk.injEq]
  exact ⟨htrace, hstrict, hroot⟩

/-- A run is asked for exactly if all arguments are heeded, and with the options that they give. -/
theorem read_eq_run_iff : read arguments = .ok (.run options) ↔
    (∀ argument ∈ arguments, ¬ IsHelp argument ∧ ¬ Bad argument) ∧ Asks arguments options := by
  constructor
  · intro h
    rcases all_heeded_or_first arguments with hall | ⟨before, argument, after, rfl, hbefore, hnot⟩
    · rw [read_of_heeded hall] at h
      cases h
      exact ⟨hall, asks_foldl_heed arguments⟩
    · rcases read_append_cons hbefore hnot after with ⟨-, hread⟩ | ⟨-, hread⟩
      · rw [hread] at h
        cases h
      · rw [hread] at h
        cases h
  · rintro ⟨hall, hasks⟩
    rw [read_of_heeded hall, hasks.unique (asks_foldl_heed arguments)]

end Run

end FileShell.Arguments

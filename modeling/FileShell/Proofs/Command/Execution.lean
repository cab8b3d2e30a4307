import FileShell.Line
import FileShell.Proofs.Command.RoundTrip
import FileShell.Proofs.Disk.Atomicity

/-!
# What an accepted line does

The operands of a command that was read from a line are as many as it takes, and each is a plain
name: `Path.IsComponent` says what that means for a path. `Command.Performs` says what a command
with its operands does to a disk when it succeeds, one operation of the disk for each kind, and
`performs_of_execute` reads this off an execution.
-/

namespace FileShell

open Token

theorem Token.isWordChar_or_dot_of_isWord {word : List Char} (h : IsWord word) {c : Char}
    (hc : c ∈ word) : Text.isWordChar c = true ∨ c = '.' := by
  cases h with
  | run hx => exact Or.inl (hx.2 c hc)
  | @dotted xs ys hx hy =>
    rcases List.mem_append.mp hc with hmem | hmem
    · exact Or.inl (hx.2 c hmem)
    · rcases List.mem_cons.mp hmem with rfl | hmem
      · exact Or.inr rfl
      · exact Or.inl (hy.2 c hmem)

/-- A name that is one component of a path. It stays in its directory and is not hidden. -/
structure Path.IsComponent (name : String) : Prop where
  ne_empty : name ≠ ""
  /-- It consists of word characters, with at most one dot in between. -/
  chars : ∀ c ∈ name.toList, Text.isWordChar c = true ∨ c = '.'
  count_dot : name.toList.count '.' ≤ 1
  head_ne_dot : name.toList.head? ≠ some '.'
  last_ne_dot : name.toList.getLast? ≠ some '.'
  separator_notMem : Path.separator ∉ name.toList
  hasNul_eq : Path.hasNul name = false
  ne_here : name ≠ "."
  ne_parent : name ≠ ".."

theorem Token.IsWord.isComponent {name : String} (h : IsWord name.toList) :
    Path.IsComponent name := by
  have hchars := fun c (hc : c ∈ name.toList) => isWordChar_or_dot_of_isWord h hc
  have hhead : name.toList.head? ≠ some '.' := by
    obtain ⟨c, rest, hname, hc⟩ := h.startsWord
    rw [hname, List.head?_cons]
    rintro ⟨⟩
    rw [isWordChar_dot] at hc
    cases hc
  have houtside : ∀ c, Text.isWordChar c = false → c ≠ '.' → c ∉ name.toList := by
    intro c hword hdot hmem
    rcases hchars c hmem with hc | hc
    · rw [hword] at hc
      cases hc
    · exact hdot hc
  refine ⟨?_, hchars, ?_, hhead, ?_, houtside '/' (by decide) (by decide), ?_, ?_, ?_⟩
  · rintro rfl
    obtain ⟨c, rest, hname, -⟩ := h.startsWord
    cases hname
  · generalize name.toList = cs at h
    cases h with
    | run hx => simp [List.count_eq_zero_of_not_mem hx.dot_notMem]
    | dotted hx hy =>
      simp [List.count_eq_zero_of_not_mem hx.dot_notMem,
        List.count_eq_zero_of_not_mem hy.dot_notMem]
  · generalize name.toList = cs at h
    intro hlast
    have hrun : ∀ {xs : List Char}, IsRun xs → xs.getLast? ≠ some '.' := by
      intro xs hx hdot
      exact hx.dot_notMem (List.mem_of_getLast? hdot)
    cases h with
    | run hx => exact hrun hx hlast
    | @dotted xs ys hx hy =>
      rw [List.getLast?_append_of_ne_nil _ (by simp), List.getLast?_cons_of_ne_nil hy.1] at hlast
      exact hrun hy hlast
  · simp only [Path.hasNul, List.any_eq_false, decide_eq_true_eq]
    intro c hc hzero
    have hnul : c = Char.ofNat 0 := by
      apply Char.toNat_inj.mp
      rw [hzero]
      rfl
    subst hnul
    exact houtside _ (by decide) (by decide) hc
  · rintro rfl
    exact hhead rfl
  · rintro rfl
    exact hhead rfl

namespace Command

/-- A command with as many operands as it takes is one of these. -/
theorem eq_of_length_operands {c : Command} (h : c.operands.length = c.kind.arity) :
    c = ⟨.exit, []⟩ ∨ (∃ name, c = ⟨.create, [name]⟩) ∨ (∃ name, c = ⟨.delete, [name]⟩) ∨
      (∃ source target, c = ⟨.copy, [source, target]⟩) ∨
      ∃ source target, c = ⟨.rename, [source, target]⟩ := by
  obtain ⟨kind, operands⟩ := c
  cases kind with
  | exit =>
    have hnil : operands = [] := List.eq_nil_of_length_eq_zero h
    simp [hnil]
  | create =>
    obtain ⟨name, rfl⟩ := List.length_eq_one_iff.mp h
    simp
  | delete =>
    obtain ⟨name, rfl⟩ := List.length_eq_one_iff.mp h
    simp
  | copy =>
    obtain ⟨source, target, rfl⟩ := List.length_eq_two.mp h
    simp
  | rename =>
    obtain ⟨source, target, rfl⟩ := List.length_eq_two.mp h
    simp

/-- What a command does when it succeeds: one operation of the disk `d`, with the disk after it and
the confirmation. -/
inductive Performs (root : String) (d : Disk) : Command → Disk → String → Prop
  | create {name : String} {after : Disk} : d.create (Path.join root name) = .ok after →
      Performs root d ⟨.create, [name]⟩ after ("created " ++ name)
  | delete {name : String} {after : Disk} : d.remove (Path.join root name) = .ok after →
      Performs root d ⟨.delete, [name]⟩ after ("deleted " ++ name)
  | copy {source target : String} {bytes : Nat} {after : Disk} :
      d.copy (Path.join root source) (Path.join root target) = (.ok bytes, after) →
      Performs root d ⟨.copy, [source, target]⟩ after ("copied " ++ source ++ " -> " ++ target)
  | rename {source target : String} {after : Disk} :
      d.rename (Path.join root source) (Path.join root target) = .ok after →
      Performs root d ⟨.rename, [source, target]⟩ after ("renamed " ++ source ++ " -> " ++ target)

theorem eq_ok_of_settle {d after : Disk} {path : String} {result : Except Fault Disk}
    (h : FileAction.settle d path result = (.ok (), after)) : result = .ok after := by
  cases result with
  | error fault => cases h
  | ok disk =>
    cases h
    rfl

/-- An action that a command has performed ran without a fault. -/
theorem execute_act {c : Command} {root confirmation message : String} {action : FileAction}
    {d : Disk} (hplan : c.plan root = .ok (.act action message))
    (h : (c.execute root d).result = .ok (.done confirmation)) :
    confirmation = message ∧
      ∃ events, action.run d = (.ok (), (c.execute root d).disk, events) := by
  unfold execute at h ⊢
  rw [hplan] at h ⊢
  cases hrun : action.run d with
  | mk result rest =>
    obtain ⟨disk, events⟩ := rest
    cases result with
    | error fault => simp [hrun] at h
    | ok done =>
      simp only [hrun, Except.ok.injEq, Outcome.done.injEq] at h ⊢
      exact ⟨h.symm, events, rfl⟩

/-- A command that succeeds performs the operation of its kind. -/
theorem performs_of_execute {c : Command} {root confirmation : String} {d : Disk}
    (hlen : c.operands.length = c.kind.arity)
    (h : (c.execute root d).result = .ok (.done confirmation)) :
    Performs root d c (c.execute root d).disk confirmation := by
  rcases eq_of_length_operands hlen with rfl | ⟨name, rfl⟩ | ⟨name, rfl⟩ | ⟨source, target, rfl⟩ |
    ⟨source, target, rfl⟩
  · cases h
  · obtain ⟨rfl, events, hrun⟩ := execute_act rfl h
    obtain ⟨hresult, hrest⟩ := Prod.mk.inj hrun
    exact .create (eq_ok_of_settle (Prod.ext hresult (Prod.mk.inj hrest).1))
  · obtain ⟨rfl, events, hrun⟩ := execute_act rfl h
    obtain ⟨hresult, hrest⟩ := Prod.mk.inj hrun
    exact .delete (eq_ok_of_settle (Prod.ext hresult (Prod.mk.inj hrest).1))
  · obtain ⟨rfl, events, hrun⟩ := execute_act rfl h
    simp only [FileAction.run] at hrun
    split at hrun
    · cases hrun
    · next bytes disk hcopy =>
      obtain ⟨-, hrest⟩ := Prod.mk.inj hrun
      rw [(Prod.mk.inj hrest).1] at hcopy
      exact .copy hcopy
  · obtain ⟨rfl, events, hrun⟩ := execute_act rfl h
    obtain ⟨hresult, hrest⟩ := Prod.mk.inj hrun
    exact .rename (eq_ok_of_settle (Prod.ext hresult (Prod.mk.inj hrest).1))

theorem execute_of_run {c : Command} {root message : String} {action : FileAction}
    {d after : Disk} {events : List Event} (hplan : c.plan root = .ok (.act action message))
    (hrun : action.run d = (.ok (), after, events)) :
    (c.execute root d).result = .ok (.done message) ∧ (c.execute root d).disk = after := by
  simp only [Command.execute, hplan, hrun, and_self]

theorem Performs.execute {root confirmation : String} {d after : Disk} {c : Command}
    (h : Performs root d c after confirmation) :
    (c.execute root d).result = .ok (.done confirmation) ∧ (c.execute root d).disk = after := by
  cases h with
  | create hcreate =>
    exact execute_of_run rfl (by simp only [FileAction.run, hcreate, FileAction.settle]; rfl)
  | delete hdelete =>
    exact execute_of_run rfl (by simp only [FileAction.run, hdelete, FileAction.settle]; rfl)
  | copy hcopy => exact execute_of_run rfl (by simp only [FileAction.run, hcopy]; rfl)
  | rename hrename =>
    exact execute_of_run rfl (by simp only [FileAction.run, hrename, FileAction.settle]; rfl)

theorem kind_of_plan_leave {c : Command} {root : String} (h : c.plan root = .ok .leave) :
    c.kind = .exit := by
  have hmap : ∀ {α : Type} (x : Except Fault α) (f : α → Plan), (∀ a, f a ≠ .leave) →
      x.map f ≠ .ok .leave := by
    intro α x f hf hx
    cases x with
    | error fault => cases hx
    | ok a => exact hf a (Except.ok.inj hx)
  unfold plan at h
  split at h
  · assumption
  · exact absurd h (hmap _ _ fun name hname => by cases hname)
  · exact absurd h (hmap _ _ fun name hname => by cases hname)
  · exact absurd h (hmap _ _ fun names hnames => by cases hnames)
  · exact absurd h (hmap _ _ fun names hnames => by cases hnames)

/-- Only `exit` ends the session. -/
theorem kind_of_execute_exit {c : Command} {root : String} {d : Disk}
    (h : (c.execute root d).result = .ok .exit) : c.kind = .exit := by
  unfold execute at h
  split at h
  · cases h
  · next hplan => exact kind_of_plan_leave hplan
  · split at h
    · cases h
    · cases h

theorem execute_of_exit {c : Command} (h : c.kind = .exit) (root : String) (d : Disk) :
    c.execute root d = ⟨.ok .exit, d, []⟩ := by
  have hplan : c.plan root = .ok .leave := by rw [plan, h]
  rw [execute, hplan]

/-- Executing a command fails and changes nothing, ends the session, or performs an operation. -/
theorem execute_outcome {c : Command} (hlen : c.operands.length = c.kind.arity) (root : String)
    (d : Disk) :
    (∃ fault, (c.execute root d).result = .error fault ∧ (c.execute root d).disk = d) ∨
    (c.kind = .exit ∧ (c.execute root d).result = .ok .exit ∧ (c.execute root d).disk = d) ∨
    ∃ confirmation, (c.execute root d).result = .ok (.done confirmation) ∧
      Performs root d c (c.execute root d).disk confirmation := by
  have hatomic := c.atomic_execute root d
  cases hresult : (c.execute root d).result with
  | error fault => exact Or.inl ⟨fault, rfl, hatomic (Or.inl ⟨fault, hresult⟩)⟩
  | ok outcome =>
    cases outcome with
    | exit =>
      exact Or.inr (Or.inl ⟨kind_of_execute_exit hresult, rfl, hatomic (Or.inr hresult)⟩)
    | done confirmation =>
      exact Or.inr (Or.inr ⟨confirmation, rfl, performs_of_execute hlen hresult⟩)

theorem isComponent_of_ofLine {strict : Bool} {line : String} {c : Command}
    (h : ofLine strict line = .ok c) : ∀ name ∈ c.operands, Path.IsComponent name :=
  fun name hname => (isOperand_of_ofLine h name hname).1.isComponent

/-- A confirmation is a single line. -/
theorem Performs.lineFeed_notMem {root confirmation : String} {d after : Disk} {c : Command}
    (h : Performs root d c after confirmation)
    (hnames : ∀ name ∈ c.operands, Path.IsComponent name) : '\n' ∉ confirmation.toList := by
  have hname : ∀ name ∈ c.operands, '\n' ∉ name.toList := by
    intro name hname hmem
    rcases (hnames name hname).chars _ hmem with hword | hdot
    · exact absurd hword (by decide)
    · exact absurd hdot (by decide)
  cases h with
  | @create name => simpa using hname name (by simp)
  | @delete name => simpa using hname name (by simp)
  | @copy source target =>
    have hsource := hname source (by simp)
    have htarget := hname target (by simp)
    simpa using ⟨hsource, htarget⟩
  | @rename source target =>
    have hsource := hname source (by simp)
    have htarget := hname target (by simp)
    simpa using ⟨hsource, htarget⟩

end Command

namespace Line

variable {strict : Bool} {line : String}

theorem execute_of_error {r : Rejection} (h : Command.ofLine strict line = .error r) (root : String)
    (d : Disk) : execute strict root line d = ⟨.error (diagnose r), d, [.rejected r.reason]⟩ := by
  rw [execute, h]

theorem execute_of_ok {c : Command} (h : Command.ofLine strict line = .ok c) (root : String)
    (d : Disk) :
    (execute strict root line d).result = (c.execute root d).result.mapError failure ∧
      (execute strict root line d).disk = (c.execute root d).disk := by
  rw [execute, h]
  exact ⟨rfl, rfl⟩

/-- An action on a disk as an effect. -/
def performOn (action : FileAction) : StateM Disk (Except Fault Unit) := fun d =>
  ((action.run d).1, (action.run d).2.1)

/-- A line is executed by performing the action that it is planned to be. -/
theorem executeWith_performOn (strict : Bool) (root line : String) (d : Disk) :
    (executeWith performOn strict root line).run d =
      ((execute strict root line d).result, (execute strict root line d).disk) := by
  cases hline : Command.ofLine strict line with
  | error r =>
    rw [execute_of_error hline]
    simp only [executeWith, plan, hline]
    rfl
  | ok c =>
    obtain ⟨hresult, hdisk⟩ := execute_of_ok hline root d
    rw [hresult, hdisk]
    simp only [executeWith, plan, hline, Command.execute]
    cases c.plan root with
    | error fault => rfl
    | ok next =>
      cases next with
      | leave => rfl
      | act action confirmation =>
        have hperform : (performOn action).run d = ((action.run d).1, (action.run d).2.1) := rfl
        simp only [Except.mapError, StateT.run_bind, hperform]
        rcases action.run d with ⟨fault | ⟨⟩, after, events⟩
        · rfl
        · rfl

/-- An accepted line is done exactly if its command performs its operation. -/
theorem done_iff_performs {c : Command} (h : Command.ofLine strict line = .ok c)
    {root confirmation : String} {d after : Disk} :
    (execute strict root line d).result = .ok (.done confirmation) ∧
      (execute strict root line d).disk = after ↔ c.Performs root d after confirmation := by
  obtain ⟨hresult, hdisk⟩ := execute_of_ok h root d
  rw [hresult, hdisk]
  constructor
  · rintro ⟨hdone, rfl⟩
    cases hcommand : (c.execute root d).result with
    | error fault =>
      rw [hcommand] at hdone
      cases hdone
    | ok outcome =>
      rw [hcommand] at hdone
      cases hdone
      exact Command.performs_of_execute (Command.length_operands_of_ofLine h) hcommand
  · intro hperforms
    obtain ⟨hdone, rfl⟩ := hperforms.execute
    exact ⟨by rw [hdone]; rfl, rfl⟩

/-- An accepted line that does not end the session is done, or fails and changes nothing. -/
theorem done_or_error {c : Command} (h : Command.ofLine strict line = .ok c)
    (hkind : c.kind ≠ .exit) (root : String) (d : Disk) :
    (∃ confirmation, (execute strict root line d).result = .ok (.done confirmation)) ∨
      (∃ diagnostic, (execute strict root line d).result = .error diagnostic) ∧
        (execute strict root line d).disk = d := by
  obtain ⟨hresult, hdisk⟩ := execute_of_ok h root d
  rw [hresult, hdisk]
  rcases c.execute_outcome (Command.length_operands_of_ofLine h) root d with
    ⟨fault, herror, hsame⟩ | ⟨hexit, -, -⟩ | ⟨confirmation, hdone, -⟩
  · exact Or.inr ⟨⟨_, by rw [herror]; rfl⟩, hsame⟩
  · exact absurd hexit hkind
  · exact Or.inl ⟨confirmation, by rw [hdone]; rfl⟩

end Line

end FileShell

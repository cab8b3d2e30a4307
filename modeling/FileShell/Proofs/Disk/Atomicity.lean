import FileShell.Line
import FileShell.Proofs.Disk.Contents

/-!
# Failures leave no trace

A command or a line that fails, and one that ends the session, leaves the disk exactly as it was.
The one action with more than one step that changes the disk is copying: opening the target
empties it, and the bytes follow later. It cannot fail in between, since the source has been found
to be a file and opening the target does not alter that (`transfer_eq_ok`). Main statement:
`execute_atomic`.
-/

namespace FileShell

/-- An execution that fails or ends the session leaves the disk `d` as it is. -/
def Execution.Atomic {ε : Type} (e : Execution ε) (d : Disk) : Prop :=
  (∃ fault, e.result = .error fault) ∨ e.result = .ok .exit → e.disk = d

/-- Telling the failure in other words, and recording more, makes no difference. -/
theorem Execution.Atomic.mapError {ε δ : Type} {e : Execution ε} {d : Disk} (h : e.Atomic d)
    (f : ε → δ) (events : List Event) : Atomic ⟨e.result.mapError f, e.disk, events⟩ d := by
  obtain ⟨result, disk, recorded⟩ := e
  intro hend
  cases result with
  | error fault => exact h (Or.inl ⟨fault, rfl⟩)
  | ok outcome =>
    cases outcome with
    | exit => exact h (Or.inr rfl)
    | done confirmation =>
      rcases hend with ⟨fault, hfault⟩ | hexit
      · cases hfault
      · cases hexit

namespace Disk

variable {d after : Disk} {source target : String} {fault : Fault}

theorem transfer_eq_ok {number : Nat} (h : d.tree.HoldsFile number) (other : Nat) :
    ∃ bytes, d.transfer number other = (.ok bytes.length, d.write other bytes) := by
  obtain ⟨bytes, hbytes⟩ := h
  exact ⟨bytes, by simp only [transfer, hbytes]⟩

/-- Copying bytes fails only before the target is opened. -/
theorem eq_of_copyBytes_eq_error (h : d.copyBytes source target = (.error fault, after)) :
    after = d := by
  unfold copyBytes at h
  split at h
  · cases h
    rfl
  · next number hread =>
    split at h
    · cases h
      rfl
    · next opened other hwrite =>
      -- The target has been emptied, so a failure from here on would show.
      have hfile : opened.tree.HoldsFile number :=
        holdsFile_of_openToWrite hwrite (holdsFile_of_openToRead hread)
      obtain ⟨bytes, htransfer⟩ := transfer_eq_ok hfile other
      rw [htransfer] at h
      cases h

/-- A copy that fails, also because it is refused, leaves the disk as it is. -/
theorem eq_of_copy_eq_error (h : d.copy source target = (.error fault, after)) : after = d := by
  unfold copy at h
  split at h
  · cases h
    rfl
  · cases h
    rfl
  · split at h
    · next cause disk hcopy =>
      cases h
      exact eq_of_copyBytes_eq_error hcopy
    · cases h

end Disk

namespace FileAction

variable {d after : Disk} {fault : Fault} {events : List Event}

theorem eq_of_settle_eq_error {path : String} {result : Except Fault Disk}
    (h : settle d path result = (.error fault, after)) : after = d := by
  cases result with
  | error e =>
    cases h
    rfl
  | ok disk => cases h

theorem eq_of_run_eq_error {a : FileAction} (h : a.run d = (.error fault, after, events)) :
    after = d := by
  cases a with
  -- Only a copy takes more than one operation of the disk.
  | copy source target =>
    simp only [run] at h
    split at h
    · next cause disk hcopy =>
      cases h
      exact Disk.eq_of_copy_eq_error hcopy
    · cases h
  | create path =>
    obtain ⟨hresult, hdisk⟩ := Prod.mk.inj h
    exact eq_of_settle_eq_error (Prod.ext hresult (Prod.mk.inj hdisk).1)
  | delete path =>
    obtain ⟨hresult, hdisk⟩ := Prod.mk.inj h
    exact eq_of_settle_eq_error (Prod.ext hresult (Prod.mk.inj hdisk).1)
  | rename source target =>
    obtain ⟨hresult, hdisk⟩ := Prod.mk.inj h
    exact eq_of_settle_eq_error (Prod.ext hresult (Prod.mk.inj hdisk).1)

end FileAction

/-- A command leaves the disk as it is unless it succeeds, whatever operands it has. -/
theorem Command.atomic_execute (c : Command) (root : String) (d : Disk) :
    (c.execute root d).Atomic d := by
  unfold Command.execute
  split
  · intro _
    rfl
  · intro _
    rfl
  · split
    · next fault disk events hrun =>
      intro _
      exact FileAction.eq_of_run_eq_error hrun
    · rintro (⟨fault, hfault⟩ | hexit)
      · cases hfault
      · cases hexit

theorem Line.atomic_execute (strict : Bool) (root line : String) (d : Disk) :
    (Line.execute strict root line d).Atomic d := by
  unfold Line.execute
  split
  · intro _
    rfl
  · next command _ => exact (command.atomic_execute root d).mapError failure _

/-- Whatever the tree and the root are, a command and a line that fail or end the session leave
the disk exactly as it was: its entries, what its objects hold, and which names share one. -/
theorem execute_atomic (root : String) (d : Disk) :
    (∀ c : Command, (∃ fault, (c.execute root d).result = .error fault) ∨
        (c.execute root d).result = .ok .exit → (c.execute root d).disk = d) ∧
    ∀ (strict : Bool) (line : String),
      (∃ diagnostic, (Line.execute strict root line d).result = .error diagnostic) ∨
        (Line.execute strict root line d).result = .ok .exit →
      (Line.execute strict root line d).disk = d :=
  ⟨fun c => c.atomic_execute root d, fun strict line => Line.atomic_execute strict root line d⟩

/-- A file with two names, and a link to one of them. -/
def Disk.linked : Disk where
  tree := {
    entries := [(["a"], .object 1), (["b"], .object 1), (["l"], .object 2)]
    objects := [(1, .file [112]), (2, .link "b")] }

/-- Copying a file onto a link to another name of it fails before the file is emptied. -/
theorem execute_atomic_linked :
    ((Command.execute ⟨.copy, ["a", "l"]⟩ "." Disk.linked).result =
        .error (.atPath "./a" .sameFile) ∧
      (Command.execute ⟨.copy, ["a", "l"]⟩ "." Disk.linked).disk = Disk.linked) ∧
    ((Line.execute false "." "exit now" Disk.linked).result = .ok .exit ∧
      (Line.execute false "." "exit now" Disk.linked).disk = Disk.linked) := by
  have hcommand : (Command.execute ⟨.copy, ["a", "l"]⟩ "." Disk.linked).result =
      .error (.atPath "./a" .sameFile) := rfl
  have hline : (Line.execute false "." "exit now" Disk.linked).result = .ok .exit := by
    with_unfolding_all rfl
  exact ⟨⟨hcommand, (execute_atomic "." Disk.linked).1 _ (Or.inl ⟨_, hcommand⟩)⟩,
    hline, (execute_atomic "." Disk.linked).2 _ _ (Or.inr hline)⟩

end FileShell

import FileShell.Proofs.Command.Execution
import FileShell.Proofs.Disk.Locality

/-!
# Independent commands

Two commands whose operands are apart can be executed in either order: each has the result it has
alone, and the disks afterwards are alike. A command is settled by what is seen at its operands
(`settled_execute`), the effect of the other one makes no difference to that, and effects on names
that are apart can change places. Main statement: `execute_commutes`.
-/

namespace FileShell

/-- Two disks that differ in the numbers of objects at most. -/
structure Disk.Alike (d other : Disk) : Prop where
  cwd_eq : d.cwd = other.cwd
  tree : d.tree.Alike other.tree

namespace Command

variable {d : Disk} {root : String} {top : Place} {c c' : Command}

theorem execute_of_plan {message : String} {action : FileAction}
    (hplan : c.plan root = .ok (.act action message)) (d : Disk) :
    ((c.execute root d).result, (c.execute root d).disk) =
      ((action.run d).1.map fun _ => .done message, (action.run d).2.1) := by
  simp only [execute, hplan]
  obtain ⟨result, disk, events⟩ := action.run d
  cases result with
  | error fault => rfl
  | ok done => rfl

theorem run_copy (source target : String) (d : Disk) :
    ((FileAction.copy source target).run d).1 = (d.copy source target).1.map (fun _ => ()) ∧
      ((FileAction.copy source target).run d).2.1 = (d.copy source target).2 := by
  rw [FileAction.run]
  obtain ⟨result, disk⟩ := d.copy source target
  cases result with
  | error fault => exact ⟨rfl, rfl⟩
  | ok count => exact ⟨rfl, rfl⟩

/-- What a command comes to depends on its operands only. -/
theorem settled_execute (hd : d.PlainNames root top c.operands)
    (hlen : c.operands.length = c.kind.arity) : d.Settled root top c.operands fun other =>
      ((c.execute root other).result, (c.execute root other).disk) := by
  rcases eq_of_length_operands hlen with rfl | ⟨name, rfl⟩ | ⟨name, rfl⟩ | ⟨source, target, rfl⟩ |
    ⟨source, target, rfl⟩
  · exact .of_eq (.ok .exit) fun other _ => rfl
  · have hexecute := @execute_of_plan root ⟨.create, [name]⟩ _ _ rfl
    simp only [hexecute]
    exact (Disk.settled_create hd (by simp)).map _
  · have hexecute := @execute_of_plan root ⟨.delete, [name]⟩ _ _ rfl
    simp only [hexecute]
    exact (Disk.settled_remove hd (by simp)).map _
  · have hexecute := @execute_of_plan root ⟨.copy, [source, target]⟩ _ _ rfl
    have hcopy : d.Settled root top [source, target] fun other =>
        other.copy (Path.join root source) (Path.join root target) :=
      Disk.settled_copy hd (by simp) (by simp)
    simp only [hexecute, run_copy]
    exact hcopy.map fun result =>
      (result.map fun _ => ()).map fun _ =>
        Outcome.done ("copied " ++ source ++ " -> " ++ target)
  · have hexecute := @execute_of_plan root ⟨.rename, [source, target]⟩ _ _ rfl
    simp only [hexecute]
    exact (Disk.settled_rename hd (by simp) (by simp)).map _

/-- On a plain root the order of two accepted commands does not matter if their operands are apart
and none of them is the name of a link. -/
theorem execute_commutes {strict strict' : Bool} {line line' : String}
    (hline : ofLine strict line = .ok c) (hline' : ofLine strict' line' = .ok c')
    (hroot : d.PlainRoot root top) (hapart : d.tree.Apart top c.operands c'.operands)
    (hlinks : ∀ name, name ∈ c.operands ∨ name ∈ c'.operands → ∀ number text,
      d.tree.view (top ++ [name]) ≠ some (.link number text)) :
    (c.execute root (c'.execute root d).disk).result = (c.execute root d).result ∧
    (c'.execute root (c.execute root d).disk).result = (c'.execute root d).result ∧
    (c'.execute root (c.execute root d).disk).disk.Alike
      (c.execute root (c'.execute root d).disk).disk := by
  have hd : d.PlainNames root top c.operands :=
    ⟨hroot, isComponent_of_ofLine hline, fun name hname => hlinks name (Or.inl hname)⟩
  have hd' : d.PlainNames root top c'.operands :=
    ⟨hroot, isComponent_of_ofLine hline', fun name hname => hlinks name (Or.inr hname)⟩
  obtain ⟨result, e, he, hrun⟩ := settled_execute hd (length_operands_of_ofLine hline)
  obtain ⟨result', e', he', hrun'⟩ := settled_execute hd' (length_operands_of_ofLine hline')
  simp only [Prod.mk.injEq] at hrun hrun'
  obtain ⟨hresult, hdisk⟩ := hrun d hd.looksLike_self
  obtain ⟨hresult', hdisk'⟩ := hrun' d hd'.looksLike_self
  -- After the other command the disk still looks the same to each of them.
  obtain ⟨hlater, hlast⟩ := hrun _ (hd.looksLike_on he' hapart.symm)
  obtain ⟨hlater', hlast'⟩ := hrun' _ (hd'.looksLike_on he hapart)
  rw [hdisk, hdisk', hlater, hlater', hlast, hlast', hresult, hresult']
  exact ⟨rfl, rfl, rfl, he.alike_on_on he' hapart⟩

/-- A directory that is the current one, with two files. -/
def sorted : Disk where
  tree := {
    entries := [(["r"], .directory), (["r", "a"], .object 1), (["r", "b"], .object 2)]
    objects := [(1, .file [97]), (2, .file [98])] }
  cwd := ["r"]

/-- Both commands make a file, and which of the files has which number depends on the order. -/
theorem execute_commutes_sorted :
    (execute ⟨.copy, ["a", "n"]⟩ "." sorted).result = .ok (.done "copied a -> n") ∧
    (execute ⟨.create, ["m"]⟩ "." (execute ⟨.copy, ["a", "n"]⟩ "." sorted).disk).result =
      (execute ⟨.create, ["m"]⟩ "." sorted).result ∧
    (execute ⟨.create, ["m"]⟩ "." (execute ⟨.copy, ["a", "n"]⟩ "." sorted).disk).disk.Alike
      (execute ⟨.copy, ["a", "n"]⟩ "." (execute ⟨.create, ["m"]⟩ "." sorted).disk).disk ∧
    (execute ⟨.create, ["m"]⟩ "." (execute ⟨.copy, ["a", "n"]⟩ "." sorted).disk).disk ≠
      (execute ⟨.copy, ["a", "n"]⟩ "." (execute ⟨.create, ["m"]⟩ "." sorted).disk).disk := by
  have hcopy : ofLine false "copy file a to n" = .ok ⟨.copy, ["a", "n"]⟩ := by
    with_unfolding_all rfl
  have hcreate : ofLine false "create file m" = .ok ⟨.create, ["m"]⟩ := by
    with_unfolding_all rfl
  have hapart : sorted.tree.Apart ["r"] ["a", "n"] ["m"] := by
    refine ⟨by decide, ?_⟩
    rintro name - other hother ⟨number, -, hentry⟩
    rw [List.mem_singleton.mp hother] at hentry
    cases hentry
  have hlinks : ∀ name, name ∈ ["a", "n"] ∨ name ∈ ["m"] → ∀ number text,
      sorted.tree.view (["r"] ++ [name]) ≠ some (.link number text) := by
    intro name hname number text hview
    have hname : name = "a" ∨ name = "n" ∨ name = "m" := by simpa [or_assoc] using hname
    rcases hname with rfl | rfl | rfl
    · cases hview
    · cases hview
    · cases hview
  obtain ⟨-, hresult, halike⟩ :=
    execute_commutes hcopy hcreate sorted.plainRoot_here hapart hlinks
  exact ⟨by decide +kernel, hresult, halike, by decide +kernel⟩

end Command

end FileShell

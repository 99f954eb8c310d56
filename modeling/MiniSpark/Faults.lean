import MiniSpark.PlanExecution

/-!
# Attempts that fail and files that are lost

A fault plan says, attempt by attempt, which files are gone or corrupted and
whether the attempt fails for a reason of its own. Every attempt has its own view
of the damage, so the tasks of a batch may run in any order and side by side.
Corrupted bytes never have the checksum of what was written.
-/
namespace MiniSpark

variable {F : Type} [PyRuntime F] [PyHost F]

section Views

/-- What has become of a file. -/
inductive FileFault (F : Type) [PyRuntime F] [PyHost F]
  | deleted
  | corrupted (raw : PyHost.Bytes F)

/-- The files an attempt finds. Bytes that would pass the md5 check are not a corruption. -/
def damagedDisk (faults : Path → Option (FileFault F)) (disk : Disk F) : Disk F := fun path =>
  match faults path, disk path with
  | none, content => content
  | some _, none => none
  | some .deleted, some _ => none
  | some (.corrupted raw), some intact =>
      if PyHost.md5Hex raw = PyHost.md5Hex intact then some intact else some raw

/-- A file is as it was written, or gone, or fails its check. -/
def Damaged (disk seen : Disk F) : Prop :=
  ∀ path, seen path = disk path ∨ seen path = none ∨
    ∃ raw intact, seen path = some raw ∧ disk path = some intact ∧
      PyHost.md5Hex raw ≠ PyHost.md5Hex intact

theorem Damaged.refl (disk : Disk F) : Damaged disk disk := fun _ => Or.inl rfl

theorem damagedDisk_damaged (faults : Path → Option (FileFault F)) (disk : Disk F) :
    Damaged disk (damagedDisk faults disk) := by
  intro path
  unfold damagedDisk
  split
  · exact Or.inl rfl
  · exact Or.inr (Or.inl rfl)
  · exact Or.inr (Or.inl rfl)
  · next raw intact _ hc =>
      split
      · exact Or.inl hc.symm
      · next hne => exact Or.inr (Or.inr ⟨raw, intact, rfl, hc, hne⟩)

/-- No file is lost. -/
def NoneLost : Path → Prop := fun _ => False

/-- A damaged block is read as it was written or not at all. -/
lemma readBlock_damaged {disk seen : Disk F} (h : Damaged disk seen) {block : ShuffleBlockMeta}
    {rows : List (Record F)} (hb : Holds NoneLost disk block rows) :
    ExceptList.FailsOr (readBlock seen block) (.ok rows) := by
  have hdisk : disk block.path = some (PyHost.pickle rows) := hb.2 (fun hlost => hlost)
  obtain hseen | hseen | ⟨raw, intact, hseen, hintact, hne⟩ := h block.path
  · right
    rw [readBlock, hseen, hdisk]
    simp [hb.1, PyHost.unpickle_pickle]
  · left
    exact ⟨_, by rw [readBlock, hseen]⟩
  · left
    rw [hdisk, Option.some.injEq] at hintact
    exact ⟨.shuffleChecksumError, by simp [readBlock, hseen, hb.1, hintact, hne]⟩

end Views

section Attempts

/-- Is the path a block file of the task? -/
def Task.ownsFile (task : Task F) (path : Path) : Bool :=
  path[1]? == some ("stage_" ++ toString task.stageId) &&
    path[3]? == some ("block_" ++ toString task.taskId ++ ".pkl")

omit [PyRuntime F] [PyHost F] in
lemma ownsFile_blockPath {task : Task F} {root : String} {stageId taskId target : ℕ} :
    task.ownsFile (blockPath root stageId taskId target) = true ↔
      stageId = task.stageId ∧ taskId = task.taskId := by
  simp only [Task.ownsFile, blockPath, List.getElem?_cons_succ, List.getElem?_cons_zero,
    Bool.and_eq_true, beq_iff_eq, Option.some.injEq, String.append_right_inj, String.append_left_inj]
  constructor
  · rintro ⟨hs, ht⟩
    exact ⟨toString_nat_inj hs, toString_nat_inj ht⟩
  · rintro ⟨rfl, rfl⟩
    exact ⟨rfl, rfl⟩

/-- A failure of the attempt itself: its error, and what it leaves in its own files. -/
structure Crash (F : Type) [PyRuntime F] [PyHost F] where
  error : PyError
  leftover : Disk F

/-- What happens to one attempt. -/
structure Fault (F : Type) [PyRuntime F] [PyHost F] where
  files : Path → Option (FileFault F)
  crash : Option (Crash F)

/-- The files as last written, and the number of attempts so far. -/
structure FaultyWorld (F : Type) [PyRuntime F] [PyHost F] where
  disk : Disk F
  attempts : ℕ

/-- `execute_task` under a fault plan. An attempt changes no files but its own. -/
def faultyTask (faults : ℕ → Fault F) (task : Task F) (attempt : ℕ) (w : FaultyWorld F) :
    TaskResult F × FaultyWorld F :=
  let fault := faults w.attempts
  let outcome := match fault.crash with
    | none => executeTask task attempt (damagedDisk fault.files w.disk)
    | some crash => (failedResult task.taskId crash.error, crash.leftover)
  (outcome.1, ⟨fun path => if task.ownsFile path then outcome.2 path else w.disk path,
    w.attempts + 1⟩)

end Attempts

end MiniSpark

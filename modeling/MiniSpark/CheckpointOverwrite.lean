import MiniSpark.Checkpoint
import MiniSpark.Patching

/-!
# Overwriting a checkpoint

The files of the old checkpoint are overwritten in place and its metadata stays until the very
end. A write that stops early leaves the old partition list over a mixture of files, unless
what was lost and what took its place happen to be the same rows.
-/
namespace MiniSpark

open SelfDelimiting Patching

section Stops

variable {F : Type} [PyPickle F]

/-- The files after the operations of a program stopped early: between two operations, or in the
middle of a write. -/
inductive Interrupted (ops : List (FileOp F)) (files : Files F) : Files F → Prop
  | between {before after : List (FileOp F)} {op : FileOp F} : ops = before ++ op :: after →
      Interrupted ops files (files.after before)
  | within {before after : List (FileOp F)} {path : Path} {piece missing : List (PyPickle.Byte F)} :
      ops = before ++ .append path (piece ++ missing) :: after → missing ≠ [] →
      Interrupted ops files (files.after (before ++ [.append path piece]))

variable (root : String) (d : Contents F)

/-- Where a write of `d` stops short of its end: between two files, while a row is written, or
while the metadata is written. -/
inductive Stop
  | betweenFiles (done rest : List (ℕ × List (Record F))) (split : d.parts = done ++ rest)
  | inPartition (done : List (ℕ × List (Record F))) (id : ℕ) (written : List (Record F))
      (row : Record F) (left : List (Record F)) (rest : List (ℕ × List (Record F)))
      (piece : List (PyPickle.Byte F)) (split : d.parts = done ++ (id, written ++ row :: left) :: rest)
      (torn : PyPickle.record.Torn row piece)
  | inMetadata (piece missing : List (PyPickle.Byte F)) (torn : missing ≠ [])
      (split : metadataBytes root d.schema d.parts = piece ++ missing)

namespace Stop

variable {root d}

/-- The operations carried out before the stop. -/
def ops : Stop root d → List (FileOp F)
  | betweenFiles done _ _ => done.flatMap (partitionOps root)
  | inPartition done id written _ _ _ piece _ _ =>
      (done ++ [(id, written)]).flatMap (partitionOps root) ++
        [.append (partitionPath root id) piece]
  | inMetadata piece _ _ _ =>
      d.parts.flatMap (partitionOps root) ++
        [.create (metaPath root), .append (metaPath root) piece]

/-- The rows written by then, file by file. -/
def written : Stop root d → List (ℕ × List (Record F))
  | betweenFiles done _ _ => done
  | inPartition done id written _ _ _ _ _ _ => done ++ [(id, written)]
  | inMetadata _ _ _ _ => d.parts

/-- The rows not written by then. -/
def unwritten : Stop root d → List (Record F)
  | betweenFiles _ rest _ => elements rest
  | inPartition _ _ _ row left rest _ _ _ => row :: left ++ elements rest
  | inMetadata _ _ _ _ => []

def OpensMetadata : Stop root d → Prop
  | inMetadata _ _ _ _ => True
  | _ => False

/-- Reading the metadata, or a file of `old`, fails at a piece of an object. -/
def BreaksReading (old : Contents F) : Stop root d → Prop
  | betweenFiles _ _ _ => False
  | inPartition _ id _ _ _ _ piece _ _ => id ∈ old.ids ∧ PyPickle.record.Spoils piece
  | inMetadata _ _ _ _ => True

end Stop

end Stops

section Points

variable {F : Type} [PyPickle F] {root : String} {d : Contents F} {files files' : Files F}

/-- Where an element of a flattened list with a tail stands. -/
lemma flatMap_split {α β : Type} {f : α → List β} {xs : List α} {tail before after : List β} {b : β}
    (h : xs.flatMap f ++ tail = before ++ b :: after) :
    (∃ bs, before = xs.flatMap f ++ bs ∧ tail = bs ++ b :: after) ∨
      ∃ done x rest bs bs', xs = done ++ x :: rest ∧ before = done.flatMap f ++ bs ∧
        f x = bs ++ b :: bs' := by
  induction xs generalizing before with
  | nil => exact Or.inl ⟨before, rfl, h⟩
  | cons x xs ih =>
      rw [List.flatMap_cons, List.append_assoc] at h
      rcases List.append_eq_append_iff.mp h with ⟨bs, rfl, hrest⟩ | ⟨bs, hx, hrest⟩
      · obtain ⟨bs', rfl, htail⟩ | ⟨done, y, rest, bs', bs'', rfl, rfl, hy⟩ := ih hrest
        · exact Or.inl ⟨bs', by simp, htail⟩
        · exact Or.inr ⟨x :: done, y, rest, bs', bs'', rfl, by simp, hy⟩
      · cases bs with
        | nil =>
            rw [List.append_nil] at hx
            obtain ⟨bs', hnil, htail⟩ | ⟨done, y, rest, bs', bs'', rfl, hnil, hy⟩ :=
              ih (show xs.flatMap f ++ tail = [] ++ b :: after from hrest.symm)
            · exact Or.inl ⟨bs', by rw [List.flatMap_cons, List.append_assoc, ← hnil, hx,
                List.append_nil], htail⟩
            · exact Or.inr ⟨x :: done, y, rest, bs', bs'', rfl, by rw [List.flatMap_cons,
                List.append_assoc, ← hnil, hx, List.append_nil], hy⟩
        | cons b' bs =>
            obtain ⟨rfl, -⟩ := List.cons.inj hrest
            exact Or.inr ⟨[], x, xs, before, bs, rfl, rfl, hx⟩

/-- The operations before an operation of a write. -/
inductive OpAt (root : String) (d : Contents F) : List (FileOp F) → FileOp F → Prop
  | file {done rest : List (ℕ × List (Record F))} {part : ℕ × List (Record F)} :
      d.parts = done ++ part :: rest →
      OpAt root d (done.flatMap (partitionOps root)) (.create (partitionPath root part.1))
  | row {done rest : List (ℕ × List (Record F))} {id : ℕ} {written left : List (Record F)}
      {row : Record F} : d.parts = done ++ (id, written ++ row :: left) :: rest →
      OpAt root d ((done ++ [(id, written)]).flatMap (partitionOps root))
        (.append (partitionPath root id) (PyPickle.record.encode row))
  | metadataFile : OpAt root d (d.parts.flatMap (partitionOps root)) (.create (metaPath root))
  | metadata : OpAt root d (d.parts.flatMap (partitionOps root) ++ [.create (metaPath root)])
      (.append (metaPath root) (metadataBytes root d.schema d.parts))

lemma opAt_of_split {before after : List (FileOp F)} {op : FileOp F}
    (h : checkpointOps root d.schema d.parts = before ++ op :: after) : OpAt root d before op := by
  obtain ⟨bs, rfl, htail⟩ | ⟨done, ⟨id, rows⟩, rest, bs, bs', hparts, rfl, hpart⟩ := flatMap_split h
  · cases bs with
    | nil =>
        obtain ⟨rfl, -⟩ := List.cons.inj htail
        rw [List.append_nil]
        exact .metadataFile
    | cons b bs =>
        obtain ⟨rfl, hlast⟩ := List.cons.inj htail
        cases bs with
        | nil =>
            obtain ⟨rfl, -⟩ := List.cons.inj hlast
            exact .metadata
        | cons b bs => simp at hlast
  · cases bs with
    | nil =>
        obtain ⟨rfl, -⟩ := List.cons.inj hpart
        rw [List.append_nil]
        exact .file hparts
    | cons b bs =>
        obtain ⟨rfl, hrows⟩ := List.cons.inj hpart
        obtain ⟨written, left, rfl, rfl, hleft⟩ := List.map_eq_append_iff.mp hrows
        obtain ⟨row, left, rfl, rfl, -⟩ := List.map_eq_cons_iff.mp hleft
        have hbefore : done.flatMap (partitionOps root) ++
            .create (partitionPath root (id, written ++ row :: left).1) ::
              written.map (fun r => .append (partitionPath root (id, written ++ row :: left).1)
                (PyPickle.record.encode r)) =
            (done ++ [(id, written)]).flatMap (partitionOps root) := by
          simp [partitionOps]
        rw [hbefore]
        exact .row hparts

lemma split_of_opAt {before : List (FileOp F)} {op : FileOp F} (h : OpAt root d before op) :
    ∃ after, checkpointOps root d.schema d.parts = before ++ op :: after := by
  unfold checkpointOps
  cases h with
  | file hparts =>
      rw [hparts]
      exact ⟨_, by
        simp only [List.flatMap_append, List.flatMap_cons, partitionOps, List.append_assoc,
          List.cons_append]
        rfl⟩
  | row hparts =>
      rw [hparts]
      exact ⟨_, by
        simp only [List.flatMap_append, List.flatMap_cons, partitionOps, List.map_append,
          List.map_cons, List.append_assoc, List.cons_append, List.flatMap_nil, List.append_nil]
        rfl⟩
  | metadataFile => exact ⟨_, rfl⟩
  | metadata => exact ⟨[], by simp [metadataOps]⟩

/-- Writing nothing changes nothing. -/
lemma after_append_nil (ops : List (FileOp F)) (path : Path) :
    files.after (ops ++ [.append path []]) = files.after ops := by
  rw [Files.after_append]
  funext p
  by_cases hp : p = path
  · simp [Files.after, FileOp.run, hp]
  · simp [Files.after, FileOp.run, hp]

lemma metadataBytes_ne_nil (root : String) (schema : Schema) (parts : List (ℕ × List (Record F))) :
    metadataBytes root schema parts ≠ [] := Codec.encode_ne_nil _

/-- The stops are the points at which a write can be interrupted. -/
theorem interrupted_iff :
    Interrupted (checkpointOps root d.schema d.parts) files files' ↔
      ∃ stop : Stop root d, files' = files.after stop.ops := by
  constructor
  · rintro (@⟨before, after, op, hsplit⟩ | @⟨before, after, path, piece, missing, hsplit, hmissing⟩)
    · cases opAt_of_split hsplit with
      | file hparts => exact ⟨.betweenFiles _ _ hparts, rfl⟩
      | row hparts =>
          refine ⟨.inPartition _ _ _ _ _ _ [] hparts ⟨_, Codec.encode_ne_nil _, rfl⟩, ?_⟩
          exact (after_append_nil _ _).symm
      | metadataFile => exact ⟨.betweenFiles d.parts [] (List.append_nil _).symm, rfl⟩
      | metadata =>
          refine ⟨.inMetadata [] _ (metadataBytes_ne_nil _ _ _) rfl, ?_⟩
          have hnil : files.after (d.parts.flatMap (partitionOps root) ++
              [.create (metaPath root)] ++ [.append (metaPath root) []]) = _ :=
            after_append_nil _ _
          rw [List.append_assoc] at hnil
          exact hnil.symm
    · generalize hop : FileOp.append path (piece ++ missing) = op at hsplit
      cases opAt_of_split hsplit with
      | file hparts => cases hop
      | metadataFile => cases hop
      | row hparts =>
          obtain ⟨rfl, hencode⟩ := FileOp.append.inj hop
          exact ⟨.inPartition _ _ _ _ _ _ piece hparts ⟨missing, hmissing, hencode.symm⟩, rfl⟩
      | metadata =>
          obtain ⟨rfl, hencode⟩ := FileOp.append.inj hop
          refine ⟨.inMetadata piece missing hmissing hencode.symm, ?_⟩
          simp [Stop.ops]
  · rintro ⟨stop, rfl⟩
    cases stop with
    | betweenFiles done rest hparts =>
        cases rest with
        | nil =>
            obtain ⟨after, hsplit⟩ := split_of_opAt (.metadataFile : OpAt root d _ _)
            have hdone : d.parts = done := by rw [hparts, List.append_nil]
            rw [Stop.ops, ← hdone]
            exact .between hsplit
        | cons part rest =>
            obtain ⟨after, hsplit⟩ := split_of_opAt (.file hparts : OpAt root d _ _)
            exact .between hsplit
    | inPartition done id written row left rest piece hparts htorn =>
        obtain ⟨missing, hmissing, hencode⟩ := htorn
        obtain ⟨after, hsplit⟩ := split_of_opAt (.row hparts : OpAt root d _ _)
        rw [hencode] at hsplit
        exact .within hsplit hmissing
    | inMetadata piece missing hmissing hencode =>
        obtain ⟨after, hsplit⟩ := split_of_opAt (.metadata : OpAt root d _ _)
        rw [hencode] at hsplit
        have hops : (Stop.inMetadata piece missing hmissing hencode).ops =
            (d.parts.flatMap (partitionOps root) ++ [.create (metaPath root)]) ++
              [.append (metaPath root) piece] := by simp [Stop.ops]
        rw [hops]
        exact .within hsplit hmissing

end Points

section Leftovers

variable {F : Type} [PyPickle F] {root : String} {d : Contents F} {files : Files F}

namespace Stop

/-- The piece of a row at the end of a file. -/
def tail (id : ℕ) : Stop root d → List (PyPickle.Byte F)
  | betweenFiles _ _ _ => []
  | inPartition _ torn _ _ _ _ piece _ _ => if id = torn then piece else []
  | inMetadata _ _ _ _ => []

lemma written_nodup (stop : Stop root d) : (keys stop.written).Nodup := by
  have hdistinct := d.distinct
  cases stop with
  | betweenFiles done rest hparts =>
      rw [hparts, List.map_append] at hdistinct
      exact hdistinct.of_append_left
  | inPartition done id written row left rest piece hparts htorn =>
      have hkeys : d.parts.map Prod.fst = keys (done ++ [(id, written)]) ++ rest.map Prod.fst := by
        simp [hparts, keys]
      rw [hkeys] at hdistinct
      exact hdistinct.of_append_left
  | inMetadata piece missing hmissing hencode => exact hdistinct

/-- What is to be written is what was written and what was not. -/
lemma elements_written (stop : Stop root d) :
    d.rows = elements stop.written ++ stop.unwritten := by
  cases stop with
  | betweenFiles done rest hparts => simp [Contents.rows, elements, written, unwritten, hparts]
  | inPartition done id written' row left rest piece hparts htorn =>
      simp [Contents.rows, elements, written, unwritten, hparts]
  | inMetadata piece missing hmissing hencode =>
      simp [Contents.rows, elements, written, unwritten]

/-- A file the write has reached. -/
lemma after_ops_of_mem (stop : Stop root d) {part : ℕ × List (Record F)}
    (h : part ∈ stop.written) :
    (files.after stop.ops) (partitionPath root part.1) =
      some (rowBytes part.2 ++ stop.tail part.1) := by
  have hwritten : (files.after (stop.written.flatMap (partitionOps root)))
      (partitionPath root part.1) = some (rowBytes part.2) :=
    after_parts_of_mem stop.written_nodup h
  cases stop with
  | betweenFiles done rest hparts =>
      rw [tail, List.append_nil]
      exact hwritten
  | inPartition done id written row left rest piece hparts htorn =>
      rw [ops, Files.after_append, tail]
      by_cases hid : part.1 = id
      · subst hid
        simp only [Files.after, List.foldl_cons, List.foldl_nil, FileOp.run, if_true]
        exact congrArg (Option.map (· ++ piece)) hwritten
      · have hpath : partitionPath root part.1 ≠ partitionPath root id :=
          fun he => hid (partitionPath_inj.mp he)
        simp only [Files.after, List.foldl_cons, List.foldl_nil, FileOp.run, if_neg hpath,
          if_neg hid, List.append_nil]
        exact hwritten
  | inMetadata piece missing hmissing hencode =>
      have hpath := partitionPath_ne_metaPath root part.1
      rw [ops, Files.after_append, tail, List.append_nil]
      simp only [Files.after, List.foldl_cons, List.foldl_nil, FileOp.run, if_neg hpath]
      exact hwritten

/-- A path the write has not reached. -/
lemma after_ops_of_ne (stop : Stop root d) {p : Path} (hmeta : p ≠ metaPath root)
    (h : ∀ part ∈ stop.written, p ≠ partitionPath root part.1) :
    (files.after stop.ops) p = files p := by
  have hwritten : (files.after (stop.written.flatMap (partitionOps root))) p = files p :=
    after_parts_of_ne h
  cases stop with
  | betweenFiles done rest hparts => exact hwritten
  | inPartition done id written row left rest piece hparts htorn =>
      have hpath : p ≠ partitionPath root id := h (id, written) (by simp [Stop.written])
      rw [ops, Files.after_append]
      simp only [Files.after, List.foldl_cons, List.foldl_nil, FileOp.run, if_neg hpath]
      exact hwritten
  | inMetadata piece missing hmissing hencode =>
      rw [ops, Files.after_append]
      simp only [Files.after, List.foldl_cons, List.foldl_nil, FileOp.run, if_neg hmeta]
      exact hwritten

end Stop

end Leftovers

section Reading

variable {F : Type} [PyPickle F] [PyRuntime F]

/-- Open the directory and read every row. -/
def readBack (root : String) (files : Files F) : Py (List (Record F)) := do
  let source ← CheckpointDataSource.make root files
  let dataset ← source.read files none
  dataset.iterRecords

variable {root : String} {old new : Contents F} {files : Files F}

omit [PyRuntime F] in
lemma readCheckpointPartition_none {path : Path} {rows : List (Record F)}
    {tail : List (PyPickle.Byte F)} (h : files path = some (rowBytes rows ++ tail)) :
    readCheckpointPartition files path none =
      (do let left ← PyPickle.record.readEach (restrictRecord none) tail; pure (rows ++ left)) := by
  have hrows : rows.mapM (restrictRecord none) = .ok rows := by
    have hmap := ExceptList.mapM_ok_of_forall (f := restrictRecord none) (g := id)
      (fun r (_ : r ∈ rows) => rfl)
    rwa [List.map_id] at hmap
  unfold readCheckpointPartition
  rw [h]
  simp only [rowBytes, Codec.readEach_encode, hrows, ExceptList.bind_ok]

/-- Under the old metadata each partition reads the file under its id. -/
lemma readBack_of_metadata
    (h : files (metaPath root) = some (metadataBytes root old.schema old.parts)) :
    readBack root files = List.flatten <$> old.parts.mapM
      (fun part => readCheckpointPartition files (partitionPath root part.1) none) := by
  unfold readBack
  rw [make_of_metadata h, ExceptList.bind_ok]
  simp only [CheckpointDataSource.read, Schema.requested, ExceptList.bind_ok,
    ExceptList.pure_eq_ok, CheckpointDataSource.dataset, Dataset.iterRecords, List.map_map,
    List.mapM_map]
  rfl

omit [PyRuntime F] in
/-- Without the metadata opened, the metadata is the old one. -/
lemma Stop.metadata_eq (stop : Stop root new) (h : ¬ stop.OpensMetadata) :
    (files.after stop.ops) (metaPath root) = files (metaPath root) := by
  have hpaths : ∀ parts : List (ℕ × List (Record F)), ∀ part ∈ parts,
      metaPath root ≠ partitionPath root part.1 :=
    fun _ part _ => (partitionPath_ne_metaPath root part.1).symm
  cases stop with
  | betweenFiles done rest hparts => exact after_parts_of_ne (hpaths done)
  | inPartition done id written row left rest piece hparts htorn =>
      have hpath : metaPath root ≠ partitionPath root id := (partitionPath_ne_metaPath root id).symm
      rw [Stop.ops, Files.after_append]
      simp only [Files.after, List.foldl_cons, List.foldl_nil, FileOp.run, if_neg hpath]
      exact after_parts_of_ne (hpaths (done ++ [(id, written)]))
  | inMetadata piece missing hmissing hencode => exact absurd trivial h

omit [PyRuntime F] in
lemma Stop.not_opensMetadata {stop : Stop root new} (h : ¬ stop.BreaksReading old) :
    ¬ stop.OpensMetadata := by
  cases stop with
  | betweenFiles done rest hparts => exact id
  | inPartition done id written row left rest piece hparts htorn => exact fun hopens => hopens
  | inMetadata piece missing hmissing hencode => exact h

omit [PyRuntime F] in
/-- A piece of a row that does not break the reading is taken for the end of the file. -/
lemma Stop.readEach_tail {id : ℕ} (stop : Stop root new) (hid : id ∈ old.ids)
    (h : ¬ stop.BreaksReading old) :
    PyPickle.record.readEach (restrictRecord none) (stop.tail id) = (.ok [] : Py (List (Record F))) := by
  cases stop with
  | betweenFiles done rest hparts => exact Codec.readEach_nil
  | inPartition done torn written row left rest piece hparts htorn =>
      by_cases he : id = torn
      · subst he
        rw [Stop.tail, if_pos rfl]
        exact htorn.readEach (fun hspoils => h ⟨hid, hspoils⟩)
      · rw [Stop.tail, if_neg he]
        exact Codec.readEach_nil
  | inMetadata piece missing hmissing hencode => exact Codec.readEach_nil

omit [PyRuntime F] in
/-- A partition of the old metadata reads the new rows of its file, or the old ones. -/
lemma Stop.readPartition (stop : Stop root new) (hstored : old.StoredIn root files)
    (h : ¬ stop.BreaksReading old) {part : ℕ × List (Record F)} (hpart : part ∈ old.parts) :
    readCheckpointPartition (files.after stop.ops) (partitionPath root part.1) none =
      .ok ((stop.written.lookup part.1).getD part.2) := by
  by_cases hmem : part.1 ∈ keys stop.written
  · obtain ⟨rows, pre, post, hlookup, hwritten⟩ := lookup_eq_some hmem
    have hin : (part.1, rows) ∈ stop.written := by rw [hwritten]; simp
    rw [readCheckpointPartition_none (stop.after_ops_of_mem hin),
      stop.readEach_tail (List.mem_map_of_mem hpart) h, hlookup]
    simp
  · have hpath : ∀ q ∈ stop.written, partitionPath root part.1 ≠ partitionPath root q.1 :=
      fun q hq he => hmem (partitionPath_inj.mp he ▸ List.mem_map_of_mem hq)
    have hfile : (files.after stop.ops) (partitionPath root part.1) = _ :=
      stop.after_ops_of_ne (partitionPath_ne_metaPath root part.1) hpath
    rw [hstored.partition part hpart, ← List.append_nil (rowBytes part.2)] at hfile
    rw [readCheckpointPartition_none hfile, Codec.readEach_nil, lookup_eq_none hmem]
    simp

/-- The old partition list over the files as the stop left them. -/
theorem readBack_of_not_breaks (hstored : old.StoredIn root files) (stop : Stop root new)
    (h : ¬ stop.BreaksReading old) :
    readBack root (files.after stop.ops) = .ok (patched stop.written old.parts) := by
  have hmeta : (files.after stop.ops) (metaPath root) =
      some (metadataBytes root old.schema old.parts) :=
    (stop.metadata_eq (Stop.not_opensMetadata h)).trans hstored.metadata
  rw [readBack_of_metadata hmeta,
    ExceptList.mapM_ok_of_forall (fun part hpart => stop.readPartition hstored h hpart)]
  simp [patched, List.flatMap]

theorem readBack_of_breaks (hstored : old.StoredIn root files) (stop : Stop root new)
    (h : stop.BreaksReading old) : ∃ e, readBack root (files.after stop.ops) = .error e := by
  cases stop with
  | betweenFiles done rest hparts => exact h.elim
  | inPartition done id written row left rest piece hparts htorn =>
      obtain ⟨hid, e, hdecode⟩ := h
      obtain ⟨part, hpart, rfl⟩ := List.mem_map.mp hid
      let stop : Stop root new :=
        .inPartition done part.1 written row left rest piece hparts htorn
      have hmeta : (files.after stop.ops) (metaPath root) =
          some (metadataBytes root old.schema old.parts) :=
        (stop.metadata_eq id).trans hstored.metadata
      have hmem : (part.1, written) ∈ stop.written := List.mem_append_right _ List.mem_cons_self
      have hfile : (files.after stop.ops) (partitionPath root part.1) =
          some (rowBytes written ++ stop.tail part.1) := stop.after_ops_of_mem hmem
      have htail : stop.tail part.1 = piece := if_pos rfl
      rw [htail] at hfile
      have hread := readCheckpointPartition_none hfile
      rw [Codec.readEach_invalid hdecode, ExceptList.bind_error] at hread
      change ∃ e, readBack root (files.after stop.ops) = .error e
      rw [readBack_of_metadata hmeta]
      cases hmap : old.parts.mapM (fun part =>
          readCheckpointPartition (files.after stop.ops) (partitionPath root part.1) none) with
      | error e => exact ⟨e, rfl⟩
      | ok rows =>
          obtain ⟨b, -, hb⟩ := ExceptList.mapM_ok_mem hmap hpart
          rw [hread] at hb
          cases hb
  | inMetadata piece missing hmissing hencode =>
      have hfile : (files.after (Stop.inMetadata piece missing hmissing hencode).ops)
          (metaPath root) = some piece := by
        rw [Stop.ops, Files.after_append]
        simp [Files.after, FileOp.run]
      have htorn : PyPickle.metadata.Torn _ piece := ⟨missing, hmissing, hencode⟩
      unfold readBack CheckpointDataSource.make
      rw [hfile]
      rcases htorn.decode with hend | ⟨e, hinvalid⟩
      · exact ⟨_, by simp only [hend]; rfl⟩
      · exact ⟨e, by simp only [hinvalid]; rfl⟩

end Reading

section Mixtures

variable {F : Type} [PyPickle F] [PyRuntime F] {root : String} {old new : Contents F}
  {files : Files F}

/-- Reading fails, or gives the rows of one of the two. -/
def ReadsOldOrNew (root : String) (old new : Contents F) (files : Files F) : Prop :=
  ∀ rows, readBack root files = .ok rows → rows.Perm old.rows ∨ rows.Perm new.rows

/-- Reading is bound to fail; or the old rows in the files written so far are the new rows written
to files of the old checkpoint; or the old rows in the other files are the new rows which were
not written yet, or to files the old checkpoint does not know. -/
def Stop.Harmless (old : Contents F) (stop : Stop root new) : Prop :=
  stop.BreaksReading old ∨
    (elements (within (keys stop.written) old.parts)).Perm
      (elements (within old.ids stop.written)) ∨
    (elements (outside (keys stop.written) old.parts)).Perm
      (elements (outside old.ids stop.written) ++ stop.unwritten)

/-- A write that stops early leaves no mixture exactly when the stop is harmless. -/
theorem readsOldOrNew_iff (hstored : old.StoredIn root files) (stop : Stop root new) :
    ReadsOldOrNew root old new (files.after stop.ops) ↔ stop.Harmless old := by
  by_cases hbreaks : stop.BreaksReading old
  · obtain ⟨e, he⟩ := readBack_of_breaks hstored stop hbreaks
    refine iff_of_true (fun rows hrows => ?_) (Or.inl hbreaks)
    rw [he] at hrows
    cases hrows
  have hread := readBack_of_not_breaks hstored stop hbreaks
  have hpatched := patched_perm stop.written_nodup (show (keys old.parts).Nodup from old.distinct)
  -- The rows of both sides, split by the files the write has reached.
  have hold := (List.perm_append_comm.trans
    (elements_within_outside (keys stop.written) old.parts)).symm
  have hnew : new.rows.Perm (elements (within old.ids stop.written) ++
      (elements (outside old.ids stop.written) ++ stop.unwritten)) := by
    rw [stop.elements_written, ← List.append_assoc]
    exact (elements_within_outside old.ids stop.written).symm.append_right _
  have hold_iff : (patched stop.written old.parts).Perm old.rows ↔
      (elements (within (keys stop.written) old.parts)).Perm
        (elements (within old.ids stop.written)) := by
    rw [hpatched.congr_left, Contents.rows]
    exact (hold.congr_right _).trans ((List.perm_append_left_iff _).trans List.perm_comm)
  have hnew_iff : (patched stop.written old.parts).Perm new.rows ↔
      (elements (outside (keys stop.written) old.parts)).Perm
        (elements (outside old.ids stop.written) ++ stop.unwritten) := by
    rw [(hpatched.trans List.perm_append_comm).congr_left]
    exact (hnew.congr_right _).trans (List.perm_append_left_iff _)
  constructor
  · intro h
    exact Or.inr ((h _ hread).imp hold_iff.mp hnew_iff.mp)
  · intro h rows hrows
    cases hread.symm.trans hrows
    exact (h.resolve_left hbreaks).imp hold_iff.mpr hnew_iff.mpr

/-- A row for each number. -/
def numberRows (numbers : List ℤ) : List (Record ℚ) :=
  numbers.map (fun i => OrderedDict.ofList [("x", .int i)])

/-- Two partitions of one column. -/
def twoParts (first second : List ℤ) : Contents ℚ where
  schema := ⟨[⟨"x", .int, true⟩], List.nodup_singleton "x"⟩
  parts := [(0, numberRows first), (1, numberRows second)]
  distinct := show (List.range 2).Nodup from List.nodup_range

/-- The second of two files not reached. -/
def betweenTwo (first second : List ℤ) : Stop "dir" (twoParts first second) :=
  .betweenFiles [(0, numberRows first)] [(1, numberRows second)] rfl

/-- The files of a first checkpoint in an empty directory. -/
def storedFiles (first second : List ℤ) : Files ℚ :=
  Files.after (fun _ => none)
    (checkpointOps "dir" (twoParts first second).schema (twoParts first second).parts)

/-- After the first of two files the old partition list reads one new row and one old row. -/
theorem checkpoint_mixture :
    (twoParts [1] [2]).StoredIn "dir" (storedFiles [1] [2]) ∧
      Interrupted (checkpointOps "dir" (twoParts [3] [4]).schema (twoParts [3] [4]).parts)
        (storedFiles [1] [2]) ((storedFiles [1] [2]).after (betweenTwo [3] [4]).ops) ∧
      readBack "dir" ((storedFiles [1] [2]).after (betweenTwo [3] [4]).ops) =
        .ok (numberRows [3, 2]) ∧
      ¬ ReadsOldOrNew "dir" (twoParts [1] [2]) (twoParts [3] [4])
        ((storedFiles [1] [2]).after (betweenTwo [3] [4]).ops) := by
  have hstored : (twoParts [1] [2]).StoredIn "dir" (storedFiles [1] [2]) := storedIn_after _ _ _
  have hread := readBack_of_not_breaks hstored (betweenTwo [3] [4]) id
  have hrows : patched (betweenTwo [3] [4]).written (twoParts [1] [2]).parts = numberRows [3, 2] :=
    rfl
  rw [hrows] at hread
  refine ⟨hstored, interrupted_iff.mpr ⟨betweenTwo [3] [4], rfl⟩, hread, fun h => ?_⟩
  exact absurd (h _ hread) (by decide)

/-- The theorem applied to a new checkpoint that repeats the first file of the old one. -/
theorem readsOldOrNew_same_file :
    ReadsOldOrNew "dir" (twoParts [1] [2]) (twoParts [1] [4])
        ((storedFiles [1] [2]).after (betweenTwo [1] [4]).ops) ↔
      (betweenTwo [1] [4]).Harmless (twoParts [1] [2]) :=
  readsOldOrNew_iff (storedIn_after _ _ _) _

end Mixtures

end MiniSpark

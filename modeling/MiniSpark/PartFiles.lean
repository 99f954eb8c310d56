import MiniSpark.Parquet

/-!
# The files of a write, in order

A partition is written under its number in five digits, and a directory is read in the order of
the names. The two orders agree up to a hundred thousand partitions, and what was written is then
read back row after row.
-/
namespace MiniSpark

section Digits

/-- Digits spell a number below the power of ten of their count. -/
lemma ofDigitChars_lt {cs : List Char} (h : ∀ c ∈ cs, c.isDigit = true) :
    Nat.ofDigitChars 10 cs 0 < 10 ^ cs.length := by
  induction cs with
  | nil => simp
  | cons c cs ih =>
      obtain ⟨hc, hcs⟩ := List.forall_mem_cons.mp h
      have hdigit := (Char.isDigit_iff_toNat.mp hc).2
      have hrest := ih hcs
      have hle : 10 ^ cs.length * (c.toNat - '0'.toNat) ≤ 10 ^ cs.length * 9 :=
        Nat.mul_le_mul_left _ (Nat.sub_le_iff_le_add.mpr hdigit)
      rw [Nat.ofDigitChars_cons, Nat.ofDigitChars_eq_ofDigitChars_zero, List.length_cons,
        Nat.pow_succ, Nat.mul_zero, Nat.zero_add]
      omega

/-- The text of a number is never after that of a greater one of as many digits. -/
theorem digits_append_not_lt {as bs : List Char} (hlen : as.length = bs.length)
    (ha : ∀ c ∈ as, c.isDigit = true) (hb : ∀ c ∈ bs, c.isDigit = true)
    (h : Nat.ofDigitChars 10 as 0 ≤ Nat.ofDigitChars 10 bs 0) (suffix : List Char) :
    ¬ bs ++ suffix < as ++ suffix := by
  induction as generalizing bs with
  | nil =>
      obtain rfl := List.length_eq_zero_iff.mp hlen.symm
      exact List.lt_irrefl suffix
  | cons a as ih =>
      cases bs with
      | nil => cases hlen
      | cons b bs =>
          obtain ⟨hda, hdas⟩ := List.forall_mem_cons.mp ha
          obtain ⟨hdb, hdbs⟩ := List.forall_mem_cons.mp hb
          have hlen' : as.length = bs.length := Nat.succ_inj.mp hlen
          have hlt := ofDigitChars_lt hdas
          have hlt' := ofDigitChars_lt hdbs
          have hzero := (Char.isDigit_iff_toNat.mp hda).1
          have hzero' := (Char.isDigit_iff_toNat.mp hdb).1
          simp only [Nat.ofDigitChars_cons, Nat.mul_zero, Nat.zero_add] at h
          rw [Nat.ofDigitChars_eq_ofDigitChars_zero, Nat.ofDigitChars_eq_ofDigitChars_zero (l := bs),
            ← hlen'] at h
          rw [← hlen'] at hlt'
          rw [List.cons_append, List.cons_append, List.cons_lt_cons_iff]
          rintro (hba | ⟨rfl, hrest⟩)
          · -- a greater first digit outweighs the rest
            have hba : b.toNat < a.toNat := hba
            have hmul : 10 ^ as.length * (b.toNat - '0'.toNat) + 10 ^ as.length ≤
                10 ^ as.length * (a.toNat - '0'.toNat) := by
              rw [← Nat.mul_succ]
              exact Nat.mul_le_mul_left _ (by omega)
            omega
          · exact ih hlen' hdas hdbs (by omega) hrest

lemma append_left_not_lt {xs ys : List Char} (h : ¬ xs < ys) (pre : List Char) :
    ¬ pre ++ xs < pre ++ ys := by
  induction pre with
  | nil => exact h
  | cons c pre ih =>
      rw [List.cons_append, List.cons_append, List.cons_lt_cons_iff]
      rintro (hc | ⟨-, hrest⟩)
      · exact Nat.lt_irrefl _ hc
      · exact ih hrest

end Digits

section Names

lemma zeroPad_digits (n : ℕ) : ∀ c ∈ (zeroPad n).toList, c.isDigit = true := by
  intro c hc
  rw [zeroPad, String.toList_append, String.toList_ofList, List.mem_append] at hc
  rcases hc with hc | hc
  · obtain rfl := List.eq_of_mem_replicate hc
    rfl
  · exact Nat.isDigit_of_mem_toDigits (by decide) (by decide) (Nat.toList_repr ▸ hc)

lemma zeroPad_length {n : ℕ} (h : n < 100000) : (zeroPad n).toList.length = 5 := by
  have hlen : (toString n).length ≤ 5 := (Nat.length_repr_le_iff (by decide)).mpr h
  rw [zeroPad, String.toList_append, String.toList_ofList, List.length_append, List.length_replicate,
    String.length_toList]
  omega

/-- Five digits suffice up to a hundred thousand. -/
theorem partName_le {m n : ℕ} (h : m ≤ n) (hn : n < 100000) : partName m ≤ partName n := by
  have hlists : ¬ (partName n).toList < (partName m).toList := by
    simp only [partName, String.toList_append, List.append_assoc]
    refine append_left_not_lt (digits_append_not_lt ?_ (zeroPad_digits m) (zeroPad_digits n) ?_ _) _
    · rw [zeroPad_length (Nat.lt_of_le_of_lt h hn), zeroPad_length hn]
    · rwa [zeroPad_value, zeroPad_value]
  exact hlists

/-- Six digits sort before five. -/
example : partName 100000 < partName 99999 := by decide

end Names

section Listings

variable {F : Type} [PyArrow F]

omit [PyArrow F] in
lemma rowsDataset_ids (schema : Schema) (parts : List (List (Record F))) :
    (rowsDataset schema parts).partitions.map Partition.partitionId = List.range parts.length :=
  List.ext_getElem (by simp [rowsDataset]) (by simp [rowsDataset, rowsPartition])

/-- A directory written from scratch lists the files of the partitions in order. -/
theorem listing_of_entries {arrowSchema : List ArrowField} {schema : Schema}
    {parts : List (List (Record F))} {entries : List (String × PyArrow.File F)}
    (h : List.Forall₂ (WritesEntry arrowSchema) (rowsDataset schema parts).partitions entries)
    (hfew : parts.length ≤ 100000) :
    Directory.listing (OrderedDict.ofList entries) = entries.map Prod.snd := by
  have hids := rowsDataset_ids schema parts
  obtain ⟨hnames, hnodup⟩ := entries_nodup h (hids ▸ List.nodup_range)
  have hmap : (rowsDataset schema parts).partitions.map (fun p => partName p.partitionId) =
      (List.range parts.length).map partName := by
    rw [← hids, List.map_map]
    rfl
  rw [hmap] at hnames
  have hordered : (entries.map Prod.fst).Pairwise (· ≤ ·) := by
    rw [hnames, List.pairwise_map]
    refine (List.pairwise_lt_range).imp_of_mem (fun _ hb hlt => ?_)
    exact partName_le (Nat.le_of_lt hlt) (Nat.lt_of_lt_of_le (List.mem_range.mp hb) hfew)
  have hsorted : entries.Pairwise (fun p q => decide (p.1 ≤ q.1) = true) :=
    (List.pairwise_map.mp hordered).imp decide_eq_true
  rw [Directory.listing, OrderedDict.items_ofList entries (OrderedDict.distinct_keys_iff.mpr hnodup),
    List.mergeSort_of_pairwise hsorted]

variable [PyRuntime F] [LawfulPyArrow F]

/-- What is written from scratch is read back under its schema, and row after row where the names
of the files keep the order of the partitions. -/
theorem read_written {schema : Schema} {parts : List (List (Record F))} {dir : Directory F}
    (hsupported : ∀ r ∈ parts.flatten, SupportedRow schema r)
    (hwrite : writeParquetDataset (rowsDataset schema parts) OrderedDict.empty = (.ok (), dir))
    (numPartitions : ℤ) :
    ∃ read back, readParquet numPartitions dir none none = .ok read ∧
      read.partitions.mapM Partition.toList = .ok back ∧ (parts ≠ [] → read.schema = schema) ∧
      SameDicts parts.flatten back.flatten ∧
      (parts.length ≤ 100000 → List.Forall₂ SameDict parts.flatten back.flatten) := by
  have hwritten : dir.Written := by
    have hnew := Directory.Written.write (rowsDataset schema parts) (.empty (F := F))
    rwa [hwrite] at hnew
  obtain ⟨entries, hentries, hdir⟩ := writeParts_eq_ok hwrite
  have hids := rowsDataset_ids schema parts
  obtain ⟨hnames, hnodup⟩ := entries_nodup hentries (hids ▸ List.nodup_range)
  obtain ⟨parts', hparts', hsame⟩ := entries_rows hentries (fun p hp rows hrows r hr => by
    obtain ⟨i, hi, rfl⟩ := List.mem_mapIdx.mp hp
    cases hrows
    exact hsupported r (List.mem_flatten.mpr ⟨_, List.getElem_mem hi, hr⟩))
  obtain rfl := Except.ok.inj ((rowsDataset_toLists schema parts).symm.trans hparts')
  obtain ⟨read, back, hread, hschema, hback, hflat⟩ :=
    readParquet_listing hwritten.holdsTable numPartitions
  have hdir : dir = OrderedDict.ofList entries := hdir
  have hitems : dir.items = entries := by
    rw [hdir]
    exact OrderedDict.items_ofList entries (OrderedDict.distinct_keys_iff.mpr hnodup)
  refine ⟨read, back, hread, hback, fun hne => ?_, ?_, fun hfew => ?_⟩
  · obtain ⟨file, files, hlisting⟩ : ∃ file files, dir.listing = file :: files := by
      refine List.exists_cons_of_length_pos ?_
      rw [Directory.listing, List.length_map, List.length_mergeSort, hitems, ← hentries.length_eq,
        rowsDataset, List.length_mapIdx]
      exact List.length_pos_iff.mpr hne
    have hfirst : PyArrow.fileSchema file = minisparkSchemaToArrow schema := by
      obtain ⟨e, he, rfl⟩ : ∃ e ∈ entries, e.2 = file := by
        have hmem : file ∈ dir.listing := hlisting ▸ List.mem_cons_self
        obtain ⟨e, he, hfile⟩ := List.mem_map.mp hmem
        exact ⟨e, hitems ▸ (List.mergeSort_perm dir.items _).mem_iff.mp he, hfile⟩
      obtain ⟨p, -, rows, table, -, htable, rfl⟩ := Dealing.exists_partner hentries he
      exact LawfulPyArrow.fileSchema_writeTable rows _ table htable
    rw [hlisting, datasetSchema, hfirst, arrowSchemaToMinispark_ok] at hschema
    exact (Except.ok.inj hschema).symm
  · refine ⟨_, hsame, ?_⟩
    rw [hflat, Directory.listing, List.flatMap_map, hitems]
    exact ((List.mergeSort_perm entries _).flatMap_right _).symm
  · rw [hflat, hdir, listing_of_entries hentries hfew, List.flatMap_map]
    exact hsame

end Listings

end MiniSpark

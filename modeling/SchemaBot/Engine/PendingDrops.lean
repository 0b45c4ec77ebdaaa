import Mathlib.Data.List.Nodup

/-!
# The quarantine of dropped tables

A `DROP TABLE` becomes a `RENAME TABLE` into `_pending_drops`, under names that start with the time. A name is
cut to the limit of MySQL by bytes, so the new names are byte arrays here, text or not.
-/

namespace SchemaBot.PendingDrops

def tableNameLengthLimit : Nat := 64

/-- A time in UTC: what `Format(timestampBaseFormat)` makes of it, which is 14 bytes up to the year 9999, and its
nanoseconds. -/
structure Instant where
  base : String
  nanosecond : Nat
  base_size : base.utf8ByteSize ≤ 60
  nanosecond_lt : nanosecond < 1000000000

def Instant.stamp (now : Instant) : String :=
  let ms := now.nanosecond / 1000000
  now.base ++ String.ofList [(ms / 100).digitChar, (ms / 10 % 10).digitChar, (ms % 10).digitChar, '_']

def Instant.maxTableLen (now : Instant) : Nat := tableNameLengthLimit - now.stamp.utf8ByteSize

def tableName (_schemaName tableName : String) (now : Instant) : ByteArray :=
  now.stamp.toByteArray ++
    if tableName.utf8ByteSize > now.maxTableLen then tableName.toByteArray.extract 0 now.maxTableLen
    else tableName.toByteArray

structure TableMove where
  schemaName : String
  tableName : String
  deriving DecidableEq

structure QuarantinedTable where
  schemaName : String
  tableName : String
  quarantineSchema : String
  quarantineTable : ByteArray

def quarantineDestinations (tables : List TableMove) (now : Instant) : List QuarantinedTable :=
  tables.map fun table =>
    ⟨table.schemaName, table.tableName, "_pending_drops", tableName table.schemaName table.tableName now⟩

/-- The new names of a rename that MySQL can execute. -/
structure Renames (moved : List QuarantinedTable) : Prop where
  distinct : (moved.map (·.quarantineTable)).Nodup
  named : ∀ m ∈ moved, ∃ name : String, name.toByteArray = m.quarantineTable ∧
    name.length ≤ tableNameLengthLimit

section
variable {b : ByteArray} {now : Instant}

theorem length_le_utf8ByteSize (s : String) : s.length ≤ s.utf8ByteSize := by
  obtain ⟨l, rfl⟩ := String.exists_eq_ofList s
  induction l with
  | nil => simp
  | cons c l ih =>
    have hc := c.utf8Size_pos
    simp at *
    omega

theorem isValidUTF8_append_iff (s : String) : (s.toByteArray ++ b).IsValidUTF8 ↔ b.IsValidUTF8 := by
  obtain ⟨l, rfl⟩ := String.exists_eq_ofList s
  induction l with
  | nil => simp
  | cons c l ih =>
    have hcons : (String.ofList (c :: l)).toByteArray = [c].utf8Encode ++ (String.ofList l).toByteArray := by
      rw [String.toByteArray_ofList, String.toByteArray_ofList, ← List.utf8Encode_append, List.singleton_append]
    rw [hcons, ByteArray.append_assoc, ByteArray.isValidUTF8_utf8Encode_singleton_append_iff, ih]

theorem Instant.stamp_size (now : Instant) : now.stamp.utf8ByteSize ≤ tableNameLengthLimit := by
  have hdigit : ∀ n < 10, (Nat.digitChar n).utf8Size = 1 := by decide
  have hns := now.nanosecond_lt
  have hbase := now.base_size
  have h₁ := hdigit (now.nanosecond / 1000000 / 100) (by omega)
  have h₂ := hdigit (now.nanosecond / 1000000 / 10 % 10) (by omega)
  have h₃ := hdigit (now.nanosecond / 1000000 % 10) (by omega)
  have hbar : "_".utf8ByteSize = 1 := rfl
  simp [Instant.stamp, tableNameLengthLimit]
  omega

theorem extract_of_le {name : String} {n : Nat} (h : name.utf8ByteSize ≤ n) :
    name.toByteArray.extract 0 n = name.toByteArray :=
  ByteArray.ext (by simp [h])

theorem tableName_eq (schemaName name : String) (now : Instant) :
    tableName schemaName name now = now.stamp.toByteArray ++ name.toByteArray.extract 0 now.maxTableLen := by
  unfold tableName
  split
  · rfl
  · next h => rw [extract_of_le (Nat.not_lt.1 h)]

/-- A new name is text if the cut does not split a character, and is never too long. -/
theorem named_iff (schemaName name : String) :
    (∃ q : String, q.toByteArray = tableName schemaName name now ∧ q.length ≤ tableNameLengthLimit) ↔
      (now.maxTableLen < name.utf8ByteSize → String.Pos.Raw.IsValid name ⟨now.maxTableLen⟩) := by
  have hsize := now.stamp_size
  rw [tableName_eq]
  have htext : (∃ q : String, q.toByteArray = now.stamp.toByteArray ++ name.toByteArray.extract 0 now.maxTableLen ∧
      q.length ≤ tableNameLengthLimit) ↔ (name.toByteArray.extract 0 now.maxTableLen).IsValidUTF8 := by
    rw [← isValidUTF8_append_iff now.stamp]
    constructor
    · rintro ⟨q, hq, -⟩
      exact hq ▸ q.isValidUTF8
    · intro h
      refine ⟨.ofByteArray _ h, rfl, Nat.le_trans (length_le_utf8ByteSize _) ?_⟩
      simp [Instant.maxTableLen]
      omega
  rw [htext]
  constructor
  · intro h hlt
    exact String.Pos.Raw.isValid_iff_isValidUTF8_extract_zero.2 ⟨Nat.le_of_lt hlt, h⟩
  · intro h
    rcases Nat.lt_or_ge now.maxTableLen name.utf8ByteSize with hlt | hle
    · exact (h hlt).isValidUTF8_extract_zero
    · rw [extract_of_le hle]
      exact name.isValidUTF8

/-- The rename can be executed exactly when the names differ in the bytes that are kept, and no character
stands across the cut. -/
theorem renames_iff (tables : List TableMove) (now : Instant) : Renames (quarantineDestinations tables now) ↔
      (tables.map fun t => t.tableName.toByteArray.extract 0 now.maxTableLen).Nodup ∧
        ∀ t ∈ tables, now.maxTableLen < t.tableName.utf8ByteSize →
          String.Pos.Raw.IsValid t.tableName ⟨now.maxTableLen⟩ := by
  have hinj : Function.Injective fun kept : ByteArray => now.stamp.toByteArray ++ kept :=
    fun _ _ h => (ByteArray.append_right_inj _).1 h
  have hnames : (quarantineDestinations tables now).map (·.quarantineTable) =
      (tables.map fun t => t.tableName.toByteArray.extract 0 now.maxTableLen).map
        fun kept => now.stamp.toByteArray ++ kept := by
    simp [quarantineDestinations, tableName_eq]
  rw [← List.nodup_map_iff hinj, ← hnames]
  constructor
  · intro h
    exact ⟨h.distinct, fun t ht => (named_iff t.schemaName t.tableName).1
      (h.named _ (List.mem_map_of_mem ht))⟩
  · rintro ⟨hnodup, hcuts⟩
    refine ⟨hnodup, fun m hm => ?_⟩
    obtain ⟨t, ht, rfl⟩ := List.mem_map.1 hm
    exact (named_iff t.schemaName t.tableName).2 (hcuts t ht)

end

/-- Tables of one name in two schemas, and a name with a character across the cut. -/
theorem drops_without_rename :
    let now : Instant := ⟨"20240102030405", 6000000, by decide, by decide⟩
    (¬ Renames (quarantineDestinations [⟨"a", "users"⟩, ⟨"b", "users"⟩] now)) ∧
      ¬ Renames (quarantineDestinations [⟨"a", "aéééééééééééééééééééééééé"⟩] now) := by
  refine ⟨fun h => (List.nodup_cons.1 h.distinct).1 (.head _), fun h => ?_⟩
  obtain ⟨q, hq, -⟩ := h.named _ (.head _)
  exact absurd (hq ▸ q.isValidUTF8) (by decide +kernel)

end SchemaBot.PendingDrops

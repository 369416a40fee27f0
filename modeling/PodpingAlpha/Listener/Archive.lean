import PodpingAlpha.Library.Bytes
import PodpingAlpha.Library.Table
import Mathlib.Algebra.Ring.Int.Defs
import Mathlib.Algebra.Ring.Nat
import Mathlib.Data.List.Sort

/-!
# The archive

`gossip-listener/src/archive.rs`: the SQLite archive of notifications, keyed by the hash of their
payload.

## The model

Each of the two tables is a `Library.Table` of its rows in the order of their insertion. A statement
runs or fails; one that fails changes nothing. `created_at` is the clock of the archive's own node at
the insertion, whatever the notification says.

## What is proved

* `Archive.mem_rows_store`, `Archive.holds_store` — what `store` adds.
* `Archive.mem_rowsSince` — what `messages_since` returns.
-/

namespace PodpingAlpha.Listener

/-- `n as i64`. -/
def asI64 (n : UInt64) : ℤ := if n.toNat < 2 ^ 63 then n.toNat else n.toNat - 2 ^ 64

/-- `i as u64`. -/
def asU64 (i : ℤ) : UInt64 := UInt64.ofNat (i % 2 ^ 64).toNat

/-- A row of `messages`. -/
structure Message where
  /-- The key: the hash of the payload, in hexadecimal. -/
  hash : String
  /-- The notification as it was received. -/
  payload : Bytes
  /-- When the row was inserted, in seconds. -/
  createdAt : ℤ
  deriving DecidableEq

/-- A row of `manifest`. -/
structure ManifestRow where
  /-- The hour of the notification's timestamp. -/
  hourKey : String
  /-- The hash of the payload. -/
  hash : String
  /-- The sender. -/
  sender : String
  /-- The medium. -/
  medium : String
  /-- The reason. -/
  reason : String
  /-- The notification's timestamp. -/
  timestamp : ℤ
  /-- The number of feeds. -/
  iriCount : ℤ
  deriving DecidableEq

/-- `UNIQUE(hour_key, hash)`. -/
def ManifestRow.key (r : ManifestRow) : String × String := (r.hourKey, r.hash)

/-- An archive. -/
structure Archive where
  /-- The payloads. -/
  messages : Table Message.hash
  /-- What they are about. -/
  manifest : Table ManifestRow.key
  deriving DecidableEq

/-- A new archive. -/
def Archive.empty : Archive := ⟨.empty, .empty⟩

/-- Whether the two statements of `store` run. -/
structure Sql where
  /-- The insertion into `messages`. -/
  messages : Bool
  /-- The insertion into `manifest`. -/
  manifest : Bool
  deriving DecidableEq

/-- The hour key of a timestamp. -/
def hourKey (timestamp : UInt64) : String :=
  let hoursSinceEpoch := timestamp.toNat / 3600
  let hour := hoursSinceEpoch % 24
  toString (hoursSinceEpoch / 24) ++ "-" ++ (if hour < 10 then "0" else "") ++ toString hour

/-- `INSERT OR IGNORE`. -/
def insertOrIgnore {ρ κ : Type} [DecidableEq κ] {key : ρ → κ} (t : Table key) (r : ρ) : Table key :=
  (t.insert? r).getD t

namespace Archive

/-- `store`, with the hash of the payload, at time `now`. -/
def store (db : Archive) (sql : Sql) (now : UInt64) (hash : String) (payload : Bytes)
    (sender medium reason : String) (timestamp : UInt64) (iriCount : ℕ) :
    Except String Bool × Archive :=
  if sql.messages then
    let messages := insertOrIgnore db.messages ⟨hash, payload, asI64 now⟩
    let inserted := (db.messages.insert? ⟨hash, payload, asI64 now⟩).isSome
    if sql.manifest then
      let row := ⟨hourKey timestamp, hash, sender, medium, reason, asI64 timestamp, iriCount⟩
      (.ok inserted, ⟨messages, insertOrIgnore db.manifest row⟩)
    else (.error "manifest", { db with messages })
  else (.error "messages", db)

/-- The rows of `messages_since`, oldest first. -/
def rowsSince (db : Archive) (since : UInt64) : List Message :=
  (db.messages.rows.filter fun m => asI64 since ≤ m.createdAt).insertionSort
    fun m n => m.createdAt ≤ n.createdAt

/-- `messages_since`. -/
def messagesSince (db : Archive) (since : UInt64) : List Bytes :=
  (db.rowsSince since).map Message.payload

/-- `latest_timestamp`. -/
def latestTimestamp (db : Archive) : Option UInt64 :=
  (db.messages.rows.map Message.createdAt).max?.map asU64

/-- A message is in the archive. -/
def Holds (db : Archive) (hash : String) : Prop := ∃ m ∈ db.messages.rows, m.hash = hash

instance (db : Archive) (hash : String) : Decidable (db.Holds hash) :=
  inferInstanceAs (Decidable (∃ m ∈ _, _))

theorem mem_insertOrIgnore {ρ κ : Type} [DecidableEq κ] {key : ρ → κ} {t : Table key} {r m : ρ} :
    m ∈ (insertOrIgnore t r).rows ↔ m ∈ t.rows ∨ m = r ∧ ∀ m' ∈ t.rows, key m' ≠ key r := by
  unfold insertOrIgnore
  cases h : t.insert? r with
  | none =>
    obtain ⟨m', hm'⟩ := Table.insert?_eq_none.1 h
    obtain ⟨hmem, hkey⟩ := Table.find?_eq_some.1 hm'
    exact (or_iff_left fun hr => hr.2 m' hmem hkey).symm
  | some t' =>
    have hfresh : ∀ m' ∈ t.rows, key m' ≠ key r := fun m' hm' hkey =>
      Table.find?_eq_none.1 (Table.find?_of_insert? h) (List.mem_map.2 ⟨m', hm', hkey⟩)
    rw [Option.getD_some, Table.rows_insert? h, List.mem_append, List.mem_singleton]
    exact or_congr_right (and_iff_left hfresh).symm

theorem mem_rows_store {db : Archive} {sql : Sql} (hsql : sql.messages = true) {now : UInt64}
    {hash : String} {payload : Bytes} {sender medium reason : String} {timestamp : UInt64}
    {iriCount : ℕ} {m : Message} :
    m ∈ (db.store sql now hash payload sender medium reason timestamp iriCount).2.messages.rows ↔
      m ∈ db.messages.rows ∨ m = ⟨hash, payload, asI64 now⟩ ∧ ¬db.Holds hash := by
  have hfresh : (∀ m' ∈ db.messages.rows, m'.hash ≠ hash) ↔ ¬db.Holds hash := by
    simp only [Holds, not_exists, not_and, ne_eq]
  rw [← hfresh]
  rw [store]
  rw [if_pos hsql]
  split_ifs <;> exact mem_insertOrIgnore

/-- What `store` adds. -/
theorem holds_store {db : Archive} {sql : Sql} (hsql : sql.messages = true) {now : UInt64}
    {hash hash' : String} {payload : Bytes} {sender medium reason : String} {timestamp : UInt64}
    {iriCount : ℕ} :
    (db.store sql now hash payload sender medium reason timestamp iriCount).2.Holds hash' ↔
      db.Holds hash' ∨ hash' = hash := by
  rw [Holds]
  simp only [mem_rows_store hsql, or_and_right, exists_or]
  constructor
  · rintro (h | ⟨m, ⟨rfl, -⟩, rfl⟩)
    · exact .inl h
    · exact .inr rfl
  · rintro (h | rfl)
    · exact .inl h
    · by_cases h : db.Holds hash'
      · exact .inl h
      · exact .inr ⟨_, ⟨rfl, h⟩, rfl⟩

/-- What `messages_since` returns. -/
theorem mem_rowsSince {db : Archive} {since : UInt64} {m : Message} :
    m ∈ db.rowsSince since ↔ m ∈ db.messages.rows ∧ asI64 since ≤ m.createdAt := by
  rw [rowsSince]
  rw [(List.perm_insertionSort _ _).mem_iff, List.mem_filter, decide_eq_true_eq]

/-- The hash is a key. -/
theorem eq_of_hash {db : Archive} {m m' : Message} (hm : m ∈ db.messages.rows)
    (hm' : m' ∈ db.messages.rows) (h : m.hash = m'.hash) : m = m' :=
  List.inj_on_of_nodup_map db.messages.nodup hm hm' h

end Archive

end PodpingAlpha.Listener

import PodpingAlpha.Library.Hex
import PodpingAlpha.Library.Json
import PodpingAlpha.Library.Transition
import PodpingAlpha.Listener.Archive
import Mathlib.Data.Set.Function

/-!
# Storing into the archive, over and over

`Archive::store` inserts into `messages` and then into `manifest`, outside a transaction, and `?`
returns between the two. The writer's archive (`gossip-writer/src/archive.rs`) has the same `store`.

## The model

A run is a list of calls of `store` on an archive that was created empty. Whether each statement
runs is in the call. `blake3` is a parameter; what is said about it is that no two payloads of the
run collide.

## What is proved

* `run_ok_iff`, `lists_run` — what a call that returns `Ok` says and adds.
* `run_err_iff` — a call that returns `Err` changes nothing, unless it is torn.
* `Consistent.run`, `Consistent.allOrNothing` — what calls that are not torn preserve.
* `allOrNothing_iff` — in a run every call is all or nothing, and the two tables are about the same
  payloads, exactly when in no call the payload is new, its message is inserted and the insertion
  into `manifest` fails.
-/

namespace PodpingAlpha.Listener

open Transition

/-- A call of `store`. -/
structure Call where
  /-- Which statements run. -/
  sql : Sql
  /-- The clock. -/
  now : UInt64
  /-- `payload`. -/
  payload : Bytes
  /-- `sender`. -/
  sender : String
  /-- `medium`. -/
  medium : String
  /-- `reason`. -/
  reason : String
  /-- `timestamp`. -/
  timestamp : UInt64
  /-- `iri_count`. -/
  iriCount : ℕ

/-- A payload is in `messages`. -/
def Archive.Contains (db : Archive) (payload : Bytes) : Prop :=
  ∃ m ∈ db.messages.rows, m.payload = payload

/-- A hash is in `manifest`. -/
def Archive.Lists (db : Archive) (hash : String) : Prop := ∃ r ∈ db.manifest.rows, r.hash = hash

namespace Call

variable (blake3 : Bytes → String)

/-- What the call returns, and the archive after it. -/
def run (db : Archive) (c : Call) : Except String Bool × Archive :=
  db.store c.sql c.now (blake3 c.payload) c.payload c.sender c.medium c.reason c.timestamp c.iriCount

/-- The calls, one after another. -/
def step (db : Archive) (c : Call) : Option Archive := some (c.run blake3 db).2

/-- What is asked of a call of `store`. -/
structure AllOrNothing (db : Archive) (c : Call) : Prop where
  /-- `Err` changes nothing. -/
  err : ∀ e, (c.run blake3 db).1 = .error e → (c.run blake3 db).2 = db
  /-- After `Ok` there is one row for the payload. -/
  row : ∀ b, (c.run blake3 db).1 = .ok b →
    ∃ m, (c.run blake3 db).2.messages.rows.filter (·.payload = c.payload) = [m]
  /-- After `Ok` the manifest has its hash. -/
  entry : ∀ b, (c.run blake3 db).1 = .ok b → (c.run blake3 db).2.Lists (blake3 c.payload)
  /-- `Ok(true)` means that the payload was not there. -/
  fresh : ∀ b, (c.run blake3 db).1 = .ok b → (b = true ↔ ¬db.Contains c.payload)
  /-- The tables have the same hashes. -/
  hashes : ∀ hash, (c.run blake3 db).2.Holds hash ↔ (c.run blake3 db).2.Lists hash

/-- The message is new and is inserted, and the insertion into the manifest fails. -/
def Torn (db : Archive) (c : Call) : Prop :=
  c.sql.messages = true ∧ c.sql.manifest = false ∧ ¬db.Holds (blake3 c.payload)

instance (db : Archive) (c : Call) : Decidable (c.Torn blake3 db) :=
  inferInstanceAs (Decidable (_ ∧ _ ∧ _))

/-! ### One call -/

variable {blake3} {db : Archive} {c : Call}

/-- An insertion of a hash that is there changes nothing. -/
theorem insertOrIgnore_of_holds {m : Message} (h : db.Holds m.hash) :
    insertOrIgnore db.messages m = db.messages := by
  obtain ⟨m', hm', hhash⟩ := h
  have hfound : db.messages.find? m.hash = some m' := Table.find?_eq_some.2 ⟨hm', hhash⟩
  rw [insertOrIgnore, Table.insert?_eq_none.2 ⟨m', hfound⟩, Option.getD_none]

/-- A message is inserted when its hash is not there. -/
theorem insert?_isSome_iff {m : Message} :
    (db.messages.insert? m).isSome = true ↔ ¬db.Holds m.hash := by
  rw [Option.isSome_iff_ne_none, ne_eq, Table.insert?_eq_none, not_iff_not]
  constructor
  · rintro ⟨m', hm'⟩
    exact ⟨m', Table.find?_eq_some.1 hm'⟩
  · rintro ⟨m', hm'⟩
    exact ⟨m', Table.find?_eq_some.2 hm'⟩

/-- A call returns `Err`, or both of its statements run. -/
theorem run_cases (blake3 : Bytes → String) (db : Archive) (c : Call) :
    (∃ e, (c.run blake3 db).1 = .error e) ∨ c.sql.messages = true ∧ c.sql.manifest = true := by
  cases hmessages : c.sql.messages with
  | false => exact .inl ⟨"messages", by simp [run, Archive.store, hmessages]⟩
  | true =>
    cases hmanifest : c.sql.manifest with
    | false => exact .inl ⟨"manifest", by simp [run, Archive.store, hmessages, hmanifest]⟩
    | true => exact .inr ⟨rfl, rfl⟩

/-- A call returns `Ok` when both statements run. -/
theorem run_ok_iff {b : Bool} : (c.run blake3 db).1 = .ok b ↔
    c.sql.messages = true ∧ c.sql.manifest = true ∧ (b = true ↔ ¬db.Holds (blake3 c.payload)) := by
  rw [← insert?_isSome_iff (m := ⟨blake3 c.payload, c.payload, asI64 c.now⟩)]
  cases hmessages : c.sql.messages with
  | false => simp [run, Archive.store, hmessages]
  | true =>
    cases hmanifest : c.sql.manifest with
    | false => simp [run, Archive.store, hmessages, hmanifest]
    | true =>
      simp only [run, Archive.store, hmessages, hmanifest, if_true, Except.ok.injEq, true_and]
      exact eq_comm.trans Bool.eq_iff_iff

/-- What a call that returns `Ok` adds to the manifest. -/
theorem lists_run (hmessages : c.sql.messages = true) (hmanifest : c.sql.manifest = true)
    {hash : String} :
    (c.run blake3 db).2.Lists hash ↔ db.Lists hash ∨ hash = blake3 c.payload := by
  simp only [run, Archive.store, hmessages, hmanifest, if_true, Archive.Lists]
  constructor
  · rintro ⟨r, hr, rfl⟩
    obtain hr | ⟨rfl, -⟩ := Archive.mem_insertOrIgnore.1 hr
    · exact .inl ⟨r, hr, rfl⟩
    · exact .inr rfl
  · rintro (⟨r, hr, rfl⟩ | rfl)
    · exact ⟨r, Archive.mem_insertOrIgnore.2 (.inl hr), rfl⟩
    · -- a row with that key has that hash
      by_cases hfresh : ∀ r ∈ db.manifest.rows,
          r.key ≠ (hourKey c.timestamp, blake3 c.payload)
      · exact ⟨_, Archive.mem_insertOrIgnore.2 (.inr ⟨rfl, hfresh⟩), rfl⟩
      · simp only [not_forall, not_not] at hfresh
        obtain ⟨r, hr, hkey⟩ := hfresh
        exact ⟨r, Archive.mem_insertOrIgnore.2 (.inl hr), congrArg Prod.snd hkey⟩

/-- A call that returns `Err` leaves the archive as it was, unless it is torn. -/
theorem run_err_iff {e : String} (he : (c.run blake3 db).1 = .error e) :
    (c.run blake3 db).2 = db ↔ ¬c.Torn blake3 db := by
  cases hmessages : c.sql.messages with
  | false => simp [run, Archive.store, Torn, hmessages]
  | true =>
    have hmanifest : c.sql.manifest = false := by
      refine Bool.eq_false_iff.mpr fun hmanifest => ?_
      simp [run, Archive.store, hmessages, hmanifest] at he
    simp only [Torn, hmessages, hmanifest, true_and, not_not]
    constructor
    · intro hsame
      rw [← hsame]
      exact (Archive.holds_store hmessages).2 (.inr rfl)
    · intro hholds
      have hignored := insertOrIgnore_of_holds (m := ⟨_, c.payload, asI64 c.now⟩) hholds
      simp [run, Archive.store, hmessages, hmanifest, hignored]

/-! ### A run -/

/-- The tables are about the same payloads, which are among those in `seen`, each under its hash. -/
structure Consistent (blake3 : Bytes → String) (seen : Set Bytes) (db : Archive) : Prop where
  /-- A message is under its hash. -/
  keyed : ∀ m ∈ db.messages.rows, m.hash = blake3 m.payload
  /-- Its payload is known. -/
  seen : ∀ m ∈ db.messages.rows, m.payload ∈ seen
  /-- The hashes. -/
  hashes : ∀ hash, db.Holds hash ↔ db.Lists hash

variable {seen : Set Bytes}

theorem consistent_empty : Consistent blake3 seen Archive.empty where
  keyed := by simp [Archive.empty, Table.empty]
  seen := by simp [Archive.empty, Table.empty]
  hashes := by simp [Archive.Holds, Archive.Lists, Archive.empty, Table.empty]

/-- Where no two payloads collide, a payload is there exactly when its hash is. -/
theorem Consistent.holds_iff (h : Consistent blake3 seen db) (hinj : Set.InjOn blake3 seen)
    {payload : Bytes} (hp : payload ∈ seen) : db.Holds (blake3 payload) ↔ db.Contains payload := by
  constructor
  · rintro ⟨m, hm, hhash⟩
    exact ⟨m, hm, hinj (h.seen m hm) hp ((h.keyed m hm).symm.trans hhash)⟩
  · rintro ⟨m, hm, rfl⟩
    exact ⟨m, hm, h.keyed m hm⟩

/-- A call that is not torn keeps the tables consistent. -/
theorem Consistent.run (h : Consistent blake3 seen db) (hp : c.payload ∈ seen)
    (htorn : ¬c.Torn blake3 db) : Consistent blake3 seen (c.run blake3 db).2 := by
  obtain ⟨e, he⟩ | ⟨hmessages, hmanifest⟩ := run_cases blake3 db c
  · rwa [(run_err_iff he).2 htorn]
  · have hmem : ∀ m ∈ (c.run blake3 db).2.messages.rows,
        m ∈ db.messages.rows ∨ m = ⟨blake3 c.payload, c.payload, asI64 c.now⟩ := fun m hm =>
      ((Archive.mem_rows_store hmessages).1 hm).imp_right And.left
    constructor
    · intro m hm
      obtain hm | rfl := hmem m hm
      · exact h.keyed m hm
      · rfl
    · intro m hm
      obtain hm | rfl := hmem m hm
      · exact h.seen m hm
      · exact hp
    · intro hash
      rw [lists_run hmessages hmanifest, ← h.hashes]
      exact Archive.holds_store hmessages

/-- Of the rows of a consistent archive one is about a payload that is there. -/
theorem Consistent.filter_eq (h : Consistent blake3 seen db) {m : Message}
    (hm : m ∈ db.messages.rows) : db.messages.rows.filter (·.payload = m.payload) = [m] := by
  have hnodup : db.messages.rows.Nodup := .of_map _ db.messages.nodup
  rw [← List.perm_singleton,
    List.perm_ext_iff_of_nodup (hnodup.filter _) (List.nodup_singleton m)]
  intro m'
  rw [List.mem_filter, decide_eq_true_eq, List.mem_singleton]
  constructor
  · rintro ⟨hm', hpayload⟩
    have hhash : m'.hash = m.hash := by rw [h.keyed m' hm', h.keyed m hm, hpayload]
    exact Archive.eq_of_hash hm' hm hhash
  · rintro rfl
    exact ⟨hm, rfl⟩

/-- On a consistent archive a call that is not torn is all or nothing. -/
theorem Consistent.allOrNothing (h : Consistent blake3 seen db) (hinj : Set.InjOn blake3 seen)
    (hp : c.payload ∈ seen) (htorn : ¬c.Torn blake3 db) : c.AllOrNothing blake3 db := by
  have hafter : Consistent blake3 seen (c.run blake3 db).2 := h.run hp htorn
  constructor
  · intro e he
    exact (run_err_iff he).2 htorn
  · intro b hb
    obtain ⟨hmessages, -, -⟩ := run_ok_iff.1 hb
    have hholds : (c.run blake3 db).2.Holds (blake3 c.payload) :=
      (Archive.holds_store hmessages).2 (.inr rfl)
    obtain ⟨m, hm, hpayload⟩ := (hafter.holds_iff hinj hp).1 hholds
    rw [← hpayload]
    exact ⟨m, hafter.filter_eq hm⟩
  · intro b hb
    obtain ⟨hmessages, hmanifest, -⟩ := run_ok_iff.1 hb
    exact (lists_run hmessages hmanifest).2 (.inr rfl)
  · intro b hb
    obtain ⟨-, -, hfresh⟩ := run_ok_iff.1 hb
    rw [hfresh, h.holds_iff hinj hp]
  · exact hafter.hashes

/-- A torn call returns `Err` and changes the archive. -/
theorem Torn.not_allOrNothing (h : c.Torn blake3 db) : ¬c.AllOrNothing blake3 db := by
  intro hall
  have he : (c.run blake3 db).1 = .error "manifest" := by
    simp [run, Archive.store, h.1, h.2.1]
  exact (run_err_iff he).1 (hall.err _ he) h

/-- Where no two payloads of a run collide, each of its calls is all or nothing exactly when none is
torn: in none the payload is new, its message is inserted and the insertion into the manifest
fails. -/
theorem allOrNothing_iff (blake3 : Bytes → String) (calls : List Call)
    (hinj : Set.InjOn blake3 {payload | ∃ c ∈ calls, c.payload = payload}) :
    Along (step blake3) (fun db c => c.AllOrNothing blake3 db) Archive.empty calls ↔
      Along (step blake3) (fun db c => ¬c.Torn blake3 db) Archive.empty calls := by
  constructor
  · intro hall
    exact along_of_inv (I := fun _ => True) (fun _ _ _ _ _ _ => trivial)
      (fun db c _ hc htorn => htorn.not_allOrNothing hc) trivial hall
  · intro htorn
    refine along_of_inv (I := Consistent blake3 {payload | ∃ c ∈ calls, c.payload = payload})
      ?_ ?_ consistent_empty (along_and_mem htorn)
    · rintro db c db' h ⟨hc, hmem⟩ hstep
      cases hstep
      exact h.run ⟨c, hmem, rfl⟩ hc
    · rintro db c h ⟨hc, hmem⟩
      exact h.allOrNothing hinj ⟨c, hmem, rfl⟩ hc

/-- A call that stores no bytes at time 0. -/
def nothing (sql : Sql) : Call := ⟨sql, 0, [], "", "", "", 0, 0⟩

/-- The hash of no bytes is what `blake3` makes of them. -/
def sampleBlake3 : Bytes → String
  | [] => "af1349b9f5f9a1a6a0404dea36dcc9499bcb25c9adc112b7cc9a93cae41f3262"
  | payload => Hex.encode payload

/-- The payload of a notification for one feed. -/
def samplePayload (iri : String) : Bytes :=
  (Json.obj [("iris", .arr [.str iri]), ("medium", .str "podcast"), ("reason", .str "update"),
    ("sender", .str "aa"), ("timestamp", .num 1700000000), ("version", .str "1.0")]).toBytes

/-- The hashes of two of them. -/
def feedBlake3 (payload : Bytes) : String :=
  if payload = samplePayload "http://a" then
    "1333113fd3b08a805a2b33bb18b3f206fea05e226243b54ee4939d93636083ea"
  else if payload = samplePayload "http://b" then
    "3b51e4af7225379c7c9a898d793dac3672f628fda0030f67f737ef343a018ae6"
  else Hex.encode payload

/-- A call that stores one. -/
def feed (iri : String) (sql : Sql) : Call where
  sql := sql
  now := 1700000001
  payload := samplePayload iri
  sender := "aa"
  medium := "podcast"
  reason := "update"
  timestamp := 1700000000
  iriCount := 1

/-- Of two payloads, the first is stored and comes again when the manifest fails, and the second is stored at
the second attempt. -/
theorem allOrNothing_iff_feeds :
    Along (step feedBlake3) (fun db c => c.AllOrNothing feedBlake3 db) Archive.empty
      [feed "http://a" ⟨true, true⟩, feed "http://b" ⟨false, true⟩, feed "http://a" ⟨true, false⟩,
        feed "http://b" ⟨true, true⟩] := by
  have hne : feedBlake3 (samplePayload "http://a") ≠ feedBlake3 (samplePayload "http://b") := by
    decide +kernel
  have hpayload : ∀ payload, (∃ c ∈ [feed "http://a" ⟨true, true⟩, feed "http://b" ⟨false, true⟩,
      feed "http://a" ⟨true, false⟩, feed "http://b" ⟨true, true⟩], c.payload = payload) →
      payload = samplePayload "http://a" ∨ payload = samplePayload "http://b" := by
    rintro payload ⟨c, hc, rfl⟩
    simp only [List.mem_cons, List.not_mem_nil, or_false] at hc
    obtain rfl | rfl | rfl | rfl := hc
    · exact .inl rfl
    · exact .inr rfl
    · exact .inl rfl
    · exact .inr rfl
  refine (allOrNothing_iff feedBlake3 _ ?_).2 (by decide +kernel)
  intro payload hp payload' hp' hhash
  obtain rfl | rfl := hpayload payload hp <;> obtain rfl | rfl := hpayload payload' hp'
  · rfl
  · exact absurd hhash hne
  · exact absurd hhash.symm hne
  · rfl

/-- When the second insertion fails the first one stays. -/
theorem torn_call_changes :
    ¬Along (step sampleBlake3) (fun db c => c.AllOrNothing sampleBlake3 db) Archive.empty
      [nothing ⟨true, false⟩] := by
  intro h
  have hsame := h.1.err "manifest" rfl
  exact absurd hsame (by decide)

end Call

end PodpingAlpha.Listener

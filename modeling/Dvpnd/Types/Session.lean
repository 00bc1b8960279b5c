import Dvpnd.Lib.Base64

/-!
# Session rows and the session table

The node keeps one row for every on-chain session it serves
(`types/session.go`), in a table it reaches through gorm.

* `Key` — a session key: the base64 of a peer's data.  The type carries that, so
  no other text can stand where the program has a key.
* `Session` — a row; `Session.servedBytes`, `Session.duration` as in the source.
* `Session.satisfies` — gorm's struct conditions.  **A field that holds its zero
  value is not a condition at all**, which is what makes an empty one match
  every row.
* `Table` — the rows, with the two unique indexes the schema declares; `create`,
  `setUsage` and `delete` are the writes the program makes, and each keeps them.
-/

namespace Dvpnd

/-! ## Session keys -/

/-- A session key: the text the service and the table know a peer by. -/
structure Key where
  /-- The base64 text. -/
  text : String
  /-- It is the encoding of some peer's data. -/
  encoded : ∃ data, Base64.encodeToString data = text
  deriving DecidableEq

/-- The key of a peer's data: `admitRequest.PeerKey` and every service's
`peerKey`. -/
def Key.of (data : List UInt8) : Key := ⟨Base64.encodeToString data, data, rfl⟩

@[ext] theorem Key.ext {k l : Key} (h : k.text = l.text) : k = l := by
  cases k; cases l; cases h; rfl

theorem Key.of_injective : Function.Injective Key.of := fun _ _ h =>
  Base64.encodeToString_injective (congrArg Key.text h)

/-- A key decodes, and to the data it is the key of. -/
theorem Key.decode (k : Key) : ∃ data, Base64.decodeString k.text = some data ∧ Key.of data = k := by
  obtain ⟨text, data, rfl⟩ := k
  exact ⟨data, Base64.decodeString_encodeToString data, rfl⟩

/-- The empty text, Go's zero value. -/
def Key.zero : Key := Key.of []

theorem Key.text_eq_empty_iff {k : Key} : k.text = "" ↔ k = Key.zero :=
  ⟨fun h => Key.ext h, fun h => by rw [h]; rfl⟩

/-! ## Rows -/

/-- A row of the session table.  The defaults are Go's zero values, so that a
structure value that names only some fields is the Go literal that does.  Times
are in nanoseconds; the soft-delete column is left out, as every delete the
program makes is a hard one. -/
structure Session where
  id : Nat := 0
  createdAt : Int := 0
  updatedAt : Int := 0
  subscription : Nat := 0
  key : Key := Key.zero
  address : String := ""
  available : Int64 := 0
  download : Int64 := 0
  upload : Int64 := 0
  baseDownload : Int64 := 0
  baseUpload : Int64 := 0
  baseDuration : Int64 := 0
  deriving DecidableEq

namespace Session

/-- `ServedBytes`: what this process has moved for the session. -/
def servedBytes (s : Session) : Int64 := (s.download - s.baseDownload) + (s.upload - s.baseUpload)

/-- `Duration`: the session duration to report.  `Time.Sub` saturates. -/
def duration (s : Session) : Int64 := s.baseDuration + Int64.ofIntClamp (s.updatedAt - s.createdAt)

/-- `Where(&cond)`: the row has the value of every field of `cond` that is not
zero. -/
def satisfies (cond row : Session) : Bool :=
  (cond.id == 0 || row.id == cond.id) &&
  (cond.createdAt == 0 || row.createdAt == cond.createdAt) &&
  (cond.updatedAt == 0 || row.updatedAt == cond.updatedAt) &&
  (cond.subscription == 0 || row.subscription == cond.subscription) &&
  (cond.key.text == "" || row.key == cond.key) &&
  (cond.address == "" || row.address == cond.address) &&
  (cond.available == 0 || row.available == cond.available) &&
  (cond.download == 0 || row.download == cond.download) &&
  (cond.upload == 0 || row.upload == cond.upload) &&
  (cond.baseDownload == 0 || row.baseDownload == cond.baseDownload) &&
  (cond.baseUpload == 0 || row.baseUpload == cond.baseUpload) &&
  (cond.baseDuration == 0 || row.baseDuration == cond.baseDuration)

/-- A condition all of whose fields are zero adds no `WHERE` clause, and gorm
refuses to update or delete without one. -/
def isZero (cond : Session) : Bool := cond == {}

@[simp] theorem satisfies_id {n : Nat} {row : Session} :
    satisfies { id := n } row = true ↔ n = 0 ∨ row.id = n := by
  simp [satisfies, Key.zero, Key.of, Base64.encodeToString, Base64.encode]

@[simp] theorem satisfies_key {k : Key} {row : Session} :
    satisfies { key := k } row = true ↔ k.text = "" ∨ row.key = k := by
  simp [satisfies]

@[simp] theorem satisfies_account {n : Nat} {a : String} {row : Session} :
    satisfies { subscription := n, address := a } row = true ↔
      (n = 0 ∨ row.subscription = n) ∧ (a = "" ∨ row.address = a) := by
  simp [satisfies, Key.zero, Key.of, Base64.encodeToString, Base64.encode]

@[simp] theorem isZero_id {n : Nat} : isZero { id := n } = true ↔ n = 0 := by
  simp [isZero]

end Session

/-! ## The table -/

/-- The session table.  `idx_sessions_id` and `idx_sessions_key` are unique
indexes, so no two rows ever share an id or a key. -/
structure Table where
  /-- The rows, in the order a query without `ORDER BY` returns them. -/
  rows : List Session
  ids_nodup : (rows.map Session.id).Nodup
  keys_nodup : (rows.map Session.key).Nodup

namespace Table

/-- The table of a fresh database. -/
def empty : Table := ⟨[], List.nodup_nil, List.nodup_nil⟩

@[ext] theorem ext {t u : Table} (h : t.rows = u.rows) : t = u := by
  cases t; cases u; cases h; rfl

/-- The rows a condition selects. -/
def find (t : Table) (cond : Session) : List Session := t.rows.filter (Session.satisfies cond)

/-- The keys that have a row. -/
def keys (t : Table) : Finset Key := (t.rows.map Session.key).toFinset

@[simp] theorem mem_find {t : Table} {cond r : Session} :
    r ∈ t.find cond ↔ r ∈ t.rows ∧ cond.satisfies r = true := by
  simp [find]

@[simp] theorem mem_keys {t : Table} {k : Key} : k ∈ t.keys ↔ ∃ r ∈ t.rows, r.key = k := by
  simp [keys]

@[simp] theorem keys_empty : Table.empty.keys = ∅ := rfl

theorem eq_of_id {t : Table} {r r' : Session} (hr : r ∈ t.rows) (hr' : r' ∈ t.rows)
    (h : r.id = r'.id) : r = r' :=
  List.inj_on_of_nodup_map t.ids_nodup hr hr' h

theorem eq_of_key {t : Table} {r r' : Session} (hr : r ∈ t.rows) (hr' : r' ∈ t.rows)
    (h : r.key = r'.key) : r = r' :=
  List.inj_on_of_nodup_map t.keys_nodup hr hr' h

/-- A key with a row has exactly one. -/
theorem existsUnique_row {t : Table} {k : Key} (h : k ∈ t.keys) :
    ∃! r, r ∈ t.rows ∧ r.key = k := by
  obtain ⟨r, hr, hk⟩ := mem_keys.1 h
  exact ⟨r, ⟨hr, hk⟩, fun r' hr' => eq_of_key hr'.1 hr (hr'.2.trans hk.symm)⟩

/-! ### Insert -/

/-- `Create(&row)`: refused when a unique index already has the row's id or
key. -/
def create (t : Table) (row : Session) : Option Table :=
  if h : (∀ r ∈ t.rows, r.id ≠ row.id) ∧ ∀ r ∈ t.rows, r.key ≠ row.key then
    some {
      rows := t.rows ++ [row]
      ids_nodup := by
        rw [List.map_append, List.nodup_append]
        refine ⟨t.ids_nodup, by simp, fun a ha b hb => ?_⟩
        obtain ⟨r, hr, rfl⟩ := List.mem_map.1 ha
        simp only [List.map_cons, List.map_nil, List.mem_singleton] at hb
        rw [hb]
        exact h.1 r hr
      keys_nodup := by
        rw [List.map_append, List.nodup_append]
        refine ⟨t.keys_nodup, by simp, fun a ha b hb => ?_⟩
        obtain ⟨r, hr, rfl⟩ := List.mem_map.1 ha
        simp only [List.map_cons, List.map_nil, List.mem_singleton] at hb
        rw [hb]
        exact h.2 r hr }
  else none

theorem create_rows {t t' : Table} {row : Session} (h : t.create row = some t') :
    t'.rows = t.rows ++ [row] := by
  unfold create at h
  split at h
  · cases h; rfl
  · cases h

/-! ### Update -/

/-- Write new totals into the rows a condition selects, as the `Updates` of
`setSessions` does; gorm stamps each row it updates. -/
def setUsage (t : Table) (cond : Session) (upload download : Int64) (now : Int) : Table where
  rows := t.rows.map fun r =>
    if cond.satisfies r then { r with upload := upload, download := download, updatedAt := now }
    else r
  ids_nodup := by
    have h : Session.id ∘ (fun r : Session => if cond.satisfies r then
        { r with upload := upload, download := download, updatedAt := now } else r)
        = Session.id := by
      funext r; simp only [Function.comp]; split <;> rfl
    rw [List.map_map, h]
    exact t.ids_nodup
  keys_nodup := by
    have h : Session.key ∘ (fun r : Session => if cond.satisfies r then
        { r with upload := upload, download := download, updatedAt := now } else r)
        = Session.key := by
      funext r; simp only [Function.comp]; split <;> rfl
    rw [List.map_map, h]
    exact t.keys_nodup

/-- An update changes no row's id and no row's key. -/
theorem mem_setUsage {t : Table} {cond : Session} {up down : Int64} {now : Int} {r : Session}
    (h : r ∈ t.rows) : ∃ r' ∈ (t.setUsage cond up down now).rows, r'.id = r.id ∧ r'.key = r.key := by
  refine ⟨_, List.mem_map.2 ⟨r, h, rfl⟩, ?_⟩
  split <;> exact ⟨rfl, rfl⟩

@[simp] theorem keys_setUsage (t : Table) (cond : Session) (up down : Int64) (now : Int) :
    (t.setUsage cond up down now).keys = t.keys := by
  simp only [keys, setUsage, List.map_map]
  congr 1
  refine List.map_congr_left fun r _ => ?_
  simp only [Function.comp]
  split <;> rfl

/-! ### Delete -/

/-- Delete the rows a condition selects. -/
def delete (t : Table) (cond : Session) : Table where
  rows := t.rows.filter fun r => !cond.satisfies r
  ids_nodup := t.ids_nodup.sublist (List.filter_sublist.map _)
  keys_nodup := t.keys_nodup.sublist (List.filter_sublist.map _)

@[simp] theorem mem_delete {t : Table} {cond r : Session} :
    r ∈ (t.delete cond).rows ↔ r ∈ t.rows ∧ cond.satisfies r = false := by
  simp [delete]

end Table

end Dvpnd

import Dvpnd.Lib.Lists
import Dvpnd.Lib.Steps
import Dvpnd.Services.Clients

/-!
# What OpenVPN's `Peers` reports

The server keeps the counters of a connection for as long as it lasts, shows them in
its status table and states them once more when the connection ends
(`services/openvpn/openvpn.go`).  `Peers` adds the two: what the connections that ended
have used, which `disconnected` banks, and the table it has asked for.  The table is
read without the lock that guards the bank.

* `Bank` — `byCN`, `closed` and `peers`, and the two functions that go over them.
* `Meter`, `step` — the service, the connections, and the stream between them.
* `Undisturbed` — what has to hold while totals are drawn up: above all, **no connection
  changes sides** between the table a call was handed and the lock it takes.
* `Inv`, `Inv.step` — the books: what is banked for a peer is what its connections that
  ended have carried since it was added, and every total is at most what all have.
-/

namespace Dvpnd

/-! ## The bank -/

/-- `strconv.ParseInt` of a counter, the error ignored: one that does not fit gives the
largest number that does. -/
def parseCount (n : Nat) : Int64 := if n < 2 ^ 63 then Int64.ofNat n else Int64.maxValue

/-- The service's records, with the names of `byCN` in the order a loop takes them. -/
structure Bank extends Registry where
  cns : List String
  nodup : cns.Nodup
  mem_cns : ∀ {cn}, cn ∈ cns ↔ (names cn).isSome

namespace Bank

/-- No client yet. -/
def empty : Bank where
  toRegistry := Registry.empty
  cns := []
  nodup := List.nodup_nil
  mem_cns := ⟨nofun, nofun⟩

/-- `AddPeer`. -/
def add (b : Bank) (data : List UInt8) (h : checkPeerData data = none) : Bank where
  toRegistry := b.toRegistry.add data h
  cns := if formatUUID data ∈ b.cns then b.cns else formatUUID data :: b.cns
  nodup := by
    split
    · exact b.nodup
    · exact List.nodup_cons.2 ⟨by assumption, b.nodup⟩
  mem_cns {cn} := by
    have hold := @b.mem_cns cn
    by_cases hn : cn = formatUUID data
    · subst hn
      by_cases hin : formatUUID data ∈ b.cns <;> simp [hin, Registry.add]
    · by_cases hin : formatUUID data ∈ b.cns <;> simp [hin, hn, Registry.add, hold]

/-- `RemovePeer`, as far as the records. -/
def forget (b : Bank) (data : List UInt8) : Bank where
  toRegistry := b.toRegistry.forget data
  cns := b.cns.erase (formatUUID data)
  nodup := b.nodup.erase _
  mem_cns {cn} := by
    rw [b.nodup.mem_erase_iff, b.mem_cns]
    by_cases hn : cn = formatUUID data
    · simp [hn, Registry.forget]
    · simp [hn, Registry.forget]

/-- `disconnected`.  A peer with a name has an entry in `closed`, so the one the source
would make here is never missing. -/
def disconnected (b : Bank) (commonName : String) (received sent : Int64) : Bank :=
  match b.names commonName with
  | none => b
  | some key =>
      { b with
        toRegistry := b.toRegistry.count fun k t =>
          if k = key then t.add ⟨received, sent⟩ else t
        mem_cns := b.mem_cns }

/-- What `Peers` reports for one key: what is banked, and the rows of the names that
stand for it. -/
def item (b : Bank) (live : String → Option Traffic) (key : Key) : Traffic :=
  b.cns.foldl
    (fun t cn => if b.names cn = some key then t.add ((live cn).getD {}) else t)
    ((b.traffic key).getD {})

/-- `Peers`, after the table is read. -/
def peersOf (b : Bank) (live : String → Option Traffic) (key : Key) : Option Traffic :=
  if key ∈ b.peers.keys then some (b.item live key) else none

end Bank

/-! ## Connections and calls -/

/-- How far a connection has come: a `left` one is out of the status table, of an `ended`
one the server has written the `DISCONNECT`, and the reader has `handled` that. -/
inductive Phase
  | starting
  | listed
  | left
  | ended
  | handled
  deriving DecidableEq

/-- A connection, with the bytes the server has carried for it. -/
structure Tunnel where
  commonName : String
  received : Nat := 0
  sent : Nat := 0
  phase : Phase := .starting
  deriving DecidableEq

def Tunnel.bytes (t : Tunnel) : Direction → Nat
  | .upload => t.received
  | .download => t.sent

/-- A line of the status table. -/
structure Row where
  cid : Nat
  commonName : String
  received : Nat
  sent : Nat
  deriving DecidableEq

/-- The counters as `status` reads them. -/
def Row.traffic (row : Row) : Traffic := ⟨parseCount row.received, parseCount row.sent⟩

def Row.bytes (row : Row) : Direction → Nat
  | .upload => row.received
  | .download => row.sent

/-- `live` of `Peers`: of two rows with one name the later one counts. -/
def live (rows : List Row) : String → Option Traffic :=
  rows.foldl (fun m row => Function.update m row.commonName (some row.traffic)) fun _ => none

/-- What the server writes: the table a call has asked for, or the end of a connection. -/
inductive Message
  | table (call : Nat) (rows : List Row)
  | disconnect (cid : Nat) (commonName : String) (received sent : Nat)
  deriving DecidableEq

/-- A call of `Peers`.  With what it returned stands what the server had carried by then
for each name since its peer was added. -/
inductive Call
  | asked
  | answered
  | holding (rows : List Row)
  | returned (items : Key → Option Traffic) (carried : String → Direction → Nat)
  | failed

/-- The service, the connections and what the server has written. -/
structure Meter where
  bank : Bank
  tunnels : List Tunnel
  stream : List Message
  calls : List Call
  /-- What had been carried for a name when its peer was added. -/
  base : String → Direction → Nat

namespace Meter

/-- A service that has just started. -/
def start : Meter := ⟨Bank.empty, [], [], [], fun _ _ => 0⟩

/-- The bytes of a connection, if it is of that name and in one of some phases. -/
def weight (p : Phase → Bool) (cn : String) (d : Direction) (t : Tunnel) : Nat :=
  if t.commonName = cn ∧ p t.phase then t.bytes d else 0

/-- The bytes of all of them. -/
def sum (s : Meter) (p : Phase → Bool) (cn : String) (d : Direction) : Nat :=
  (s.tunnels.map (weight p cn d)).sum

/-- What the server has carried for a name. -/
def carried (s : Meter) (cn : String) (d : Direction) : Nat := s.sum (fun _ => true) cn d

/-- The status table: a line for each connection that is listed. -/
def rows (s : Meter) : List Row :=
  (s.tunnels.zipIdx.filter fun t => t.1.phase = .listed).map fun t =>
    ⟨t.2, t.1.commonName, t.1.received, t.1.sent⟩

/-! ## The steps -/

/-- A client connects. -/
def connect (s : Meter) (commonName : String) : Meter :=
  { s with tunnels := s.tunnels ++ [{ commonName }] }

/-- A connection changes, where it can. -/
def change (s : Meter) (cid : Nat) (f : Tunnel → Option Tunnel) : Option Meter :=
  (s.tunnels[cid]?.bind f).map fun t => { s with tunnels := s.tunnels.set cid t }

/-- It appears in the status table. -/
def enlist (t : Tunnel) : Option Tunnel :=
  if t.phase = .starting then some { t with phase := .listed } else none

/-- Data moves, until the server has written the final counts. -/
def move (received sent : Nat) (t : Tunnel) : Option Tunnel :=
  match t.phase with
  | .ended | .handled => none
  | _ => some { t with received := t.received + received, sent := t.sent + sent }

/-- It leaves the table. -/
def leave (t : Tunnel) : Option Tunnel :=
  match t.phase with
  | .starting | .listed => some { t with phase := .left }
  | _ => none

/-- It ends, and with that it is out of the table at the latest. -/
def finish (t : Tunnel) : Option Tunnel :=
  match t.phase with
  | .ended | .handled => none
  | _ => some { t with phase := .ended }

/-- The server writes the `DISCONNECT` of a connection that ends. -/
def disconnect (s : Meter) (cid : Nat) : Option Meter :=
  (s.tunnels[cid]?.bind finish).map fun t =>
    { s with
      tunnels := s.tunnels.set cid t
      stream := s.stream ++ [.disconnect cid t.commonName t.received t.sent] }

/-- `Peers` asks for the status table. -/
def ask (s : Meter) : Meter := { s with calls := s.calls ++ [.asked] }

/-- The server writes it. -/
def answer (s : Meter) (call : Nat) : Option Meter :=
  match s.calls[call]? with
  | some .asked => some
      { s with calls := s.calls.set call .answered, stream := s.stream ++ [.table call s.rows] }
  | _ => none

/-- The call is handed its table, unless it has given up. -/
def handOver (rows : List Row) : Call → Call
  | .answered => .holding rows
  | c => c

/-- The reader takes what the server wrote first. -/
def read (s : Meter) : Option Meter :=
  match s.stream with
  | [] => none
  | .table call rows :: stream =>
      some { s with stream, calls := s.calls.modify call (handOver rows) }
  | .disconnect cid commonName received sent :: stream => some
      { s with
        stream
        bank := s.bank.disconnected commonName (parseCount received) (parseCount sent)
        tunnels := s.tunnels.modify cid fun t => { t with phase := .handled } }

/-- What `Peers` returns. -/
def total (s : Meter) (rows : List Row) : Call :=
  .returned (s.bank.peersOf (live rows)) fun cn d => s.carried cn d - s.base cn d

/-- `Peers` takes the lock, adds up and returns. -/
def lock (s : Meter) (call : Nat) : Option Meter :=
  match s.calls[call]? with
  | some (.holding rows) => some { s with calls := s.calls.set call (s.total rows) }
  | _ => none

/-- The status command fails or takes too long. -/
def fail (s : Meter) (call : Nat) : Option Meter :=
  match s.calls[call]? with
  | some .asked | some .answered => some { s with calls := s.calls.set call .failed }
  | _ => none

/-- `AddPeer`. -/
def addPeer (s : Meter) (data : List UInt8) : Meter :=
  match h : checkPeerData data with
  | some _ => s
  | none =>
      { s with
        bank := s.bank.add data h
        base := if (s.bank.names (formatUUID data)).isSome then s.base
          else Function.update s.base (formatUUID data) (s.carried (formatUUID data)) }

/-- `RemovePeer`; that its connections end as well is up to the server. -/
def removePeer (s : Meter) (data : List UInt8) : Meter :=
  match checkPeerData data with
  | some _ => s
  | none => { s with bank := s.bank.forget data }

/-- Who takes the next turn. -/
inductive Act
  | connect (commonName : String)
  | enlist (cid : Nat)
  | move (cid received sent : Nat)
  | leave (cid : Nat)
  | disconnect (cid : Nat)
  | ask
  | answer (call : Nat)
  | read
  | lock (call : Nat)
  | fail (call : Nat)
  | addPeer (data : List UInt8)
  | removePeer (data : List UInt8)
  deriving DecidableEq

/-- One turn. -/
def step (s : Meter) : Act → Option Meter
  | .connect commonName => some (s.connect commonName)
  | .enlist cid => s.change cid enlist
  | .move cid received sent => s.change cid (move received sent)
  | .leave cid => s.change cid leave
  | .disconnect cid => s.disconnect cid
  | .ask => some s.ask
  | .answer call => s.answer call
  | .read => s.read
  | .lock call => s.lock call
  | .fail call => s.fail call
  | .addPeer data => some (s.addPeer data)
  | .removePeer data => some (s.removePeer data)

/-! ## What a total is to be, and when it is -/

/-- No total is above what the server has carried for the peer since it was added. -/
def Bounded : Call → Prop
  | .returned items carried => ∀ data t d, items (Key.of data) = some t →
      (t.get d).toInt ≤ carried (formatUUID data) d
  | _ => True

/-- What one call reports for a peer is at most what the other does. -/
def AtMost (key : Key) : Call → Call → Prop
  | .returned items₁ _, .returned items₂ _ => ∀ t₁ t₂ d, items₁ key = some t₁ →
      items₂ key = some t₂ → (t₁.get d).toInt ≤ (t₂.get d).toInt
  | _, _ => True

/-- The call has been handed a table with that connection. -/
def Holds (cid : Nat) : Call → Prop
  | .holding rows => cid ∈ rows.map Row.cid
  | _ => False

instance (cid : Nat) : (c : Call) → Decidable (Holds cid c)
  | .holding rows => inferInstanceAs (Decidable (cid ∈ rows.map Row.cid))
  | .asked | .answered | .returned _ _ | .failed => inferInstanceAs (Decidable False)

/-- The end of a connection is handled while a call holds a table that lists it. -/
def Overtakes (s : Meter) : Prop :=
  match s.stream with
  | .disconnect cid _ _ _ :: _ => ∃ c ∈ s.calls, Holds cid c
  | _ => False

instance (s : Meter) : Decidable s.Overtakes := by
  unfold Overtakes
  split <;> infer_instance

/-- The status table shows the one connection a peer has, and none that is on its way
out is missing from it. -/
def Shown (s : Meter) (cn : String) : Prop :=
  (∀ t ∈ s.tunnels, t.commonName = cn → t.phase ≠ .left) ∧
    (s.tunnels.filter fun t => t.commonName = cn ∧ t.phase = .listed).length ≤ 1

instance (s : Meter) (cn : String) : Decidable (s.Shown cn) := by unfold Shown; infer_instance

/-- Nothing is left of the connections of a name. -/
def Finished (s : Meter) (cn : String) : Prop :=
  ∀ t ∈ s.tunnels, t.commonName = cn → t.phase = .handled

instance (s : Meter) (cn : String) : Decidable (s.Finished cn) := by unfold Finished; infer_instance

/-- The step does not disturb a total: no connection changes sides while a call is under
way, a peer has one connection at a time and starts without any, and the counters stay
in the range of an `int64`. -/
def Undisturbed (s : Meter) : Act → Prop
  | .read => ¬ s.Overtakes
  | .answer _ => ∀ cn ∈ s.bank.cns, s.Shown cn
  | .addPeer data => checkPeerData data = none → formatUUID data ∉ s.bank.cns →
      s.Finished (formatUUID data)
  | .move cid received sent => ∀ t ∈ s.tunnels[cid]?,
      s.carried t.commonName .upload + received < 2 ^ 63 ∧
        s.carried t.commonName .download + sent < 2 ^ 63
  | _ => True

instance (s : Meter) : (a : Act) → Decidable (s.Undisturbed a)
  | .read => inferInstanceAs (Decidable (¬ s.Overtakes))
  | .answer _ => inferInstanceAs (Decidable (∀ cn ∈ s.bank.cns, s.Shown cn))
  | .addPeer data => inferInstanceAs (Decidable (checkPeerData data = none →
      formatUUID data ∉ s.bank.cns → s.Finished (formatUUID data)))
  | .move cid received sent => inferInstanceAs (Decidable (∀ t ∈ s.tunnels[cid]?,
      s.carried t.commonName .upload + received < 2 ^ 63 ∧
        s.carried t.commonName .download + sent < 2 ^ 63))
  | .connect _ | .enlist _ | .leave _ | .disconnect _ | .ask | .lock _ | .fail _
  | .removePeer _ => inferInstanceAs (Decidable True)

/-- The step neither adds nor removes the peer. -/
def Keeps (data : List UInt8) (a : Act) : Prop := a ≠ .addPeer data ∧ a ≠ .removePeer data

instance (data : List UInt8) (a : Act) : Decidable (Keeps data a) := by
  unfold Keeps; infer_instance

end Meter

/-! ## Adding up -/

theorem parseCount_toInt {n : Nat} (h : n < 2 ^ 63) : (parseCount n).toInt = n := by
  rw [parseCount, if_pos h, Int64.toInt_ofNat_of_lt h]

namespace Bank

variable {b : Bank} {lv : String → Option Traffic} {key : Key}

/-- The inner loop of `Peers` over names that do not stand for the key. -/
theorem foldl_names_of_ne {l : List String} (h : ∀ cn ∈ l, b.names cn ≠ some key) (t : Traffic) :
    l.foldl (fun t cn => if b.names cn = some key then t.add ((lv cn).getD {}) else t) t = t := by
  induction l generalizing t with
  | nil => rfl
  | cons cn l ih =>
      rw [List.foldl_cons, if_neg (h cn List.mem_cons_self)]
      exact ih (fun cn' hin => h cn' (List.mem_cons_of_mem _ hin)) t

theorem foldl_names_of_mem {l : List String} {cn : String} (hl : l.Nodup) (hmem : cn ∈ l)
    (hcn : b.names cn = some key) (huniq : ∀ cn', b.names cn' = some key → cn' = cn) (t : Traffic) :
    l.foldl (fun t cn => if b.names cn = some key then t.add ((lv cn).getD {}) else t) t =
      t.add ((lv cn).getD {}) := by
  induction l generalizing t with
  | nil => cases hmem
  | cons c l ih =>
      obtain ⟨hc, hl'⟩ := List.nodup_cons.1 hl
      rw [List.foldl_cons]
      rcases List.mem_cons.1 hmem with rfl | hin
      · rw [if_pos hcn]
        -- the name comes once, and no other stands for the key
        refine foldl_names_of_ne (fun cn' hin heq => ?_) _
        exact hc (huniq cn' heq ▸ hin)
      · have hne : b.names c ≠ some key := fun heq => hc (huniq c heq ▸ hin)
        rw [if_neg hne]
        exact ih hl' hin t

section Disconnected

variable (b) (cn : String) (received sent : Int64)

@[simp] theorem disconnected_cns : (b.disconnected cn received sent).cns = b.cns := by
  unfold disconnected
  split <;> rfl

theorem disconnected_traffic (key : Key) : (b.disconnected cn received sent).traffic key =
    if b.names cn = some key then (b.traffic key).map fun t => t.add ⟨received, sent⟩
    else b.traffic key := by
  unfold disconnected
  split
  · rename_i hnone
    rw [hnone, if_neg nofun]
  · rename_i k hk
    rw [hk]
    by_cases hkey : k = key
    · subst hkey
      simp [Registry.count]
    · have hkey' : key ≠ k := Ne.symm hkey
      simp [Registry.count, hkey, hkey']

end Disconnected

/-- **`Peers` adds what is banked for a peer and the one row it has.** -/
theorem item_eq {data : List UInt8} (hdata : checkPeerData data = none)
    (hreg : Key.of data ∈ b.peers.keys) (lv : String → Option Traffic) :
    b.item lv (Key.of data) =
      ((b.traffic (Key.of data)).getD {}).add ((lv (formatUUID data)).getD {}) := by
  have hname := (b.registered hdata).1 hreg
  refine foldl_names_of_mem b.nodup (b.mem_cns.2 (by rw [hname]; rfl)) hname (fun cn hcn => ?_) _
  obtain ⟨d, -, rfl, hkey⟩ := b.named hcn
  rw [Key.of_injective hkey]

end Bank

/-! ## Rows -/

theorem live_concat (rows : List Row) (row : Row) :
    live (rows ++ [row]) = Function.update (live rows) row.commonName (some row.traffic) := by
  rw [live, List.foldl_append]
  rfl

/-- What `live` has for a name is a row of that name. -/
theorem mem_of_live {rows : List Row} {cn : String} {t : Traffic} (h : live rows cn = some t) :
    ∃ row ∈ rows, row.commonName = cn ∧ row.traffic = t := by
  induction rows using List.reverseRecOn with
  | nil => cases h
  | append_singleton rows row ih =>
      rw [live_concat] at h
      by_cases hcn : cn = row.commonName
      · rw [hcn, Function.update_self] at h
        exact ⟨row, by simp, hcn.symm, Option.some.inj h⟩
      · rw [Function.update_of_ne hcn] at h
        obtain ⟨r, hr, hname, ht⟩ := ih h
        exact ⟨r, List.mem_append_left _ hr, hname, ht⟩

theorem live_isSome {rows : List Row} {row : Row} (h : row ∈ rows) :
    ∃ t, live rows row.commonName = some t := by
  induction rows using List.reverseRecOn with
  | nil => cases h
  | append_singleton rows r ih =>
      rw [live_concat]
      by_cases hcn : row.commonName = r.commonName
      · exact ⟨r.traffic, by rw [hcn, Function.update_self]⟩
      · rw [Function.update_of_ne hcn]
        rcases List.mem_append.1 h with hin | hnew
        · exact ih hin
        · cases List.mem_singleton.1 hnew
          exact absurd rfl hcn

namespace Meter

variable {s s' : Meter} {a : Act} {p : Phase → Bool} {cn : String} {d : Direction}

/-! ## What the connections have carried -/

theorem sum_set {cid : Nat} {t t' : Tunnel} (h : s.tunnels[cid]? = some t)
    (hset : s'.tunnels = s.tunnels.set cid t') (p : Phase → Bool) (cn : String) (d : Direction) :
    s'.sum p cn d + weight p cn d t = s.sum p cn d + weight p cn d t' := by
  rw [sum, sum, hset]
  exact Lists.sum_map_set t' h

theorem weight_le_sum {t : Tunnel} (h : t ∈ s.tunnels) : weight p cn d t ≤ s.sum p cn d :=
  Lists.le_sum_map h

/-- Connections in phases that have nothing in common add up. -/
theorem sum_add_sum_le {q r : Phase → Bool} (hpq : ∀ x, p x = true → q x = false)
    (hp : ∀ x, p x = true → r x = true) (hq : ∀ x, q x = true → r x = true) :
    s.sum p cn d + s.sum q cn d ≤ s.sum r cn d := by
  unfold sum
  induction s.tunnels with
  | nil => exact le_rfl
  | cons t l ih =>
      have ht : weight p cn d t + weight q cn d t ≤ weight r cn d t := by
        unfold weight
        by_cases hcn : t.commonName = cn
        · cases hpt : p t.phase with
          | true => simp [hcn, hpq _ hpt, hp _ hpt]
          | false =>
              cases hqt : q t.phase with
              | true => simp [hcn, hq _ hqt]
              | false => simp
        · simp [hcn]
      simp only [List.map_cons, List.sum_cons]
      omega

theorem sum_mono {q : Phase → Bool} (h : ∀ x, p x = true → q x = true) :
    s.sum p cn d ≤ s.sum q cn d := by
  have hsum := @sum_add_sum_le s p cn d (fun _ => false) q (fun _ _ => rfl) h nofun
  omega

/-- A connection that has been listed and is not handled comes on top of those that
are. -/
theorem sum_handled_add_bytes_le {t : Tunnel} (h : t ∈ s.tunnels)
    (hphase : t.phase ≠ .starting ∧ t.phase ≠ .handled) (d : Direction) :
    s.sum (· = .handled) t.commonName d + t.bytes d ≤ s.sum (· ≠ .starting) t.commonName d := by
  have hsplit := @sum_add_sum_le s (· = .handled) t.commonName d
    (fun x => decide (x ≠ .starting ∧ x ≠ .handled)) (· ≠ .starting)
    (by intro x hx; simp_all) (by intro x hx; simp_all) (by intro x hx; simp_all)
  have hweight := @weight_le_sum s (fun x => decide (x ≠ .starting ∧ x ≠ .handled)) t.commonName d
    t h
  rw [weight, if_pos ⟨rfl, decide_eq_true hphase⟩] at hweight
  omega

/-! ## The books -/

/-- What is banked for a peer. -/
def banked (s : Meter) (data : List UInt8) (d : Direction) : Int :=
  (((s.bank.traffic (Key.of data)).getD {}).get d).toInt

/-- The row is of a connection whose end is not handled yet, and is not ahead of it. -/
def Open (s : Meter) (row : Row) : Prop :=
  ∃ t, s.tunnels[row.cid]? = some t ∧ t.commonName = row.commonName ∧
    (t.phase ≠ .starting ∧ t.phase ≠ .handled) ∧ row.received ≤ t.received ∧ row.sent ≤ t.sent

/-- A connection ends once, and is in no table after that. -/
def Clear : Message → Message → Prop
  | .disconnect cid _ _ _, .disconnect cid' _ _ _ => cid ≠ cid'
  | .disconnect cid _ _ _, .table _ rows => cid ∉ rows.map Row.cid
  | _, _ => True

/-- The books agree with the connections. -/
structure Inv (s : Meter) : Prop where
  /-- What is banked is what the handled connections have carried since the peer was
  added. -/
  banked : ∀ {data}, checkPeerData data = none → formatUUID data ∈ s.bank.cns → ∀ d,
    0 ≤ s.banked data d ∧ s.banked data d + s.base (formatUUID data) d =
      s.sum (· = .handled) (formatUUID data) d
  fits : ∀ cn d, s.carried cn d < 2 ^ 63
  /-- A `DISCONNECT` on its way states the final counts. -/
  final : ∀ {cid cn received sent}, .disconnect cid cn received sent ∈ s.stream →
    s.tunnels[cid]? = some ⟨cn, received, sent, .ended⟩
  order : s.stream.Pairwise Clear
  tables : ∀ {call rows}, .table call rows ∈ s.stream → ∀ row ∈ rows, s.Open row
  held : ∀ {rows}, .holding rows ∈ s.calls → ∀ row ∈ rows, s.Open row
  bounded : ∀ c ∈ s.calls, Bounded c

theorem inv_start : start.Inv where
  banked _ h := by cases h
  fits _ _ := Nat.two_pow_pos 63
  final h := by cases h
  order := List.Pairwise.nil
  tables h := by cases h
  held h := by cases h
  bounded _ h := by cases h

/-- A connection changes and its end has not been written: it goes on under its name, with
no less carried, and if it has been listed it stays so. -/
structure Changes (t t' : Tunnel) : Prop where
  commonName : t'.commonName = t.commonName
  received : t.received ≤ t'.received
  sent : t.sent ≤ t'.sent
  before : t.phase ≠ .ended ∧ t.phase ≠ .handled
  after : t'.phase ≠ .handled ∧ (t.phase ≠ .starting → t'.phase ≠ .starting)

theorem Changes.bytes {t t' : Tunnel} (h : Changes t t') (d : Direction) : t.bytes d ≤ t'.bytes d := by
  cases d with
  | upload => exact h.received
  | download => exact h.sent

theorem enlist_changes {t t' : Tunnel} (h : enlist t = some t') : Changes t t' := by
  unfold enlist at h
  split at h
  · rename_i hp
    cases h
    exact ⟨rfl, le_rfl, le_rfl, by simp [hp], by simp⟩
  · cases h

theorem move_changes {received sent : Nat} {t t' : Tunnel} (h : move received sent t = some t') :
    Changes t t' ∧ t'.phase = t.phase ∧ t'.received = t.received + received ∧
      t'.sent = t.sent + sent := by
  unfold move at h
  split at h
  · cases h
  · cases h
  · rename_i he hh
    cases h
    exact ⟨⟨rfl, Nat.le_add_right _ _, Nat.le_add_right _ _, ⟨he, hh⟩, ⟨hh, id⟩⟩, rfl, rfl, rfl⟩

theorem leave_changes {t t' : Tunnel} (h : leave t = some t') : Changes t t' := by
  unfold leave at h
  split at h
  · rename_i hp
    cases h
    exact ⟨rfl, le_rfl, le_rfl, by simp [hp], by simp⟩
  · rename_i hp
    cases h
    exact ⟨rfl, le_rfl, le_rfl, by simp [hp], by simp⟩
  · cases h

theorem finish_changes {t t' : Tunnel} (h : finish t = some t') :
    Changes t t' ∧ t' = { t with phase := .ended } := by
  unfold finish at h
  split at h
  · cases h
  · cases h
  · rename_i he hh
    cases h
    exact ⟨⟨rfl, le_rfl, le_rfl, ⟨he, hh⟩, by simp⟩, rfl⟩

section Change

variable {cid : Nat} {t t' : Tunnel} (ht : s.tunnels[cid]? = some t) (hc : Changes t t')
  (hset : s'.tunnels = s.tunnels.set cid t')

include ht hc hset

theorem Changes.sum_handled (cn : String) (d : Direction) :
    s'.sum (· = .handled) cn d = s.sum (· = .handled) cn d := by
  have hsum := sum_set ht hset (· = .handled) cn d
  have hold : weight (· = .handled) cn d t = 0 := by simp [weight, hc.before.2]
  have hnew : weight (· = .handled) cn d t' = 0 := by simp [weight, hc.after.1]
  omega

theorem Changes.open {row : Row} (h : s.Open row) : s'.Open row := by
  obtain ⟨u, hu, hname, hphase, hreceived, hsent⟩ := h
  by_cases hcid : cid = row.cid
  · have htu : t = u := Option.some.inj (ht.symm.trans (hcid ▸ hu))
    subst htu
    refine ⟨t', ?_, hc.commonName.trans hname, ⟨hc.after.2 hphase.1, hc.after.1⟩,
      hreceived.trans hc.received, hsent.trans hc.sent⟩
    rw [hset, ← hcid, List.getElem?_set_self (List.getElem?_eq_some_iff.1 ht).1]
  · exact ⟨u, by rw [hset, List.getElem?_set_ne hcid]; exact hu, hname, hphase, hreceived, hsent⟩

theorem Changes.ended {u : Tunnel} {i : Nat} (hu : s.tunnels[i]? = some u)
    (hphase : u.phase = .ended) : s'.tunnels[i]? = some u := by
  by_cases hi : cid = i
  · subst hi
    cases ht.symm.trans hu
    exact absurd hphase hc.before.1
  · rw [hset, List.getElem?_set_ne hi]
    exact hu

end Change

/-- A connection changes, and nothing else does. -/
theorem Inv.change (hi : s.Inv) {cid : Nat} {t t' : Tunnel} (ht : s.tunnels[cid]? = some t)
    (hc : Changes t t') (hs : s' = { s with tunnels := s.tunnels.set cid t' })
    (hfits : ∀ cn d, s'.carried cn d < 2 ^ 63) : s'.Inv := by
  have hset : s'.tunnels = s.tunnels.set cid t' := by rw [hs]
  subst hs
  exact
    { banked := fun hdata hreg d => by
        rw [hc.sum_handled ht hset]
        exact hi.banked hdata hreg d
      fits := hfits
      final := fun hmem => hc.ended ht hset (hi.final hmem) rfl
      order := hi.order
      tables := fun hmem row hrow => hc.open ht hset (hi.tables hmem row hrow)
      held := fun hmem row hrow => hc.open ht hset (hi.held hmem row hrow)
      bounded := hi.bounded }

/-- A change of phase carries nothing. -/
theorem carried_set_phase {cid : Nat} {t t' : Tunnel} (ht : s.tunnels[cid]? = some t)
    (hname : t'.commonName = t.commonName) (hbytes : ∀ d, t'.bytes d = t.bytes d)
    (hset : s'.tunnels = s.tunnels.set cid t') (cn : String) (d : Direction) :
    s'.carried cn d = s.carried cn d := by
  have hsum := sum_set ht hset (fun _ => true) cn d
  have hweight : weight (fun _ => true) cn d t' = weight (fun _ => true) cn d t := by
    rw [weight, weight, hname, hbytes]
  rw [carried, carried]
  omega

theorem change_eq_some {cid : Nat} {f : Tunnel → Option Tunnel} (h : s.change cid f = some s') :
    ∃ t t', s.tunnels[cid]? = some t ∧ f t = some t' ∧
      s' = { s with tunnels := s.tunnels.set cid t' } := by
  obtain ⟨t', hbind, rfl⟩ := Option.map_eq_some_iff.1 h
  obtain ⟨t, ht, hf⟩ := Option.bind_eq_some_iff.1 hbind
  exact ⟨t, t', ht, hf, rfl⟩

theorem Inv.enlist (hi : s.Inv) {cid : Nat} (h : s.change cid enlist = some s') : s'.Inv := by
  obtain ⟨t, t', ht, hf, rfl⟩ := change_eq_some h
  refine hi.change ht (enlist_changes hf) rfl fun cn d => ?_
  rw [carried_set_phase ht (enlist_changes hf).commonName _ rfl]
  · exact hi.fits cn d
  · unfold Meter.enlist at hf
    split at hf <;> cases hf
    exact fun d => rfl

theorem Inv.leave (hi : s.Inv) {cid : Nat} (h : s.change cid leave = some s') : s'.Inv := by
  obtain ⟨t, t', ht, hf, rfl⟩ := change_eq_some h
  refine hi.change ht (leave_changes hf) rfl fun cn d => ?_
  rw [carried_set_phase ht (leave_changes hf).commonName _ rfl]
  · exact hi.fits cn d
  · unfold Meter.leave at hf
    split at hf <;> cases hf <;> exact fun d => rfl

theorem Inv.move (hi : s.Inv) {cid received sent : Nat}
    (hok : s.Undisturbed (.move cid received sent))
    (h : s.change cid (move received sent) = some s') : s'.Inv := by
  obtain ⟨t, t', ht, hf, rfl⟩ := change_eq_some h
  obtain ⟨hc, -, hreceived, hsent⟩ := move_changes hf
  obtain ⟨hup, hdown⟩ := hok t ht
  refine hi.change ht hc rfl fun cn d => ?_
  have hset : ({ s with tunnels := s.tunnels.set cid t' } : Meter).tunnels =
      s.tunnels.set cid t' := rfl
  have hsum := sum_set ht hset (fun _ => true) cn d
  have hfits := hi.fits cn d
  by_cases hcn : t.commonName = cn
  · subst hcn
    rw [carried] at hfits hup hdown ⊢
    simp only [weight, hc.commonName, true_and, if_true] at hsum
    cases d with
    | upload => simp only [Tunnel.bytes, hreceived] at hsum; omega
    | download => simp only [Tunnel.bytes, hsent] at hsum; omega
  · have hcn' : t'.commonName ≠ cn := hc.commonName ▸ hcn
    simp only [weight, hcn, hcn', false_and, if_false] at hsum
    rw [carried] at hfits ⊢
    omega

theorem sum_connect (commonName : String) (p : Phase → Bool) (cn : String) (d : Direction) :
    (s.connect commonName).sum p cn d = s.sum p cn d := by
  have hzero : weight p cn d { commonName } = 0 := by
    unfold weight
    split
    · cases d <;> rfl
    · rfl
  simp [sum, Meter.connect, hzero]

theorem Inv.connect (hi : s.Inv) (commonName : String) : (s.connect commonName).Inv := by
  have hold : ∀ {i t}, s.tunnels[i]? = some t → (s.connect commonName).tunnels[i]? = some t :=
    fun {i t} h => by
      rw [Meter.connect, List.getElem?_append_left (List.getElem?_eq_some_iff.1 h).1]
      exact h
  have hopen : ∀ {row}, s.Open row → (s.connect commonName).Open row :=
    fun ⟨t, ht, hrest⟩ => ⟨t, hold ht, hrest⟩
  exact
    { banked := fun hdata hreg d => by rw [sum_connect]; exact hi.banked hdata hreg d
      fits := fun cn d => by rw [carried, sum_connect]; exact hi.fits cn d
      final := fun hmem => hold (hi.final hmem)
      order := hi.order
      tables := fun hmem row hrow => hopen (hi.tables hmem row hrow)
      held := fun hmem row hrow => hopen (hi.held hmem row hrow)
      bounded := hi.bounded }

/-- Rows that are drawn up now are of connections that are open now. -/
theorem open_of_mem_rows {row : Row} (h : row ∈ s.rows) :
    s.tunnels[row.cid]? = some ⟨row.commonName, row.received, row.sent, .listed⟩ := by
  obtain ⟨⟨t, i⟩, hmem, rfl⟩ := List.mem_map.1 h
  obtain ⟨hin, hphase⟩ := List.mem_filter.1 hmem
  have ht := List.mem_zipIdx_iff_getElem?.1 hin
  have hlisted : t.phase = .listed := of_decide_eq_true hphase
  show s.tunnels[i]? = some ⟨t.commonName, t.received, t.sent, .listed⟩
  rw [ht, ← hlisted]

theorem Open.of_mem_rows {row : Row} (h : row ∈ s.rows) : s.Open row :=
  ⟨_, open_of_mem_rows h, rfl, by simp, le_rfl, le_rfl⟩

theorem Inv.disconnect (hi : s.Inv) {cid : Nat} (h : s.disconnect cid = some s') : s'.Inv := by
  obtain ⟨t', hbind, rfl⟩ := Option.map_eq_some_iff.1 h
  obtain ⟨t, ht, hf⟩ := Option.bind_eq_some_iff.1 hbind
  obtain ⟨hc, rfl⟩ := finish_changes hf
  have hset : ({ s with tunnels := s.tunnels.set cid { t with phase := .ended } } : Meter).tunnels =
      s.tunnels.set cid { t with phase := .ended } := rfl
  have hbytes : ∀ d, ({ t with phase := .ended } : Tunnel).bytes d = t.bytes d := fun d => by
    cases d <;> rfl
  have hmid : Inv { s with tunnels := s.tunnels.set cid { t with phase := .ended } } :=
    hi.change ht hc rfl fun cn d => by
      rw [carried_set_phase ht hc.commonName hbytes hset]
      exact hi.fits cn d
  have hself : (s.tunnels.set cid { t with phase := .ended })[cid]? =
      some { t with phase := .ended } :=
    List.getElem?_set_self (List.getElem?_eq_some_iff.1 ht).1
  refine { hmid with final := fun hmem => ?_, order := ?_, tables := fun hmem => ?_ }
  · rcases List.mem_append.1 hmem with hold | hnew
    · exact hmid.final hold
    · cases List.mem_singleton.1 hnew
      exact hself
  · refine List.pairwise_append.2 ⟨hi.order, List.pairwise_singleton _ _, fun m hm m' hm' => ?_⟩
    cases List.mem_singleton.1 hm'
    -- an end that is already on its way is of another connection
    cases m with
    | table call rows => exact trivial
    | disconnect cid' cn received sent =>
        rintro rfl
        cases ht.symm.trans (hi.final hm)
        exact hc.before.1 rfl
  · rcases List.mem_append.1 hmem with hold | hnew
    · exact hmid.tables hold
    · cases List.mem_singleton.1 hnew

theorem Inv.ask (hi : s.Inv) : s.ask.Inv :=
  { hi with
    held := fun hmem => by
      rcases List.mem_append.1 hmem with hold | hnew
      · exact hi.held hold
      · cases List.mem_singleton.1 hnew
    bounded := fun c hmem => by
      rcases List.mem_append.1 hmem with hold | hnew
      · exact hi.bounded c hold
      · cases List.mem_singleton.1 hnew
        exact trivial }

/-- A call goes on, and nothing else changes. -/
theorem Inv.setCall (hi : s.Inv) {call : Nat} {c : Call}
    (hheld : ∀ rows, c = .holding rows → ∀ row ∈ rows, s.Open row) (hbounded : Bounded c) :
    Inv { s with calls := s.calls.set call c } :=
  { hi with
    held := fun {rows} hmem => by
      rcases List.mem_or_eq_of_mem_set hmem with hold | hnew
      · exact hi.held hold
      · exact hheld rows hnew.symm
    bounded := fun c' hmem => by
      rcases List.mem_or_eq_of_mem_set hmem with hold | rfl
      · exact hi.bounded c' hold
      · exact hbounded }

theorem Inv.answer (hi : s.Inv) {call : Nat} (h : s.answer call = some s') : s'.Inv := by
  unfold Meter.answer at h
  split at h
  · cases h
    have hmid : Inv { s with calls := s.calls.set call .answered } := hi.setCall nofun trivial
    refine { hmid with final := fun hmem => ?_, order := ?_, tables := fun hmem => ?_ }
    · rcases List.mem_append.1 hmem with hold | hnew
      · exact hi.final hold
      · cases List.mem_singleton.1 hnew
    · refine List.pairwise_append.2 ⟨hi.order, List.pairwise_singleton _ _, fun m hm m' hm' => ?_⟩
      cases List.mem_singleton.1 hm'
      cases m with
      | table call rows => exact trivial
      | disconnect cid cn received sent =>
          -- a connection whose end is written is not listed
          intro hin
          obtain ⟨row, hrow, hcid⟩ := List.mem_map.1 hin
          have hlisted := open_of_mem_rows hrow
          rw [hcid, hi.final hm] at hlisted
          cases hlisted
    · rcases List.mem_append.1 hmem with hold | hnew
      · exact hmid.tables hold
      · cases List.mem_singleton.1 hnew
        exact fun row hrow => Open.of_mem_rows hrow
  · cases h

theorem Inv.fail (hi : s.Inv) {call : Nat} (h : s.fail call = some s') : s'.Inv := by
  unfold Meter.fail at h
  split at h
  · cases h; exact hi.setCall nofun trivial
  · cases h; exact hi.setCall nofun trivial
  · cases h

/-- What a table shows for a name. -/
def shown (rows : List Row) (cn : String) (d : Direction) : Int :=
  (((live rows cn).getD {}).get d).toInt

theorem Row.get_traffic (row : Row) (d : Direction) : row.traffic.get d = parseCount (row.bytes d) := by
  cases d <;> rfl

/-- A row shows no more than its connection has carried, which is not banked yet. -/
theorem Inv.shown_le (hi : s.Inv) {rows : List Row} (hrows : ∀ row ∈ rows, s.Open row) (cn : String)
    (d : Direction) : 0 ≤ shown rows cn d ∧
      s.sum (· = .handled) cn d + shown rows cn d ≤ s.sum (· ≠ .starting) cn d := by
  unfold shown
  cases hlive : live rows cn with
  | none =>
      have hle := @sum_mono s (· = .handled) cn d (· ≠ .starting) (by intro x hx; simp_all)
      simp only [Option.getD_none, Traffic.get_default, Int64.toInt_zero]
      omega
  | some tr =>
      obtain ⟨row, hrow, rfl, rfl⟩ := mem_of_live hlive
      obtain ⟨t, ht, hname, hphase, hreceived, hsent⟩ := hrows row hrow
      have hle : row.bytes d ≤ t.bytes d := by
        cases d with
        | upload => exact hreceived
        | download => exact hsent
      have hsum := sum_handled_add_bytes_le (List.mem_of_getElem? ht) hphase d
      have hall := @sum_mono s (· ≠ .starting) t.commonName d (fun _ => true) fun _ _ => rfl
      have hfits := hi.fits t.commonName d
      rw [carried] at hfits
      rw [Option.getD_some, Row.get_traffic, parseCount_toInt (by omega), ← hname]
      omega

/-- **A total is what is banked and what the table shows.** -/
theorem Inv.total_eq (hi : s.Inv) {rows : List Row} (hrows : ∀ row ∈ rows, s.Open row)
    {data : List UInt8} {t : Traffic} (h : s.bank.peersOf (live rows) (Key.of data) = some t)
    (d : Direction) : (t.get d).toInt = s.banked data d + shown rows (formatUUID data) d ∧
      (t.get d).toInt + s.base (formatUUID data) d ≤ s.carried (formatUUID data) d := by
  unfold Bank.peersOf at h
  split at h
  · rename_i hreg
    cases h
    have hdata := s.bank.peers.accepted data hreg
    have hcn : formatUUID data ∈ s.bank.cns :=
      s.bank.mem_cns.2 (by rw [(s.bank.registered hdata).1 hreg]; rfl)
    obtain ⟨hpos, hbank⟩ := hi.banked hdata hcn d
    obtain ⟨hrow, hle⟩ := hi.shown_le hrows (formatUUID data) d
    have hall := @sum_mono s (· ≠ .starting) (formatUUID data) d (fun _ => true) fun _ _ => rfl
    have hfits := hi.fits (formatUUID data) d
    rw [carried] at hfits ⊢
    have htotal : ((s.bank.item (live rows) (Key.of data)).get d).toInt =
        s.banked data d + shown rows (formatUUID data) d := by
      rw [Bank.item_eq hdata hreg, Traffic.get_add]
      refine toInt_add_of_lt hpos hrow ?_
      change s.banked data d + shown rows (formatUUID data) d < 2 ^ 63
      omega
    refine ⟨htotal, ?_⟩
    rw [htotal]
    omega
  · cases h

theorem Inv.lock (hi : s.Inv) {call : Nat} (h : s.lock call = some s') : s'.Inv := by
  unfold Meter.lock at h
  split at h
  · rename_i rows hcall
    cases h
    refine hi.setCall nofun fun data t d ht => ?_
    have htotal := (hi.total_eq (hi.held (List.mem_of_getElem? hcall)) ht d).2
    push_cast
    omega
  · cases h

theorem Inv.read_table (hi : s.Inv) {call : Nat} {rows : List Row} {stream : List Message}
    (hstream : s.stream = .table call rows :: stream) :
    Inv { s with stream, calls := s.calls.modify call (handOver rows) } := by
  have hsub : ∀ {m}, m ∈ stream → m ∈ s.stream := fun hm => by
    rw [hstream]; exact List.mem_cons_of_mem _ hm
  have hopen := hi.tables (by rw [hstream]; exact List.mem_cons_self : .table call rows ∈ s.stream)
  have hcalls : ∀ c ∈ s.calls.modify call (handOver rows), c ∈ s.calls ∨ c = .holding rows := by
    intro c hc
    obtain ⟨i, hget⟩ := List.getElem?_of_mem hc
    rw [List.getElem?_modify] at hget
    obtain ⟨c₀, hc₀, rfl⟩ := Option.map_eq_some_iff.1 hget
    have hin := List.mem_of_getElem? hc₀
    split
    · cases c₀ with
      | answered => exact .inr rfl
      | _ => exact .inl hin
    · exact .inl hin
  exact
    { hi with
      final := fun hmem => hi.final (hsub hmem)
      order := (List.pairwise_cons.1 (hstream ▸ hi.order)).2
      tables := fun hmem => hi.tables (hsub hmem)
      held := fun {rows'} hmem => by
        rcases hcalls _ hmem with hold | hnew
        · exact hi.held hold
        · cases hnew; exact hopen
      bounded := fun c hmem => by
        rcases hcalls c hmem with hold | rfl
        · exact hi.bounded c hold
        · exact trivial }

section Handled

variable {cid : Nat} {name : String} {received sent : Nat} {stream : List Message}

/-- The reader banks what a connection has carried. -/
theorem Inv.banked_disconnect (hi : s.Inv)
    (ht : s.tunnels[cid]? = some ⟨name, received, sent, .ended⟩)
    (hset : s'.tunnels = s.tunnels.set cid ⟨name, received, sent, .handled⟩)
    (hbank : s'.bank = s.bank.disconnected name (parseCount received) (parseCount sent))
    (hbase : s'.base = s.base) {data : List UInt8} (hdata : checkPeerData data = none)
    (hcn : formatUUID data ∈ s.bank.cns) (d : Direction) :
    0 ≤ s'.banked data d ∧ s'.banked data d + s'.base (formatUUID data) d =
      s'.sum (· = .handled) (formatUUID data) d := by
  obtain ⟨hpos, hbooks⟩ := hi.banked hdata hcn d
  have hsum := sum_set ht hset (· = .handled) (formatUUID data) d
  obtain ⟨key, hkey⟩ := Option.isSome_iff_exists.1 (s.bank.mem_cns.1 hcn)
  obtain ⟨data', -, hname, rfl⟩ := s.bank.named hkey
  cases formatUUID_injective hname
  have hreg := (s.bank.registered hdata).2 hkey
  obtain ⟨tr, htr⟩ := Option.isSome_iff_exists.1 (s.bank.counted.1 hreg)
  have hbanked : s.banked data d = (tr.get d).toInt := by rw [Meter.banked, htr]; rfl
  have hbanked' : s'.banked data d =
      (((s.bank.disconnected name (parseCount received) (parseCount sent)).traffic
        (Key.of data)).getD {} |>.get d).toInt := by rw [Meter.banked, hbank]
  rw [Bank.disconnected_traffic, htr] at hbanked'
  rw [hbase]
  by_cases hn : name = formatUUID data
  · subst hn
    rw [if_pos hkey, Option.map_some, Option.getD_some, Traffic.get_add] at hbanked'
    -- this connection has not been banked, and all of them fit
    have hle := (sum_handled_add_bytes_le (List.mem_of_getElem? ht) ⟨nofun, nofun⟩ d).trans
      (sum_mono (q := fun _ => true) fun _ _ => rfl)
    have hfits := hi.fits (formatUUID data) d
    rw [carried] at hfits
    have hparse : (Traffic.get ⟨parseCount received, parseCount sent⟩ d).toInt =
        Tunnel.bytes ⟨formatUUID data, received, sent, .ended⟩ d := by
      cases d <;> exact parseCount_toInt (lt_of_le_of_lt ((Nat.le_add_left _ _).trans hle) hfits)
    have hhandled : weight (· = .handled) (formatUUID data) d
        ⟨formatUUID data, received, sent, .handled⟩ =
          Tunnel.bytes ⟨formatUUID data, received, sent, .ended⟩ d := by
      cases d <;> simp [weight, Tunnel.bytes]
    have hended : weight (· = .handled) (formatUUID data) d
        ⟨formatUUID data, received, sent, .ended⟩ = 0 := by simp [weight]
    simp only at hle
    rw [toInt_add_of_lt (by omega) (by omega) (by omega)] at hbanked'
    omega
  · have hkey' : s.bank.names name ≠ some (Key.of data) := fun heq => by
      obtain ⟨d', -, rfl, hd'⟩ := s.bank.named heq
      exact hn (by rw [Key.of_injective hd'])
    rw [if_neg hkey'] at hbanked'
    simp only [weight, hn, false_and, if_false] at hsum
    rw [Option.getD_some] at hbanked'
    omega

theorem modify_handled (ht : s.tunnels[cid]? = some ⟨name, received, sent, .ended⟩) :
    s.tunnels.modify cid (fun t => { t with phase := .handled }) =
      s.tunnels.set cid ⟨name, received, sent, .handled⟩ := by
  rw [List.modify_eq_set_getElem?, ht]
  rfl

theorem Inv.read_disconnect (hi : s.Inv)
    (hstream : s.stream = .disconnect cid name received sent :: stream)
    (hok : ∀ c ∈ s.calls, ¬ Holds cid c)
    (hbank : s'.bank = s.bank.disconnected name (parseCount received) (parseCount sent))
    (htunnels : s'.tunnels = s.tunnels.modify cid fun t => { t with phase := .handled })
    (hrest : s'.stream = stream ∧ s'.calls = s.calls ∧ s'.base = s.base) : s'.Inv := by
  have ht : s.tunnels[cid]? = some ⟨name, received, sent, .ended⟩ :=
    hi.final (by rw [hstream]; exact List.mem_cons_self)
  obtain ⟨hclear, horder⟩ := List.pairwise_cons.1 (hstream ▸ hi.order)
  have hset := htunnels.trans (modify_handled ht)
  obtain ⟨hstream', hcalls, hbase⟩ := hrest
  have hsub : ∀ {m}, m ∈ s'.stream → m ∈ s.stream := fun hm => by
    rw [hstream]; exact List.mem_cons_of_mem _ (hstream' ▸ hm)
  have hbytes : ∀ d, Tunnel.bytes ⟨name, received, sent, .handled⟩ d =
      Tunnel.bytes ⟨name, received, sent, .ended⟩ d := fun d => by cases d <;> rfl
  have hname : (⟨name, received, sent, .handled⟩ : Tunnel).commonName =
      (⟨name, received, sent, .ended⟩ : Tunnel).commonName := rfl
  -- only the rows of this connection would be affected, and there are none left
  have hopen : ∀ {row : Row}, row.cid ≠ cid → s.Open row → s'.Open row := by
    rintro row hcid ⟨t, hget, hrest⟩
    exact ⟨t, by rw [hset, List.getElem?_set_ne (Ne.symm hcid)]; exact hget, hrest⟩
  exact
    { banked := fun hdata hcn d => by
        rw [hbank, Bank.disconnected_cns] at hcn
        exact hi.banked_disconnect ht hset hbank hbase hdata hcn d
      fits := fun cn d => by
        rw [carried_set_phase ht hname hbytes hset]
        exact hi.fits cn d
      final := fun {cid' cn r u} hmem => by
        have hold := hi.final (hsub hmem)
        rw [hstream'] at hmem
        have hne : cid ≠ cid' := hclear _ hmem
        rw [hset, List.getElem?_set_ne hne]
        exact hold
      order := hstream' ▸ horder
      tables := fun {call rows} hmem row hrow => by
        have hold := hi.tables (hsub hmem) row hrow
        rw [hstream'] at hmem
        have hne : cid ∉ rows.map Row.cid := hclear _ hmem
        refine hopen (fun heq => hne ?_) hold
        exact heq ▸ List.mem_map_of_mem hrow
      held := fun {rows} hmem row hrow => by
        rw [hcalls] at hmem
        refine hopen (fun heq => hok _ hmem ?_) (hi.held hmem row hrow)
        exact heq ▸ List.mem_map_of_mem hrow
      bounded := fun c hmem => hi.bounded c (hcalls ▸ hmem) }

end Handled

theorem Inv.read (hi : s.Inv) (hok : s.Undisturbed .read) (h : s.read = some s') : s'.Inv := by
  unfold Meter.read at h
  split at h
  · cases h
  · rename_i hstream
    cases h
    exact hi.read_table hstream
  · rename_i cid name received sent stream hstream
    cases h
    have hclear : ∀ c ∈ s.calls, ¬ Holds cid c := fun c hc hholds => hok (by
      rw [Overtakes, hstream]
      exact ⟨c, hc, hholds⟩)
    exact hi.read_disconnect hstream hclear rfl rfl ⟨rfl, rfl, rfl⟩

theorem Inv.addPeer (hi : s.Inv) {data : List UInt8} (hok : s.Undisturbed (.addPeer data)) :
    (s.addPeer data).Inv := by
  unfold Meter.addPeer
  split
  · exact hi
  · rename_i hdata
    refine { hi with banked := fun {data'} hdata' hcn' d => ?_ }
    by_cases heq : data' = data
    · subst heq
      have htraffic : (s.bank.add data' hdata).traffic (Key.of data') =
          some ((s.bank.traffic (Key.of data')).getD {}) := by
        simp [Bank.add, Registry.add]
      simp only [Meter.banked, htraffic, Option.getD_some]
      by_cases hin : formatUUID data' ∈ s.bank.cns
      · -- it was registered: what is banked stays
        rw [if_pos (s.bank.mem_cns.1 hin)]
        exact hi.banked hdata' hin d
      · -- it starts with nothing banked, when all its connections are handled
        rw [if_neg fun hsome => hin (s.bank.mem_cns.2 hsome), Function.update_self]
        have hnone : s.bank.traffic (Key.of data') = none := by
          rw [← Option.not_isSome_iff_eq_none, ← s.bank.counted, s.bank.registered hdata]
          intro hname
          exact hin (s.bank.mem_cns.2 (by rw [hname]; rfl))
        rw [hnone, Option.getD_none, Traffic.get_default, Int64.toInt_zero]
        refine ⟨le_rfl, ?_⟩
        rw [zero_add, Nat.cast_inj]
        refine congrArg List.sum (List.map_congr_left fun t ht => ?_)
        unfold weight
        by_cases hname : t.commonName = formatUUID data'
        · simp [hname, hok hdata' hin t ht hname]
        · simp [hname]
    · have hkey : Key.of data' ≠ Key.of data := fun h => heq (Key.of_injective h)
      have hname : formatUUID data' ≠ formatUUID data := fun h => heq (formatUUID_injective h)
      have hin : formatUUID data' ∈ s.bank.cns := by
        have hsome := (s.bank.add data hdata).mem_cns.1 hcn'
        refine s.bank.mem_cns.2 ?_
        simpa [Bank.add, Registry.add, hname] using hsome
      have htraffic : (s.bank.add data hdata).traffic (Key.of data') =
          s.bank.traffic (Key.of data') := by
        simp [Bank.add, Registry.add, hkey]
      obtain ⟨hpos, hbooks⟩ := hi.banked hdata' hin d
      simp only [Meter.banked, htraffic]
      refine ⟨hpos, ?_⟩
      split
      · exact hbooks
      · rw [Function.update_of_ne hname]
        exact hbooks

theorem Inv.removePeer (hi : s.Inv) (data : List UInt8) : (s.removePeer data).Inv := by
  unfold Meter.removePeer
  split
  · exact hi
  · refine { hi with banked := fun {data'} hdata' hcn' d => ?_ }
    have hcn := (s.bank.nodup.mem_erase_iff).1 hcn'
    have hkey : Key.of data' ≠ Key.of data := fun h => hcn.1 (by rw [Key.of_injective h])
    have htraffic : (s.bank.forget data).traffic (Key.of data') =
        s.bank.traffic (Key.of data') := by
      simp [Bank.forget, Registry.forget, hkey]
    simp only [Meter.banked, htraffic]
    exact hi.banked hdata' hcn.2 d

theorem Inv.step (hi : s.Inv) (hok : s.Undisturbed a) (h : s.step a = some s') : s'.Inv := by
  cases a with
  | connect commonName => cases h; exact hi.connect commonName
  | enlist cid => exact hi.enlist h
  | move cid received sent => exact hi.move hok h
  | leave cid => exact hi.leave h
  | disconnect cid => exact hi.disconnect h
  | ask => cases h; exact hi.ask
  | answer call => exact hi.answer h
  | read => exact hi.read hok h
  | lock call => exact hi.lock h
  | fail call => exact hi.fail h
  | addPeer data => cases h; exact hi.addPeer hok
  | removePeer data => cases h; exact hi.removePeer data

end Meter

end Dvpnd

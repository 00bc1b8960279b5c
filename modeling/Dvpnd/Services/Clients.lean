import Dvpnd.Services.Proxies

/-!
# The services that tell their server who may connect

Hysteria2 and OpenVPN (`services/hysteria`, `services/openvpn`) answer their server
when it asks about a new client, and ask it in turn to end a connection that is
open.  Both **forget the peer first and ask after**, so a removal that fails has
lost the peer all the same.

* `Clients` — the bookkeeping the two share: the names that may connect, the
  traffic, and the peers.
* `hysteria`, `openvpn` — the services; `hysteria_sound`, `openvpn_sound`.
* `hysteria_forgets`, `openvpn_forgets` — a removal of a registered peer leaves it
  unregistered, whatever the server answers.
-/

namespace Dvpnd

/-! ## What the two share -/

/-- `hex.EncodeToString`. -/
def hexEncode (data : List UInt8) : List Char :=
  data.flatMap fun b => [Nat.digitChar (b.toNat / 16), Nat.digitChar (b.toNat % 16)]

/-- `FormatUUID`. -/
def formatUUID (id : List UInt8) : String :=
  let h := hexEncode id
  String.ofList (h.take 8 ++ '-' :: (h.drop 8).take 4 ++ '-' :: (h.drop 12).take 4 ++
    '-' :: (h.drop 16).take 4 ++ '-' :: h.drop 20)

theorem digitChar_injOn {a b : Nat} (ha : a < 16) (hb : b < 16)
    (h : Nat.digitChar a = Nat.digitChar b) : a = b := by
  have hall : ∀ i j : Fin 16, Nat.digitChar i = Nat.digitChar j → i = j := by decide
  exact congrArg Fin.val (hall ⟨a, ha⟩ ⟨b, hb⟩ h)

theorem hexEncode_injective : Function.Injective hexEncode := by
  intro a
  induction a with
  | nil =>
      intro b h
      cases b with
      | nil => rfl
      | cons y b => cases h
  | cons x a ih =>
      intro b h
      cases b with
      | nil => cases h
      | cons y b =>
          simp only [hexEncode, List.flatMap_cons, List.cons_append, List.nil_append,
            List.cons.injEq] at h
          obtain ⟨hhi, hlo, hrest⟩ := h
          have hx := x.toNat_lt
          have hy := y.toNat_lt
          have hdiv := digitChar_injOn (by omega) (by omega) hhi
          have hmod := digitChar_injOn (by omega) (by omega) hlo
          have hxy : x.toNat = y.toNat := by omega
          rw [UInt8.toNat_inj.1 hxy, ih hrest]

/-- No hexadecimal digit is a dash. -/
theorem dash_notMem_hexEncode (data : List UInt8) : ∀ c ∈ hexEncode data, c ≠ '-' := by
  have hall : ∀ i : Fin 16, Nat.digitChar i ≠ '-' := by decide
  intro c hc
  obtain ⟨b, -, hb⟩ := List.mem_flatMap.1 hc
  have hlt := b.toNat_lt
  rcases List.mem_cons.1 hb with rfl | hb
  · exact hall ⟨b.toNat / 16, by omega⟩
  · cases List.mem_singleton.1 hb
    exact hall ⟨b.toNat % 16, by omega⟩

/-- The digits of a UUID are its text without the dashes. -/
theorem formatUUID_digits (data : List UInt8) :
    (formatUUID data).toList.filter (fun c => c ≠ '-') = hexEncode data := by
  have hsplit : hexEncode data = (hexEncode data).take 8 ++ (((hexEncode data).drop 8).take 4 ++
      (((hexEncode data).drop 12).take 4 ++ (((hexEncode data).drop 16).take 4 ++
        (hexEncode data).drop 20))) := by
    have hcut : ∀ (n : Nat), ((hexEncode data).drop n).take 4 ++ (hexEncode data).drop (n + 4) =
        (hexEncode data).drop n := fun n => by
      rw [← List.drop_drop, List.take_append_drop]
    rw [hcut 16, hcut 12, hcut 8, List.take_append_drop]
  have hdigits : (hexEncode data).filter (fun c => c ≠ '-') = hexEncode data :=
    List.filter_eq_self.2 fun c hc => decide_eq_true (dash_notMem_hexEncode data c hc)
  conv_rhs => rw [← hdigits, hsplit]
  simp [formatUUID]

/-- **No two peers have one name.** -/
theorem formatUUID_injective : Function.Injective formatUUID := fun a b h =>
  hexEncode_injective (by rw [← formatUUID_digits, ← formatUUID_digits, h])

/-- `checkPeerData` of both services. -/
def checkPeerData (data : List UInt8) : Option String :=
  if data.length ≠ 16 then some "peer data must be a 16-byte uuid" else none

/-- A peer's bytes, as far as the service adds them up itself. -/
structure Traffic where
  upload : Int64 := 0
  download : Int64 := 0
  deriving DecidableEq

/-- The two counters of a connection: what the server received and what it sent. -/
inductive Direction
  | upload
  | download
  deriving DecidableEq

instance {p : Direction → Prop} [DecidablePred p] : Decidable (∀ d, p d) :=
  decidable_of_iff (p .upload ∧ p .download)
    ⟨fun h d => by cases d with
      | upload => exact h.1
      | download => exact h.2, fun h => ⟨h _, h _⟩⟩

/-- One of the two. -/
def Traffic.get (t : Traffic) : Direction → Int64
  | .upload => t.upload
  | .download => t.download

/-- The sum of both. -/
def Traffic.add (t u : Traffic) : Traffic := ⟨t.upload + u.upload, t.download + u.download⟩

theorem Traffic.get_add (t u : Traffic) (d : Direction) : (t.add u).get d = t.get d + u.get d := by
  cases d <;> rfl

theorem Traffic.get_default (d : Direction) : ({} : Traffic).get d = 0 := by cases d <;> rfl

/-- `byAuth` or `byCN`, `traffic` or `closed`, and `peers`. -/
structure Clients where
  names : String → Option Key
  traffic : Key → Option Traffic
  peers : Users checkPeerData

namespace Clients

/-- No client yet. -/
def empty : Clients := ⟨fun _ => none, fun _ => none, Users.empty⟩

/-- What `AddPeer` writes down under the lock.  Traffic that is there stays. -/
def record (s : Clients) (data : List UInt8) : Clients :=
  { s with
    names := Function.update s.names (formatUUID data) (some (Key.of data))
    traffic := Function.update s.traffic (Key.of data) (some ((s.traffic (Key.of data)).getD {})) }

/-- What `RemovePeer` strikes out under it. -/
def strike (s : Clients) (data : List UInt8) : Clients :=
  { s with
    names := Function.update s.names (formatUUID data) none
    traffic := Function.update s.traffic (Key.of data) none }

/-- `peers.Put`. -/
def put (s : Clients) (data : List UInt8) (h : checkPeerData data = none) : Clients :=
  { s with peers := s.peers.put data h }

/-- `peers.Delete`. -/
def delete (s : Clients) (data : List UInt8) : Clients :=
  { s with peers := s.peers.delete (Key.of data) }

/-- The two writes of `AddPeer`. -/
def add (s : Clients) (data : List UInt8) (h : checkPeerData data = none) : Clients :=
  (s.record data).put data h

/-- And those of `RemovePeer`. -/
def forget (s : Clients) (data : List UInt8) : Clients := (s.strike data).delete data

section Fields

variable (s : Clients) (data : List UInt8) (h : checkPeerData data = none)

@[simp] theorem add_names : (s.add data h).names =
    Function.update s.names (formatUUID data) (some (Key.of data)) := rfl

@[simp] theorem add_traffic : (s.add data h).traffic =
    Function.update s.traffic (Key.of data) (some ((s.traffic (Key.of data)).getD {})) := rfl

@[simp] theorem add_keys : (s.add data h).peers.keys = insert (Key.of data) s.peers.keys := rfl

@[simp] theorem forget_names :
    (s.forget data).names = Function.update s.names (formatUUID data) none := rfl

@[simp] theorem forget_traffic :
    (s.forget data).traffic = Function.update s.traffic (Key.of data) none := rfl

@[simp] theorem forget_keys : (s.forget data).peers.keys = s.peers.keys.erase (Key.of data) := rfl

end Fields

end Clients

/-- The three records agree: a name stands for the peer it is the UUID of, and the
registered peers are those with a name and with counters. -/
structure Registry extends Clients where
  named : ∀ {name key}, names name = some key →
    ∃ data, checkPeerData data = none ∧ formatUUID data = name ∧ Key.of data = key
  registered : ∀ {data}, checkPeerData data = none →
    (Key.of data ∈ peers.keys ↔ names (formatUUID data) = some (Key.of data))
  counted : ∀ {key}, key ∈ peers.keys ↔ (traffic key).isSome

namespace Registry

/-- No client yet. -/
def empty : Registry where
  toClients := Clients.empty
  named h := by cases h
  registered _ := ⟨fun h => absurd h (Finset.notMem_empty _), fun h => by cases h⟩
  counted := ⟨fun h => absurd h (Finset.notMem_empty _), fun h => by cases h⟩

/-- What `AddPeer` writes down. -/
def add (r : Registry) (data : List UInt8) (h : checkPeerData data = none) : Registry where
  toClients := r.toClients.add data h
  named {name key} hname := by
    by_cases hn : name = formatUUID data
    · subst hn
      rw [Clients.add_names, Function.update_self] at hname
      exact ⟨data, h, rfl, Option.some.inj hname⟩
    · rw [Clients.add_names, Function.update_of_ne hn] at hname
      exact r.named hname
  registered {d} hd := by
    by_cases hn : d = data
    · subst hn
      simp
    · have hname : formatUUID d ≠ formatUUID data := fun heq => hn (formatUUID_injective heq)
      have hkey : Key.of d ≠ Key.of data := fun heq => hn (Key.of_injective heq)
      simp [hname, hkey, r.registered hd]
  counted {key} := by
    by_cases hk : key = Key.of data
    · simp [hk]
    · simp [hk, r.counted]

/-- What `RemovePeer` strikes out. -/
def forget (r : Registry) (data : List UInt8) : Registry where
  toClients := r.toClients.forget data
  named {name key} hname := by
    by_cases hn : name = formatUUID data
    · rw [Clients.forget_names, hn, Function.update_self] at hname
      cases hname
    · rw [Clients.forget_names, Function.update_of_ne hn] at hname
      exact r.named hname
  registered {d} hd := by
    by_cases hn : d = data
    · subst hn
      simp
    · have hname : formatUUID d ≠ formatUUID data := fun heq => hn (formatUUID_injective heq)
      have hkey : Key.of d ≠ Key.of data := fun heq => hn (Key.of_injective heq)
      simp [hname, hkey, r.registered hd]
  counted {key} := by
    by_cases hk : key = Key.of data
    · simp [hk]
    · simp [hk, r.counted]

/-- New counters for the peers that have some. -/
def count (r : Registry) (f : Key → Traffic → Traffic) : Registry where
  toClients := { r.toClients with traffic := fun key => (r.traffic key).map (f key) }
  named := r.named
  registered := r.registered
  counted := by
    intro key
    rw [Option.isSome_map]
    exact r.counted

end Registry

/-! ## Hysteria2 -/

/-- The error of a `/kick` request: it gets no answer, or one that is not OK. -/
def kickError : Except String Nat → Option String
  | .error e => some e
  | .ok status => if status ≠ 200 then some s!"kick: status {status}" else none

/-- `Hysteria`. -/
def hysteria : Service where
  State := Clients
  Ctl := Except String Nat
  addPeer data _ s :=
    match h : checkPeerData data with
    | some e => (.error e, s)
    | none => (.ok [], s.add data h)
  hasPeer data s := decide (Key.of data ∈ s.peers.keys)
  removePeer data c s :=
    match checkPeerData data with
    | some e => (some e, s)
    | none => (kickError c, s.forget data)
  peerCount s := s.peers.keys.card
  cutOff data c _ := (checkPeerData data).isNone && (kickError c).isNone
  registered s := s.peers.keys
  wf _ := True

/-! ## OpenVPN -/

/-- A line of the server's status table. -/
structure ClientStatus where
  commonName : String
  cid : String
  deriving DecidableEq

/-- What one call meets outside: the certificate and the key that are issued, the
server's status table, and its answer to each `client-kill`. -/
structure Management where
  issued : Except String (List UInt8 × List UInt8)
  status : Except String (List ClientStatus)
  clientKill : String → Option String

/-- The loop of `kill`. -/
def killEach (clientKill : String → Option String) (commonName : String) :
    List ClientStatus → Option String
  | [] => none
  | row :: rows =>
      if row.commonName ≠ commonName then killEach clientKill commonName rows
      else
        match clientKill row.cid with
        | none => killEach clientKill commonName rows
        | some e =>
            -- a client that has left in the meantime is no error
            if notFound e then killEach clientKill commonName rows else some e

/-- `kill`. -/
def Management.kill (c : Management) (commonName : String) : Option String :=
  match c.status with
  | .error e => some e
  | .ok rows => killEach c.clientKill commonName rows

/-- The clients, and whether the service has its keys and a server to talk to. -/
structure OpenVPN where
  clients : Clients
  pki : Bool
  mgmt : Bool

/-- `binary.BigEndian.PutUint32`. -/
def putUint32 (n : Nat) : List UInt8 :=
  [UInt8.ofNat (n / 2 ^ 24), UInt8.ofNat (n / 2 ^ 16), UInt8.ofNat (n / 2 ^ 8), UInt8.ofNat n]

/-- `OpenVPN`. -/
def openvpn : Service where
  State := OpenVPN
  Ctl := Management
  addPeer data c s :=
    match h : checkPeerData data with
    | some e => (.error e, s)
    | none =>
        if s.pki = false then (.error "openvpn was not initialised", s)
        else
          match c.issued with
          | .error e => (.error e, s)
          | .ok (certDER, keyDER) =>
              (.ok (putUint32 certDER.length ++ certDER ++ keyDER),
                { s with clients := s.clients.add data h })
  hasPeer data s := decide (Key.of data ∈ s.clients.peers.keys)
  removePeer data c s :=
    match checkPeerData data with
    | some e => (some e, s)
    | none => (if s.mgmt then c.kill (formatUUID data) else none,
        { s with clients := s.clients.forget data })
  peerCount s := s.clients.peers.keys.card
  cutOff data c s :=
    (checkPeerData data).isNone && s.mgmt && (c.kill (formatUUID data)).isNone
  registered s := s.clients.peers.keys
  wf _ := True

/-! ## The laws -/

/-- A removal of data that is accepted strikes the peer out before anything can
fail. -/
theorem hysteria_removePeer {data : List UInt8} (h : checkPeerData data = none)
    (c : Except String Nat) (s : Clients) :
    hysteria.removePeer data c s = (kickError c, s.forget data) := by
  simp only [hysteria, h]

theorem openvpn_removePeer {data : List UInt8} (h : checkPeerData data = none)
    (c : Management) (s : OpenVPN) :
    openvpn.removePeer data c s = (if s.mgmt then c.kill (formatUUID data) else none,
      { s with clients := s.clients.forget data }) := by
  simp only [openvpn, h]

theorem hysteria_sound : hysteria.Sound := by
  refine Service.Sound.of_cases (fun data s => by simp [hysteria]) (fun data c s => ?_)
    (fun data c s => ?_) (fun _ _ => trivial) (fun _ => trivial)
  · simp only [hysteria]
    split
    · exact .inr ⟨_, rfl, rfl⟩
    · exact .inl ⟨_, rfl, rfl⟩
  · cases hdata : checkPeerData data with
    | some e =>
        refine .inr ⟨by simp only [hysteria, hdata], fun h => ?_⟩
        simp [hysteria, hdata] at h
    | none =>
        rw [hysteria_removePeer hdata c s]
        exact .inl rfl

theorem openvpn_sound : openvpn.Sound := by
  refine Service.Sound.of_cases (fun data s => by simp [openvpn]) (fun data c s => ?_)
    (fun data c s => ?_) (fun _ _ => trivial) (fun _ => trivial)
  · simp only [openvpn]
    split
    · exact .inr ⟨_, rfl, rfl⟩
    · split
      · exact .inr ⟨_, rfl, rfl⟩
      · split
        · exact .inr ⟨_, rfl, rfl⟩
        · exact .inl ⟨_, rfl, rfl⟩
  · cases hdata : checkPeerData data with
    | some e =>
        refine .inr ⟨by simp only [openvpn, hdata], fun h => ?_⟩
        simp [openvpn, hdata] at h
    | none =>
        rw [openvpn_removePeer hdata c s]
        exact .inl rfl

/-- **Hysteria2 forgets a peer whose removal failed.** -/
theorem hysteria_forgets {data : List UInt8} {s : Clients} (h : Key.of data ∈ s.peers.keys)
    (c : Except String Nat) : hysteria.hasPeer data (hysteria.removePeer data c s).2 = false := by
  rw [hysteria_removePeer (s.peers.accepted data h)]
  exact decide_eq_false (Finset.notMem_erase _ _)

/-- **OpenVPN forgets a peer whose removal failed.** -/
theorem openvpn_forgets {data : List UInt8} {s : OpenVPN} (h : Key.of data ∈ s.clients.peers.keys)
    (c : Management) : openvpn.hasPeer data (openvpn.removePeer data c s).2 = false := by
  rw [openvpn_removePeer (s.clients.peers.accepted data h)]
  exact decide_eq_false (Finset.notMem_erase _ _)

end Dvpnd

import Dvpnd.Lib.Restart
import Dvpnd.Lib.X509
import Dvpnd.Services.Profiles
import Dvpnd.Services.StaticKey

/-!
# The certificate authority of an OpenVPN node

The node is its own certificate authority.  The first start makes it and writes it to five
files, one after the other; a later start sees that `ca.key` is there and only loads it.  **A
start that dies with `ca.key` opened and `tc.key` not yet written leaves a directory that no
later start gets past**: none of them makes the authority again, and none can load it.

* `create`, `load`, `loadOrCreatePKI`, `issue`, `issueClient` — the source's functions over
  the calls they make, with `os.WriteFile` as its two steps.
* `Together` — five files of one authority; `HalfMade` — the stage that is never left.
* `stage_of_start` — every start that can see whether `ca.key` is there leaves a directory
  without the authority, a half-made one, or five files that belong together, wherever it dies.
* `halfMade_writing_iff` — where a start has to die to leave it half-made;
  `nextStart_interrupted`, what every later one then returns.
* `blind_start_mixes` — `loadOrCreatePKI` makes the authority again on any error of `os.Stat`:
  a start that cannot see `ca.key` may leave files of two authorities.
* `nextStart_calm_iff` — what a start has to find; `starts_recover_iff` — **a start returns no
  error, on files that belong together, exactly when no start before it left the directory
  half-made**.
* `issueClient_of_nextStart` — a client's certificate is issued by the authority that was
  loaded, for its key.
-/

namespace Dvpnd.OpenVPN.PKI

open Effect X509

/-! ## Files and calls -/

/-- The files under the pki directory. -/
inductive File where
  | caCert
  | caKey
  | serverCert
  | serverKey
  | tlsCrypt
  deriving DecidableEq, Repr

/-- `caCertPath`, `caKeyPath`, `serverCertPath`, `serverKeyPath` and `tlsCryptPath`. -/
def File.path (dir : String) : File → String
  | .caCert => dir ++ "/ca.crt"
  | .caKey => dir ++ "/ca.key"
  | .serverCert => dir ++ "/server.crt"
  | .serverKey => dir ++ "/server.key"
  | .tlsCrypt => dir ++ "/tc.key"

/-- The mode a file is written with. -/
def File.mode : File → Nat
  | .caCert | .serverCert => 0o644
  | .caKey | .serverKey | .tlsCrypt => 0o600

/-- The calls a start makes. -/
inductive Op (Key Pub : Type) where
  | mkdirAll (mode : Nat)
  | stat (f : File)
  | now
  /-- `serial`, a number below `2^128`. -/
  | serial
  | generateKey
  | createCertificate (template parent : Template) (pub : Pub) (key : Key)
  /-- `rand.Read`, into a buffer of `n` bytes. -/
  | randRead (n : Nat)
  /-- The first step of `os.WriteFile`, which creates or empties the file. -/
  | openFile (f : File) (mode : Nat)
  /-- Its second step. -/
  | write (f : File) (data : List UInt8)
  | readFile (f : File)

/-- What they return. -/
def Answer {Key Pub : Type} : Op Key Pub → Type
  | .mkdirAll _ => Option String
  | .stat _ => Option String
  | .now => Int
  | .serial => Fin (2 ^ 128)
  | .generateKey => Except String Key
  | .createCertificate _ _ _ _ => Except String (List UInt8)
  | .randRead n => Except String {b : List UInt8 // b.length = n}
  | .openFile _ _ => Option String
  | .write _ _ => Option String
  | .readFile _ => Except String (List UInt8)

/-- A part of a start: it makes calls, and returns a result or an error. -/
abbrev Step (Key Pub α : Type) := ExceptT String (Prog (@Answer Key Pub)) α

/-- The directory, and how many calls were made. -/
structure Home where
  files : File → Option (List UInt8)
  calls : Nat

/-- A home directory with nothing in it. -/
def Home.empty : Home := ⟨fun _ => none, 0⟩

def Home.tick (h : Home) : Home := { h with calls := h.calls + 1 }

def Home.put (h : Home) (f : File) (data : List UInt8) : Home :=
  { h with files := Function.update h.files f (some data) }

/-- What the calls of a start return, and which of them fail. -/
structure Env (Key : Type) where
  keys : Nat → Key
  clock : Nat → Int
  serials : Nat → Fin (2 ^ 128)
  /-- The randomness of a signature. -/
  nonces : Nat → Nat
  bytes : Nat → (n : Nat) → {b : List UInt8 // b.length = n}
  /-- The error of a call, other than `os.Stat`, that fails. -/
  fails : Nat → Option String
  /-- The error of an `os.Stat` that cannot tell whether the file is there. -/
  statFails : Nat → Option String

variable {Key Pub Sig α β : Type}

/-- The answer of a call, unless it fails. -/
def Env.give (env : Env Key) (h : Home) (a : α) : Except String α :=
  match env.fails h.calls with
  | some e => .error e
  | none => .ok a

/-- What a call on the file system changes, unless it fails. -/
def Env.change (env : Env Key) (h h' : Home) : Option String × Home :=
  match env.fails h.calls with
  | some e => (some e, h.tick)
  | none => (none, h'.tick)

/-- No call fails, `os.Stat` apart. -/
def Env.Calm (env : Env Key) : Prop := ∀ n, env.fails n = none

/-- `os.Stat` fails for a missing file only. -/
def Env.Sees (env : Env Key) : Prop := ∀ n, env.statFails n = none

/-- The same start, with no such call. -/
def Env.calm (env : Env Key) : Env Key := { env with fails := fun _ => none }

/-- What the operating system and the libraries do. -/
def machine (x : Scheme Key Pub Sig) (dir : String) (env : Env Key) :
    Machine (@Answer Key Pub) Unit Home where
  exec
    | .mkdirAll _, h => env.change h h
    | .stat f, h =>
        (match env.statFails h.calls with
          | some e => some e
          | none =>
              if (h.files f).isSome then none
              else some ("stat " ++ f.path dir ++ ": no such file or directory"), h.tick)
    | .now, h => (env.clock h.calls, h.tick)
    | .serial, h => (env.serials h.calls, h.tick)
    | .generateKey, h => (env.give h (env.keys h.calls), h.tick)
    | .createCertificate template parent pub key, h =>
        (env.give h (x.create (env.nonces h.calls) template parent pub key), h.tick)
    | .randRead n, h => (env.give h (env.bytes h.calls n), h.tick)
    | .openFile f _, h => env.change h (h.put f [])
    | .write f data, h => env.change h (h.put f data)
    | .readFile f, h =>
        (match h.files f with
          | none => .error ("open " ++ f.path dir ++ ": no such file or directory")
          | some data => env.give h data, h.tick)
  acquire _ h := h

/-! ## The functions -/

section Functions

/-- `time.Hour`, in seconds. -/
def hour : Int := 3600

/-- `caValidity`. -/
def caValidity : Int := 10 * 365 * 24 * hour

/-- `serverValidity`. -/
def serverValidity : Int := 10 * 365 * 24 * hour

/-- `clientValidity`. -/
def clientValidity : Int := 7 * 24 * hour

/-- One call. -/
abbrev call (o : Op Key Pub) : Prog (@Answer Key Pub) (Answer o) := Prog.perform o

def now : Step Key Pub Int := ExceptT.lift (call .now)

def serial : Step Key Pub (Fin (2 ^ 128)) := ExceptT.lift (call .serial)

def stat (f : File) : Step Key Pub (Option String) := ExceptT.lift (call (.stat f))

def generateKey : Step Key Pub Key := ExceptT.mk (call .generateKey)

def createCertificate (template parent : Template) (pub : Pub) (key : Key) :
    Step Key Pub (List UInt8) :=
  ExceptT.mk (call (.createCertificate template parent pub key))

def randRead (n : Nat) : Step Key Pub {b : List UInt8 // b.length = n} :=
  ExceptT.mk (call (.randRead n))

def readFile (f : File) : Step Key Pub (List UInt8) := ExceptT.mk (call (.readFile f))

/-- `os.WriteFile`. -/
def writeFile (x : File × List UInt8) : Prog (@Answer Key Pub) (Option String) :=
  (call (.openFile x.1 x.1.mode)).andThen (call (.write x.1 x.2))

variable (x : Scheme Key Pub Sig)

/-- `certPEM`. -/
def certPEM (der : List UInt8) : List UInt8 := x.encodePEM "CERTIFICATE" der

/-- `mustKeyPEM`. -/
def mustKeyPEM (key : Key) : List UInt8 := x.encodePEM "PRIVATE KEY" (x.marshalKey key)

/-- `caTmpl`. -/
def caTemplate (now : Int) (serial : Fin (2 ^ 128)) : Template where
  serialNumber := serial
  commonName := "dvpnd OpenVPN CA"
  notBefore := now - hour
  notAfter := now + caValidity
  keyUsage := { certSign := true, crlSign := true, digitalSignature := true }
  extKeyUsage := []
  basicConstraintsValid := true
  isCA := true
  maxPathLen := some 0

/-- `issue`. -/
def issue (ca : Certificate Pub Sig) (caKey : Key) (pub : Pub) (cn : String) (validity : Int)
    (eku : ExtKeyUsage) : Step Key Pub (List UInt8) := do
  let now ← now
  let serial ← serial
  let template : Template :=
    { serialNumber := serial
      commonName := cn
      notBefore := now - hour
      notAfter := now + validity
      keyUsage := { digitalSignature := true }
      extKeyUsage := [eku]
      basicConstraintsValid := true
      isCA := false
      maxPathLen := none }
  createCertificate template ca.body.template pub caKey

/-- What `create` has made before it writes anything. -/
structure Material (Key : Type) where
  caDER : List UInt8
  caKey : Key
  serverDER : List UInt8
  serverKey : Key
  tlsCrypt : {b : List UInt8 // b.length = tlsCryptKeyLen}

/-- The first part of `create`. -/
def material : Step Key Pub (Material Key) := do
  let caKey ← generateKey
  let now ← now
  let serial ← serial
  let caTmpl := caTemplate now serial
  let caDER ← createCertificate caTmpl caTmpl (x.publicKey caKey) caKey
  let caCert ← Prog.ofExcept (x.parseCertificate caDER)
  let serverKey ← generateKey
  let serverDER ← issue caCert caKey (x.publicKey serverKey) "dvpnd OpenVPN server"
    serverValidity .serverAuth
  let tlsCrypt ← randRead tlsCryptKeyLen
  return { caDER, caKey, serverDER, serverKey, tlsCrypt }

/-- `files`; a buffer of 256 bytes is one that `staticKeyFile` can write. -/
def Material.files (m : Material Key) : List (File × List UInt8) :=
  [(.caCert, certPEM x m.caDER),
    (.caKey, mustKeyPEM x m.caKey),
    (.serverCert, certPEM x m.serverDER),
    (.serverKey, mustKeyPEM x m.serverKey),
    (.tlsCrypt, (staticKeyFile m.tlsCrypt).get (isSome_staticKeyFile m.tlsCrypt.property))]

/-- `create`. -/
def create : Step Key Pub Unit := do
  let m ← material x
  Prog.orFail (Prog.each writeFile (m.files x))

/-- `pki`, once `load` has filled it in. -/
structure Authority (Key Pub Sig : Type) extends PKI where
  caCert : Certificate Pub Sig
  caKey : Key

/-- What `load` makes of `ca.crt`. -/
def caCertOf (data : List UInt8) : Except String (List UInt8 × Certificate Pub Sig) :=
  match x.block "CERTIFICATE" data with
  | none => .error "ca.crt is not a PEM certificate"
  | some der =>
      match x.parseCertificate der with
      | .error e => .error e
      | .ok cert => .ok (der, cert)

/-- What it makes of `ca.key`. -/
def caKeyOf (data : List UInt8) : Except String Key :=
  match x.block "PRIVATE KEY" data with
  | none => .error "ca.key is not a PEM private key"
  | some der =>
      match x.parseKey der with
      | .error e => .error e
      | .ok none => .error "ca.key is not an ECDSA key"
      | .ok (some key) => .ok key

/-- A file, read and made something of. -/
def readAs (f : File) (g : List UInt8 → Except String α) : Step Key Pub α := do
  let data ← readFile f
  Prog.ofExcept (g data)

/-- `load`. -/
def load : Step Key Pub (Authority Key Pub Sig) := do
  let ca ← readAs .caCert (caCertOf x)
  let caKey ← readAs .caKey (caKeyOf x)
  let tlsCrypt ← readAs .tlsCrypt parseStaticKeyFile
  return { caDER := ca.1, caCert := ca.2, caKey, tlsCrypt }

/-- The part of `loadOrCreatePKI` that is done on the first run. -/
def createMissing : Step Key Pub Unit := do
  let missing ← stat .caKey
  if missing.isSome then
    (create x).adapt ("creating the certificate authority: " ++ ·)
  else
    return ()

/-- `loadOrCreatePKI`.  What it returns along with an error is not read. -/
def loadOrCreatePKI : Step Key Pub (Authority Key Pub Sig) := do
  Prog.orFail (call (.mkdirAll 0o700))
  createMissing x
  load x

/-- `issueClient`: a certificate and its key. -/
def issueClient (p : Authority Key Pub Sig) (commonName : String) :
    Step Key Pub (List UInt8 × List UInt8) := do
  let key ← generateKey
  let certDER ← issue p.caCert p.caKey (x.publicKey key) commonName clientValidity .clientAuth
  return (certDER, x.marshalKey key)

end Functions

/-! ## Parts of a start that leave the files alone -/

section Looks

variable {x : Scheme Key Pub Sig} {dir : String} {env : Env Key}
  {files : File → Option (List UInt8)} {P : α → Prop} {Q : β → Prop} {E : String → Prop}

/-- How such a part ends: a result has `P`, an error has `E`. -/
structure Ends (files : File → Option (List UInt8)) (P : α → Prop) (E : String → Prop)
    (r : Except String α) (h : Home) : Prop where
  same : h.files = files
  ok : ∀ a, r = .ok a → P a
  error : ∀ e, r = .error e → E e

/-- The part leaves the files alone, wherever it dies, and ends so. -/
def Looks (x : Scheme Key Pub Sig) (dir : String) (env : Env Key)
    (files : File → Option (List UInt8)) (P : α → Prop) (E : String → Prop)
    (p : Step Key Pub α) : Prop :=
  ∀ h : Home, h.files = files →
    Prog.Safe (machine x dir env) () (fun h' => h'.files = files) (Ends files P E) p.run h

theorem Looks.mono {P' : α → Prop} {E' : String → Prop} {p : Step Key Pub α}
    (hp : Looks x dir env files P E p) (hP : ∀ a, P a → P' a) (hE : ∀ e, E e → E' e) :
    Looks x dir env files P' E' p :=
  fun h hh => (hp h hh).mono (fun _ h => h) fun _ _ hr =>
    ⟨hr.same, fun a ha => hP a (hr.ok a ha), fun e he => hE e (hr.error e he)⟩

/-- Whatever holds of the files goes on to hold. -/
theorem Looks.keeps {I : (File → Option (List UInt8)) → Prop} {p : Step Key Pub α} {h : Home}
    (hp : Looks x dir env h.files P E p) (hI : I h.files) :
    Prog.Safe (machine x dir env) () (fun h' => I h'.files) (fun _ h' => I h'.files) p.run h :=
  (hp h rfl).mono (fun _ hh => hh.symm ▸ hI) fun _ _ hr => hr.same.symm ▸ hI

theorem Looks.bind {p : Step Key Pub α} {f : α → Step Key Pub β}
    (hp : Looks x dir env files P E p) (hf : ∀ a, P a → Looks x dir env files Q E (f a)) :
    Looks x dir env files Q E (p >>= f) := by
  intro h hh
  refine (hp h hh).bindExcept (fun a h' hr => hf a (hr.ok a rfl) h' hr.same) fun e h' hr => ?_
  refine ⟨hr.same, hr.same, nofun, fun e' he => ?_⟩
  cases he
  exact hr.error e rfl

theorem Looks.pure {a : α} (ha : P a) : Looks x dir env files P E (pure a) :=
  fun _ hh => .ret hh ⟨hh, fun b hb => by cases hb; exact ha, nofun⟩

theorem Looks.ofExcept {r : Except String α} (hok : ∀ a, r = .ok a → P a)
    (herr : ∀ e, r = .error e → E e) : Looks x dir env files P E (Prog.ofExcept r) :=
  fun _ hh => .ret hh ⟨hh, hok, herr⟩

/-- A call that gives its answer unless it fails. -/
theorem ends_give {h : Home} (hh : h.files = files) {a : α} (ha : P a) :
    Ends files P (fun _ => ¬ env.Calm) (env.give h a) h.tick := by
  refine ⟨hh, fun b hb => ?_, fun e he hcalm => ?_⟩
  · rw [Env.give] at hb
    cases hf : env.fails h.calls with
    | none => rw [hf] at hb; cases hb; exact ha
    | some e => rw [hf] at hb; cases hb
  · rw [Env.give, hcalm] at he
    cases he

theorem looks_now : Looks x dir env files (fun _ => True) E (now : Step Key Pub Int) :=
  fun _ hh => .op hh (.ret hh ⟨hh, fun _ _ => trivial, nofun⟩)

theorem looks_serial :
    Looks x dir env files (fun _ => True) E (serial : Step Key Pub (Fin (2 ^ 128))) :=
  fun _ hh => .op hh (.ret hh ⟨hh, fun _ _ => trivial, nofun⟩)

/-- `os.Stat` misses a file that is not there, and no other unless it fails. -/
theorem looks_stat (f : File) :
    Looks x dir env files
      (fun missing => (files f = none → missing.isSome) ∧
        (env.Sees → missing.isSome → files f = none)) E
      (stat f : Step Key Pub (Option String)) := by
  intro h hh
  refine .op hh (.ret hh ⟨hh, fun a ha => ?_, nofun⟩)
  cases ha
  simp only [machine, hh]
  cases hf : env.statFails h.calls with
  | some e =>
      refine ⟨fun _ => rfl, fun hsees => ?_⟩
      rw [hsees] at hf
      cases hf
  | none => cases files f <;> simp

theorem looks_generateKey :
    Looks x dir env files (fun key => ∃ n, key = env.keys n) (fun _ => ¬ env.Calm)
      (generateKey : Step Key Pub Key) :=
  fun _ hh => .op hh (.ret hh (ends_give hh ⟨_, rfl⟩))

theorem looks_createCertificate (template parent : Template) (pub : Pub) (key : Key) :
    Looks x dir env files (fun der => ∃ r, der = x.create r template parent pub key)
      (fun _ => ¬ env.Calm) (createCertificate template parent pub key) :=
  fun _ hh => .op hh (.ret hh (ends_give hh ⟨_, rfl⟩))

theorem looks_randRead (n : Nat) :
    Looks x dir env files (fun _ => True) (fun _ => ¬ env.Calm)
      (randRead n : Step Key Pub {b : List UInt8 // b.length = n}) :=
  fun _ hh => .op hh (.ret hh (ends_give hh trivial))

/-- A file is there and is read as `a`. -/
def ReadsAs (files : File → Option (List UInt8)) (f : File) (g : List UInt8 → Except String α)
    (a : α) : Prop :=
  ∃ data, files f = some data ∧ g data = .ok a

theorem looks_readFile (f : File) :
    Looks x dir env files (fun data => files f = some data)
      (fun e => env.Calm →
        files f = none ∧ e = "open " ++ f.path dir ++ ": no such file or directory")
      (readFile f : Step Key Pub (List UInt8)) := by
  intro h hh
  refine .op hh (.ret hh ?_)
  cases hf : files f with
  | none =>
      simp only [machine, hh, hf]
      exact ⟨hh, nofun, fun e he _ => by cases he; exact ⟨trivial, rfl⟩⟩
  | some data =>
      simp only [machine, hh, hf]
      have hends : Ends files (some data = some ·) (fun _ => ¬ env.Calm) (env.give h data) h.tick :=
        ends_give hh rfl
      exact ⟨hends.same, hends.ok, fun e he hcalm => absurd hcalm (hends.error e he)⟩

/-- A file is read as what is in it; an error, when no call fails, is one of its own. -/
theorem looks_readAs (f : File) (g : List UInt8 → Except String α) :
    Looks x dir env files (ReadsAs files f g)
      (fun e => env.Calm → (∀ a, ¬ ReadsAs files f g a) ∧
        (files f = none → e = "open " ++ f.path dir ++ ": no such file or directory"))
      (readAs f g : Step Key Pub α) := by
  refine ((looks_readFile f).mono (fun _ h => h) ?_).bind ?_
  · rintro e he hcalm
    obtain ⟨hnone, htext⟩ := he hcalm
    refine ⟨?_, fun _ => htext⟩
    rintro a ⟨data, hdata, -⟩
    rw [hnone] at hdata
    cases hdata
  · intro data hdata
    refine .ofExcept (fun a ha => ⟨data, hdata, ha⟩) fun e he _ => ⟨?_, ?_⟩
    · rintro a ⟨data', hdata', ha⟩
      rw [hdata] at hdata'
      cases hdata'
      rw [he] at ha
      cases ha
    · intro hnone
      rw [hnone] at hdata
      cases hdata

end Looks

/-! ## What `create` makes -/

section Material

variable {x : Scheme Key Pub Sig} {dir : String} {env : Env Key}
  {files : File → Option (List UInt8)}

/-- The certificate in `der` is issued by `ca` for a key and a name. -/
def IssuedFor (x : Scheme Key Pub Sig) (ca : Certificate Pub Sig) (pub : Pub) (cn : String)
    (der : List UInt8) : Prop :=
  ∃ cert, x.parseCertificate der = .ok cert ∧ X509.Issued x ca cert ∧ cert.body.publicKey = pub ∧
    cert.body.template.commonName = cn

theorem looks_issue {ca : Certificate Pub Sig} {caKey : Key} (hca : Signs x ca caKey) (pub : Pub)
    (cn : String) (validity : Int) (eku : ExtKeyUsage) :
    Looks x dir env files (IssuedFor x ca pub cn) (fun _ => ¬ env.Calm)
      (issue ca caKey pub cn validity eku) := by
  refine looks_now.bind fun now _ => looks_serial.bind fun serial _ => ?_
  refine (looks_createCertificate _ _ _ _).mono ?_ fun _ h => h
  rintro der ⟨r, rfl⟩
  exact ⟨_, x.parse_create _ _ _ _ _, x.issued_create hca _ _ _, rfl, rfl⟩

/-- The authority's certificate is for its key, and it issued the server's. -/
def Material.Sound (x : Scheme Key Pub Sig) (m : Material Key) : Prop :=
  ∃ ca, x.parseCertificate m.caDER = .ok ca ∧ Signs x ca m.caKey ∧
    IssuedFor x ca (x.publicKey m.serverKey) "dvpnd OpenVPN server" m.serverDER

theorem signs_caTemplate (now : Int) (serial : Fin (2 ^ 128)) (r : Nat) (key : Key) :
    Signs x (x.certificate r (caTemplate now serial) (caTemplate now serial) (x.publicKey key) key)
      key where
  isCA := ⟨rfl, rfl⟩
  certSign := rfl
  publicKey := rfl

theorem looks_material :
    Looks x dir env files (fun m => m.Sound x ∧ ∃ n, m.caKey = env.keys n) (fun _ => ¬ env.Calm)
      (material x) := by
  refine looks_generateKey.bind fun caKey hkey => looks_now.bind fun now _ =>
    looks_serial.bind fun serial _ => (looks_createCertificate _ _ _ _).bind ?_
  rintro caDER ⟨r, rfl⟩
  -- the library reads back what it has just written, so this error is never returned
  rw [x.parse_create]
  refine Looks.bind (P := (· = x.certificate r (caTemplate now serial) (caTemplate now serial)
    (x.publicKey caKey) caKey)) (.ofExcept (fun a ha => by cases ha; rfl) nofun) ?_
  rintro caCert rfl
  have hca := signs_caTemplate (x := x) now serial r caKey
  refine looks_generateKey.bind fun serverKey _ => (looks_issue hca _ _ _ _).bind ?_
  intro serverDER hserver
  refine (looks_randRead _).bind fun tlsCrypt _ => .pure ?_
  exact ⟨⟨_, x.parse_create _ _ _ _ _, hca, hserver⟩, hkey⟩

/-- **A client's certificate** is issued by the authority, for the key that goes with it and
in the client's name. -/
theorem issueClient_issued {p : Authority Key Pub Sig} (hp : Signs x p.caCert p.caKey)
    (commonName : String) :
    Looks x dir env files
      (fun issued => ∃ key, x.parseKey issued.2 = .ok (some key) ∧
        IssuedFor x p.caCert (x.publicKey key) commonName issued.1)
      (fun _ => ¬ env.Calm) (issueClient x p commonName) := by
  refine looks_generateKey.bind fun key _ => (looks_issue hp _ _ _ _).bind fun certDER hcert => ?_
  exact .pure ⟨key, x.parse_marshal key, hcert⟩

end Material

/-! ## What `load` finds -/

section Load

variable {x : Scheme Key Pub Sig} {dir : String} {env : Env Key}
  {files : File → Option (List UInt8)}

theorem caCertOf_of_certificateIn {data : List UInt8} {ca : List UInt8 × Certificate Pub Sig}
    (h : x.certificateIn data = some ca) : caCertOf x data = .ok ca := by
  obtain ⟨der, hder, hcert⟩ := Option.bind_eq_some_iff.1 h
  rw [caCertOf, hder]
  cases hparse : x.parseCertificate der with
  | error e => rw [hparse] at hcert; cases hcert
  | ok cert => rw [hparse] at hcert; cases hcert; simp only [hparse]

theorem caKeyOf_of_keyIn {data : List UInt8} {key : Key} (h : x.keyIn data = some key) :
    caKeyOf x data = .ok key := by
  obtain ⟨der, hder, hkey⟩ := Option.bind_eq_some_iff.1 h
  rw [caKeyOf, hder]
  cases hparse : x.parseKey der with
  | error e => rw [hparse] at hkey; cases hkey
  | ok k =>
      rw [hparse] at hkey
      cases k with
      | none => cases hkey
      | some k => cases hkey; simp only [hparse]

theorem certificateIn_certPEM {der : List UInt8} {cert : Certificate Pub Sig}
    (h : x.parseCertificate der = .ok cert) :
    x.certificateIn (certPEM x der) = some (der, cert) := by
  rw [Scheme.certificateIn, certPEM, x.block_encodePEM, Option.bind_some, h]
  rfl

theorem keyIn_mustKeyPEM (key : Key) : x.keyIn (mustKeyPEM x key) = some key := by
  rw [Scheme.keyIn, mustKeyPEM, x.block_encodePEM, Option.bind_some, x.parse_marshal]
  rfl

/-- What `load` reads from the files. -/
structure Loaded (x : Scheme Key Pub Sig) (files : File → Option (List UInt8))
    (p : Authority Key Pub Sig) : Prop where
  caCert : ReadsAs files .caCert (caCertOf x) (p.caDER, p.caCert)
  caKey : ReadsAs files .caKey (caKeyOf x) p.caKey
  tlsCrypt : ReadsAs files .tlsCrypt parseStaticKeyFile p.tlsCrypt

/-- The error of `load`, when no call fails: the files cannot be loaded, and when only
`tc.key` is missing the error names it. -/
def LoadError (x : Scheme Key Pub Sig) (dir : String) (files : File → Option (List UInt8))
    (e : String) : Prop :=
  (∀ p, ¬ Loaded x files p) ∧
    ((∃ ca, ReadsAs files .caCert (caCertOf x) ca) → (∃ key, ReadsAs files .caKey (caKeyOf x) key) →
      files .tlsCrypt = none →
        e = "open " ++ File.path dir .tlsCrypt ++ ": no such file or directory")

theorem looks_load :
    Looks x dir env files (Loaded x files) (fun e => env.Calm → LoadError x dir files e)
      (load x) := by
  refine ((looks_readAs .caCert _).mono (fun _ h => h) ?_).bind fun ca hca =>
    ((looks_readAs .caKey _).mono (fun _ h => h) ?_).bind fun caKey hkey =>
      ((looks_readAs .tlsCrypt _).mono (fun _ h => h) ?_).bind fun tlsCrypt htls =>
        .pure ⟨hca, hkey, htls⟩
  · intro e he hcalm
    have hno := (he hcalm).1
    refine ⟨fun p hp => hno _ hp.caCert, ?_⟩
    rintro ⟨ca, hca⟩ - -
    exact absurd hca (hno ca)
  · intro e he hcalm
    have hno := (he hcalm).1
    refine ⟨fun p hp => hno _ hp.caKey, ?_⟩
    rintro - ⟨key, hkey⟩ -
    exact absurd hkey (hno key)
  · intro e he hcalm
    obtain ⟨hno, htext⟩ := he hcalm
    exact ⟨fun p hp => hno _ hp.tlsCrypt, fun _ _ => htext⟩

end Load

/-! ## The stages of the directory -/

section Stages

variable {x : Scheme Key Pub Sig} {dir : String} {env : Env Key}
  {files files' : File → Option (List UInt8)}

/-- What five files hold: `ca.key` is the key of `ca.crt`, `server.crt` is issued by it for
`server.key`, and `tc.key` is a static key. -/
structure Holds (x : Scheme Key Pub Sig) (files : File → Option (List UInt8))
    (ca server : List UInt8 × Certificate Pub Sig) (caKey serverKey : Key)
    (tlsCrypt : List UInt8) : Prop where
  caCertFile : (files .caCert).bind x.certificateIn = some ca
  caKeyFile : (files .caKey).bind x.keyIn = some caKey
  serverCertFile : (files .serverCert).bind x.certificateIn = some server
  serverKeyFile : (files .serverKey).bind x.keyIn = some serverKey
  tlsCryptFile : (files .tlsCrypt).map parseStaticKeyFile = some (.ok tlsCrypt)
  ca_key : ca.2.body.publicKey = x.publicKey caKey
  issued : X509.Issued x ca.2 server.2
  server_key : server.2.body.publicKey = x.publicKey serverKey
  length_tlsCrypt : tlsCrypt.length = 256

/-- Five files that belong together. -/
def Together (x : Scheme Key Pub Sig) (files : File → Option (List UInt8)) : Prop :=
  ∃ ca server caKey serverKey tlsCrypt, Holds x files ca server caKey serverKey tlsCrypt

/-- The authority was not written. -/
def Fresh (files : File → Option (List UInt8)) : Prop :=
  files .caKey = none ∧ files .tlsCrypt = none

/-- `ca.key` is there, and `tc.key` is not, or nothing is in it. -/
def HalfMade (files : File → Option (List UInt8)) : Prop :=
  files .caKey ≠ none ∧ (files .tlsCrypt = none ∨ files .tlsCrypt = some [])

instance (files : File → Option (List UInt8)) : Decidable (HalfMade files) :=
  inferInstanceAs (Decidable (_ ∧ _))

/-- One of the three. -/
def Stage (x : Scheme Key Pub Sig) (files : File → Option (List UInt8)) : Prop :=
  Fresh files ∨ HalfMade files ∨ Together x files

/-- `tc.key` is not there before `ca.key`. -/
def Ordered (files : File → Option (List UInt8)) : Prop :=
  files .caKey = none → files .tlsCrypt = none

theorem Fresh.stage_of_eq {h : Home} (hfresh : Fresh h.files) (h' : Home)
    (hh : h'.files = h.files) : Stage x h'.files :=
  .inl (hh.symm ▸ hfresh)

theorem parse_empty_file : parseStaticKeyFile [] = .error notStaticKey := by decide +kernel

/-- A half-made authority cannot be loaded. -/
theorem HalfMade.not_loaded (h : HalfMade files) (p : Authority Key Pub Sig) :
    ¬ Loaded x files p := by
  intro hp
  obtain ⟨data, hdata, hparse⟩ := hp.tlsCrypt
  rcases h.2 with hnone | hempty
  · rw [hnone] at hdata
    cases hdata
  · rw [hempty] at hdata
    cases hdata
    rw [parse_empty_file] at hparse
    cases hparse

/-- Files with a certificate, a key and a static key in them can. -/
theorem Loaded.of_files {ca : List UInt8 × Certificate Pub Sig} {caKey : Key}
    {tlsCrypt : List UInt8} (hca : (files .caCert).bind x.certificateIn = some ca)
    (hkey : (files .caKey).bind x.keyIn = some caKey)
    (htls : (files .tlsCrypt).map parseStaticKeyFile = some (.ok tlsCrypt)) :
    Loaded x files { caDER := ca.1, caCert := ca.2, caKey, tlsCrypt } := by
  obtain ⟨caPEM, hcaFile, hcert⟩ := Option.bind_eq_some_iff.1 hca
  obtain ⟨keyPEM, hkeyFile, hin⟩ := Option.bind_eq_some_iff.1 hkey
  obtain ⟨tc, htlsFile, hparse⟩ := Option.map_eq_some_iff.1 htls
  exact ⟨⟨caPEM, hcaFile, caCertOf_of_certificateIn hcert⟩,
    ⟨keyPEM, hkeyFile, caKeyOf_of_keyIn hin⟩, ⟨tc, htlsFile, hparse⟩⟩

theorem Together.caKey_ne_none (h : Together x files) : files .caKey ≠ none := by
  obtain ⟨ca, server, caKey, serverKey, tlsCrypt, h⟩ := h
  intro hnone
  have hkey := h.caKeyFile
  rw [hnone] at hkey
  cases hkey

/-- An authority that was loaded from such files can issue certificates. -/
theorem Together.signs {p : Authority Key Pub Sig} (h : Together x files) (hp : Loaded x files p) :
    Signs x p.caCert p.caKey := by
  obtain ⟨ca, server, caKey, serverKey, tlsCrypt, h⟩ := h
  obtain ⟨caPEM, hca, hcert⟩ := Option.bind_eq_some_iff.1 h.caCertFile
  obtain ⟨keyPEM, hkey, hin⟩ := Option.bind_eq_some_iff.1 h.caKeyFile
  have hloadedCert : ca = (p.caDER, p.caCert) := by
    obtain ⟨data, hdata, hread⟩ := hp.caCert
    cases hca.symm.trans hdata
    exact Except.ok.inj ((caCertOf_of_certificateIn hcert).symm.trans hread)
  have hloadedKey : caKey = p.caKey := by
    obtain ⟨data, hdata, hread⟩ := hp.caKey
    cases hkey.symm.trans hdata
    exact Except.ok.inj ((caKeyOf_of_keyIn hin).symm.trans hread)
  subst hloadedCert hloadedKey
  exact ⟨h.issued.isCA, h.issued.certSign, h.ca_key⟩

/-- The five files of one call of `create` belong together. -/
theorem Material.Sound.together {m : Material Key} (hm : m.Sound x)
    (files : File → Option (List UInt8)) : Together x (writeAll (m.files x) files) := by
  obtain ⟨ca, hca, hsigns, server, hserver, hissued, hpub, -⟩ := hm
  refine ⟨(m.caDER, ca), (m.serverDER, server), m.caKey, m.serverKey, m.tlsCrypt, ?_⟩
  have htls : parseStaticKeyFile
      ((staticKeyFile m.tlsCrypt).get (isSome_staticKeyFile m.tlsCrypt.property)) =
        .ok m.tlsCrypt :=
    parse_of_staticKeyFile m.tlsCrypt.property (Option.some_get _).symm
  exact {
    caCertFile := certificateIn_certPEM hca
    caKeyFile := keyIn_mustKeyPEM m.caKey
    serverCertFile := certificateIn_certPEM hserver
    serverKeyFile := keyIn_mustKeyPEM m.serverKey
    tlsCryptFile := congrArg some htls
    ca_key := hsigns.publicKey
    issued := hissued
    server_key := hpub
    length_tlsCrypt := m.tlsCrypt.property }

/-- **Where the writes may stop**: before `ca.key` is opened there is no authority, and from
there until `tc.key` is written it is half-made. -/
theorem stage_of_partly {m : Material Key} (hm : m.Sound x) (hfresh : Fresh files)
    (h : Partly [] (m.files x) files files') : Stage x files' := by
  obtain ⟨hkey, htls⟩ := hfresh
  have hall := hm.together files
  rw [Material.files] at h
  -- one case for each step of the five writes
  cases h with
  | untouched => exact .inl ⟨hkey, htls⟩
  | emptied => exact .inl ⟨hkey, htls⟩
  | written h =>
    cases h with
    | untouched => exact .inl ⟨hkey, htls⟩
    | emptied => exact .inr (.inl ⟨nofun, .inl htls⟩)
    | written h =>
      cases h with
      | untouched => exact .inr (.inl ⟨nofun, .inl htls⟩)
      | emptied => exact .inr (.inl ⟨nofun, .inl htls⟩)
      | written h =>
        cases h with
        | untouched => exact .inr (.inl ⟨nofun, .inl htls⟩)
        | emptied => exact .inr (.inl ⟨nofun, .inl htls⟩)
        | written h =>
          cases h with
          | untouched => exact .inr (.inl ⟨nofun, .inl htls⟩)
          | emptied => exact .inr (.inl ⟨nofun, .inr rfl⟩)
          | written h =>
            cases h with
            | untouched => exact .inr (.inr hall)

/-- Wherever the writes stop, they were made in their order. -/
theorem ordered_of_partly {m : Material Key} (hordered : Ordered files)
    (h : Partly [] (m.files x) files files') : Ordered files' := by
  have hthere : ∀ {data : List UInt8} {g : File → Option (List UInt8)},
      g .caKey = some data → Ordered g := fun hdata hnone => by
    rw [hdata] at hnone
    cases hnone
  rw [Material.files] at h
  cases h with
  | untouched => exact hordered
  | emptied => exact hordered
  | written h =>
    cases h with
    | untouched => exact hordered
    | emptied => exact hthere rfl
    | written h =>
      -- from here on `ca.key` is there
      cases h with
      | untouched => exact hthere rfl
      | emptied => exact hthere rfl
      | written h =>
        cases h with
        | untouched => exact hthere rfl
        | emptied => exact hthere rfl
        | written h =>
          cases h with
          | untouched => exact hthere rfl
          | emptied => exact hthere rfl
          | written h =>
            cases h with
            | untouched => exact hthere rfl

end Stages

/-! ## One start -/

section Start

variable {x : Scheme Key Pub Sig} {dir : String} {env : Env Key}
  {files : File → Option (List UInt8)}

/-- A call on the file system goes through, or fails and changes nothing. -/
theorem change_cases (env : Env Key) (h h' : Home) :
    ((env.change h h').1 = none ∧ (env.change h h').2.files = h'.files) ∨
      ((env.change h h').1 ≠ none ∧ ¬ env.Calm ∧ (env.change h h').2.files = h.files) := by
  rw [Env.change]
  cases hf : env.fails h.calls with
  | none => exact .inl ⟨rfl, rfl⟩
  | some e =>
      refine .inr ⟨nofun, fun hcalm => ?_, rfl⟩
      rw [hcalm] at hf
      cases hf

/-- `os.WriteFile` leaves the file as it was, empty or written. -/
theorem safe_writeFile (f : File × List UInt8) (h : Home) :
    Prog.Safe (machine x dir env) () (fun h' => Partly [] [f] h.files h'.files)
      (fun r h' => Partly [] [f] h.files h'.files ∧ (env.Calm → r = none) ∧
        (r = none → h'.files = Function.update h.files f.1 (some f.2))) (writeFile f) h := by
  refine Prog.Safe.bind (Q := fun (r : Option String) h' =>
    (r = none ∧ h'.files = (h.put f.1 []).files) ∨ (r ≠ none ∧ ¬ env.Calm ∧ h'.files = h.files))
    ?_ fun r h₁ hr => ?_
  · refine .op .untouched (.ret ?_ (change_cases env h (h.put f.1 [])))
    rcases change_cases env h (h.put f.1 []) with ⟨-, hfiles⟩ | ⟨-, -, hfiles⟩
    · exact hfiles ▸ .emptied
    · exact hfiles ▸ .untouched
  · rcases hr with ⟨rfl, hfiles⟩ | ⟨hr, hcalm, hfiles⟩
    · have hput : (h₁.put f.1 f.2).files = Function.update h.files f.1 (some f.2) := by
        rw [Home.put, hfiles, Home.put, Function.update_idem]
      refine .op (hfiles ▸ .emptied) (.ret ?_ ?_)
      · rcases change_cases env h₁ (h₁.put f.1 f.2) with ⟨-, hdone⟩ | ⟨-, -, hfail⟩
        · exact (hdone.trans hput) ▸ .written .untouched
        · exact (hfail.trans hfiles) ▸ .emptied
      · rcases change_cases env h₁ (h₁.put f.1 f.2) with ⟨hnone, hdone⟩ | ⟨hsome, hcalm, hfail⟩
        · exact ⟨(hdone.trans hput) ▸ .written .untouched, fun _ => hnone,
            fun _ => hdone.trans hput⟩
        · exact ⟨(hfail.trans hfiles) ▸ .emptied, fun h => absurd h hcalm, fun h => absurd h hsome⟩
    · cases r with
      | none => exact absurd rfl hr
      | some e =>
          exact .ret (hfiles ▸ .untouched)
            ⟨hfiles ▸ .untouched, fun h => absurd h hcalm, nofun⟩

/-- How a part of a start ends that makes the authority: if it returns no error, the files
belong together, and when no call fails it returns none. -/
structure Made (x : Scheme Key Pub Sig) (env : Env Key) (r : Except String α) (h : Home) :
    Prop where
  stage : Stage x h.files
  together : ∀ a, r = .ok a → Together x h.files
  calm : env.Calm → ∃ a, r = .ok a

theorem Made.error {h : Home} {e : String} (hstage : Stage x h.files) (hcalm : ¬ env.Calm) :
    Made x env (.error e : Except String α) h :=
  ⟨hstage, nofun, fun h => absurd h hcalm⟩

theorem Made.not_calm {h : Home} {e : String} (hr : Made x env (.error e : Except String α) h) :
    ¬ env.Calm := by
  intro hcalm
  obtain ⟨a, ha⟩ := hr.calm hcalm
  cases ha

theorem Made.mapError {h : Home} {r : Except String α} (hr : Made x env r h)
    (g : String → String) : Made x env (r.mapError g) h := by
  cases r with
  | ok a => exact hr
  | error e => exact .error hr.stage hr.not_calm

/-- A call of `create` on a directory without an authority. -/
theorem safe_create {h : Home} (hfresh : Fresh h.files) :
    Prog.Safe (machine x dir env) () (fun h' => Stage x h'.files) (Made x env)
      (create x).run h := by
  refine ((looks_material h rfl).mono hfresh.stage_of_eq fun _ _ hr => hr).bindExcept ?_ ?_
  · intro m h₁ hm
    have hsound := (hm.ok m rfl).1
    have hstage : ∀ h' : Home, Partly [] (m.files x) h₁.files h'.files → Stage x h'.files :=
      fun h' hpart => stage_of_partly hsound (hm.same.symm ▸ hfresh) hpart
    refine Prog.Safe.orFail ((Prog.Safe.each_partly (E := fun r => env.Calm → r = none)
      (fun _ => rfl) safe_writeFile (m.files x) h₁).mono hstage fun _ _ hr => hr) ?_ ?_
    · rintro h' ⟨hpart, -, hdone⟩
      have htogether : Together x h'.files := (hdone rfl).symm ▸ hsound.together h₁.files
      exact ⟨hstage h' hpart, hstage h' hpart, fun _ _ => htogether, fun _ => ⟨(), rfl⟩⟩
    · rintro e h' ⟨hpart, hcalm, -⟩
      exact ⟨hstage h' hpart, .error (hstage h' hpart) fun h => absurd (hcalm h) nofun⟩
  · intro e h' hr
    exact ⟨hfresh.stage_of_eq h' hr.same, .error (hfresh.stage_of_eq h' hr.same) (hr.error e rfl)⟩

theorem looks_mkdirAll (mode : Nat) :
    Looks x dir env files (fun _ => True) (fun _ => ¬ env.Calm)
      (Prog.orFail (call (.mkdirAll mode)) : Step Key Pub Unit) := by
  intro h hh
  refine Prog.Safe.orFail (Q := fun (r : Option String) h' =>
    h'.files = files ∧ (r ≠ none → ¬ env.Calm)) (.op hh (.ret ?_ ?_)) ?_ ?_
  · rcases change_cases env h h with ⟨-, hfiles⟩ | ⟨-, -, hfiles⟩ <;> exact hfiles.trans hh
  · rcases change_cases env h h with ⟨hnone, hfiles⟩ | ⟨-, hcalm, hfiles⟩
    · exact ⟨hfiles.trans hh, fun h => absurd hnone h⟩
    · exact ⟨hfiles.trans hh, fun _ => hcalm⟩
  · rintro h' ⟨hfiles, -⟩
    exact ⟨hfiles, hfiles, fun _ _ => trivial, nofun⟩
  · rintro e h' ⟨hfiles, hcalm⟩
    exact ⟨hfiles, hfiles, nofun, fun _ _ => hcalm nofun⟩

/-- With `ca.key` there, a start that sees it only loads. -/
theorem looks_loadOrCreatePKI (hsees : env.Sees) (hkey : files .caKey ≠ none) :
    Looks x dir env files (Loaded x files) (fun e => env.Calm → LoadError x dir files e)
      (loadOrCreatePKI x) := by
  refine ((looks_mkdirAll 0o700).mono (fun _ h => h) fun _ h hcalm => absurd hcalm h).bind
    fun _ _ => Looks.bind (P := fun _ => True) ?_ fun _ _ => looks_load
  refine (looks_stat .caKey).bind fun missing hmissing => ?_
  rw [if_neg fun h => hkey (hmissing.2 hsees h)]
  exact .pure trivial

/-- Without it, the authority is made. -/
theorem safe_createMissing {h : Home} (hfresh : Fresh h.files) :
    Prog.Safe (machine x dir env) () (fun h' => Stage x h'.files) (Made x env)
      (createMissing x).run h := by
  refine ((looks_stat (E := fun _ => False) .caKey h rfl).mono hfresh.stage_of_eq
    fun _ _ hr => hr).bindExcept (fun missing h₁ hr => ?_) fun e h₁ hr => (hr.error e rfl).elim
  rw [if_pos ((hr.ok missing rfl).1 hfresh.1)]
  refine ((safe_create (hr.same.symm ▸ hfresh)).adapt _ fun _ _ h => h.stage).mono
    (fun _ h => h) ?_
  rintro r h' ⟨r', hmade, rfl⟩
  exact hmade.mapError _

/-- Files that can be loaded are, when no call fails. -/
theorem Loaded.calm {h : Home} {r : Except String (Authority Key Pub Sig)}
    {p : Authority Key Pub Sig} (hp : Loaded x files p)
    (hr : Ends files (Loaded x files) (fun e => env.Calm → LoadError x dir files e) r h)
    (hcalm : env.Calm) : ∃ p', r = .ok p' := by
  cases r with
  | ok p' => exact ⟨p', rfl⟩
  | error e => exact absurd hp ((hr.error e rfl hcalm).1 p)

/-- Five files that belong together are loaded. -/
theorem Together.made {h : Home} {r : Except String (Authority Key Pub Sig)}
    (htogether : Together x files)
    (hr : Ends files (Loaded x files) (fun e => env.Calm → LoadError x dir files e) r h) :
    Made x env r h := by
  have hfiles : Together x h.files := hr.same.symm ▸ htogether
  obtain ⟨ca, server, caKey, serverKey, tlsCrypt, h⟩ := htogether
  exact ⟨.inr (.inr hfiles), fun _ _ => hfiles,
    (Loaded.of_files h.caCertFile h.caKeyFile h.tlsCryptFile).calm hr⟩

/-- A start on a directory without an authority makes it and loads it. -/
theorem safe_start_fresh {h : Home} (hfresh : Fresh h.files) :
    Prog.Safe (machine x dir env) () (fun h' => Stage x h'.files)
      (fun r h' => Made x env r h' ∧ ∀ p, r = .ok p → Loaded x h'.files p)
      (loadOrCreatePKI x).run h := by
  refine ((looks_mkdirAll 0o700 h rfl).mono hfresh.stage_of_eq fun _ _ hr => hr).bindExcept ?_ ?_
  · intro _ h₁ hr
    refine (safe_createMissing (hr.same.symm ▸ hfresh)).bindExcept (fun u h₂ hmade => ?_)
      fun e h₂ hmade => ⟨hmade.stage, .error hmade.stage hmade.not_calm, nofun⟩
    have hfiles := hmade.together u rfl
    refine (looks_load h₂ rfl).mono (fun h' hh => .inr (.inr (hh.symm ▸ hfiles))) ?_
    exact fun _ _ hr => ⟨hfiles.made hr, fun p hp => hr.same.symm ▸ hr.ok p hp⟩
  · intro e h₁ hr
    have hstage : Stage x h₁.files := hfresh.stage_of_eq h₁ hr.same
    exact ⟨hstage, .error hstage (hr.error e rfl), nofun⟩

/-- Every part of a start writes the files in their order, if it writes any. -/
theorem ordered_create {h : Home} (hordered : Ordered h.files) :
    Prog.Safe (machine x dir env) () (fun h' => Ordered h'.files) (fun _ h' => Ordered h'.files)
      (create x).run h := by
  refine (looks_material.keeps hordered).bindExcept (fun m h₁ hordered₁ => ?_)
    fun e h₁ hordered₁ => ⟨hordered₁, hordered₁⟩
  refine Prog.Safe.orFail ((Prog.Safe.each_partly (E := fun r => env.Calm → r = none)
    (fun _ => rfl) safe_writeFile (m.files x) h₁).mono
      (fun _ hpart => ordered_of_partly hordered₁ hpart)
      fun _ _ hr => ordered_of_partly hordered₁ hr.1) ?_ ?_
  · exact fun _ hordered => ⟨hordered, hordered⟩
  · exact fun _ _ hordered => ⟨hordered, hordered⟩

/-- **Every start writes the files in their order**, whatever `os.Stat` told it. -/
theorem ordered_of_start {h : Home} (hordered : Ordered h.files) :
    Prog.Safe (machine x dir env) () (fun h' => Ordered h'.files) (fun _ h' => Ordered h'.files)
      (loadOrCreatePKI x).run h := by
  refine ((looks_mkdirAll 0o700).keeps hordered).bindExcept (fun _ h₁ hordered₁ => ?_)
    fun e h₁ hordered₁ => ⟨hordered₁, hordered₁⟩
  refine Prog.Safe.bindExcept (Q := fun _ h' => Ordered h'.files) ?_
    (fun _ h₂ hordered₂ => looks_load.keeps hordered₂) fun e h₂ hordered₂ => ⟨hordered₂, hordered₂⟩
  refine ((looks_stat (E := fun _ => False) .caKey).keeps hordered₁).bindExcept
    (fun missing h₂ hordered₂ => ?_) fun e h₂ hordered₂ => ⟨hordered₂, hordered₂⟩
  split
  · refine ((ordered_create hordered₂).adapt _ fun _ _ hordered => hordered).mono (fun _ h => h) ?_
    rintro _ _ ⟨_, hordered, -⟩
    exact hordered
  · exact .ret hordered₂ hordered₂

end Start

/-! ## Starts in a row -/

section Starts

variable (x : Scheme Key Pub Sig) (dir : String)

/-- The home directory after starts on an empty one, each of which dies after some number of
calls or comes to its end. -/
def home (starts : List (Env Key × Option Nat)) : Home :=
  Prog.attempts (machine x dir) () (loadOrCreatePKI x).run starts Home.empty

/-- One more start, which comes to its end: what it returns, and what it leaves. -/
def nextStart (starts : List (Env Key × Option Nat)) (env : Env Key) :
    Except String (Authority Key Pub Sig) × Home :=
  (loadOrCreatePKI x).run.run (machine x dir env) () (home x dir starts)

variable {x dir}

/-- **Every start that sees what is there keeps to the stages**, wherever it dies. -/
theorem stage_of_start {env : Env Key} (hsees : env.Sees) {h : Home} (hstage : Stage x h.files) :
    Prog.Safe (machine x dir env) () (fun h' => Stage x h'.files)
      (fun _ h' => Stage x h'.files) (loadOrCreatePKI x).run h := by
  rcases hstage with hfresh | hhalf | htogether
  · exact (safe_start_fresh hfresh).mono (fun _ h => h) fun _ _ hr => hr.1.stage
  · exact (looks_loadOrCreatePKI hsees hhalf.1).keeps (.inr (.inl hhalf))
  · exact (looks_loadOrCreatePKI hsees htogether.caKey_ne_none).keeps (.inr (.inr htogether))

theorem stage_home {starts : List (Env Key × Option Nat)}
    (hsees : ∀ start ∈ starts, start.1.Sees) : Stage x (home x dir starts).files :=
  Prog.attempts_invariant (I := fun h : Home => Stage x h.files)
    (fun _ _ hsees hs => stage_of_start hsees hs) hsees (.inl ⟨rfl, rfl⟩)

theorem ordered_home (starts : List (Env Key × Option Nat)) : Ordered (home x dir starts).files :=
  Prog.attempts_invariant (I := fun h : Home => Ordered h.files) (K := fun _ => True)
    (fun _ _ _ hs => ordered_of_start hs) (fun _ _ => trivial) fun _ => rfl

/-- Starts that see it leave files alone that have `ca.key` among them. -/
theorem files_home_append {starts : List (Env Key × Option Nat)}
    (hkey : (home x dir starts).files .caKey ≠ none) (more : List (Env Key × Option Nat))
    (hsees : ∀ start ∈ more, start.1.Sees) :
    (home x dir (starts ++ more)).files = (home x dir starts).files := by
  rw [home, Prog.attempts_append]
  refine Prog.attempts_invariant (I := fun h : Home => h.files = (home x dir starts).files)
    (fun env h hsees hh => ?_) hsees rfl
  exact (looks_loadOrCreatePKI hsees hkey h hh).mono (fun _ heq => heq) fun _ _ hr => hr.same

/-- **A half-made authority stays so**, however often the node is started. -/
theorem HalfMade.home_append {starts : List (Env Key × Option Nat)}
    (h : HalfMade (home x dir starts).files) (more : List (Env Key × Option Nat))
    (hsees : ∀ start ∈ more, start.1.Sees) : HalfMade (home x dir (starts ++ more)).files := by
  rw [files_home_append h.1 more hsees]
  exact h

/-- A start with `ca.key` there. -/
theorem ends_nextStart {starts : List (Env Key × Option Nat)} {env : Env Key} (hsees : env.Sees)
    (hkey : (home x dir starts).files .caKey ≠ none) :
    Ends (home x dir starts).files (Loaded x (home x dir starts).files)
      (fun e => env.Calm → LoadError x dir (home x dir starts).files e)
      (nextStart x dir starts env).1 (nextStart x dir starts env).2 :=
  (looks_loadOrCreatePKI hsees hkey _ rfl).run

/-- A start without it. -/
theorem made_nextStart {starts : List (Env Key × Option Nat)} (env : Env Key)
    (hkey : (home x dir starts).files .caKey = none) :
    Made x env (nextStart x dir starts env).1 (nextStart x dir starts env).2 ∧
      ∀ p, (nextStart x dir starts env).1 = .ok p →
        Loaded x (nextStart x dir starts env).2.files p :=
  (safe_start_fresh ⟨hkey, ordered_home starts hkey⟩).run

/-- **A start on which nothing fails** returns no error and leaves five files that belong
together exactly when it finds no `ca.key`, or finds them so. -/
theorem nextStart_calm_iff (starts : List (Env Key × Option Nat)) {env : Env Key} (hcalm : env.Calm)
    (hsees : env.Sees) :
    ((∃ p, (nextStart x dir starts env).1 = .ok p) ∧
        Together x (nextStart x dir starts env).2.files) ↔
      (home x dir starts).files .caKey = none ∨ Together x (home x dir starts).files := by
  by_cases hkey : (home x dir starts).files .caKey = none
  · obtain ⟨hmade, -⟩ : Made x env (nextStart x dir starts env).1 _ ∧ _ := made_nextStart env hkey
    obtain ⟨p, hp⟩ := hmade.calm hcalm
    exact iff_of_true ⟨⟨p, hp⟩, hmade.together p hp⟩ (.inl hkey)
  · have hends := ends_nextStart hsees hkey
    rw [or_iff_right hkey, hends.same]
    refine and_iff_right_of_imp fun htogether => ?_
    exact (htogether.made hends).calm hcalm

section Seen

variable {starts : List (Env Key × Option Nat)} {env : Env Key} {p : Authority Key Pub Sig}

/-- On a half-made authority a start returns an error. -/
theorem nextStart_of_halfMade (hsees : env.Sees) (hhalf : HalfMade (home x dir starts).files) :
    (nextStart x dir starts env).1 ≠ .ok p := fun hp =>
  hhalf.not_loaded p ((ends_nextStart hsees hhalf.1).ok p hp)

variable (hstarts : ∀ start ∈ starts, start.1.Sees) (hsees : env.Sees)
  (hp : (nextStart x dir starts env).1 = .ok p)

include hsees hp

/-- What a start returns is what is in the files it leaves. -/
theorem loaded_nextStart : Loaded x (nextStart x dir starts env).2.files p := by
  by_cases hkey : (home x dir starts).files .caKey = none
  · exact (made_nextStart env hkey).2 p hp
  · have hends := ends_nextStart hsees hkey
    exact hends.same.symm ▸ hends.ok p hp

include hstarts

/-- After a start that returned no error the files belong together. -/
theorem together_nextStart : Together x (nextStart x dir starts env).2.files := by
  have hstage : Stage x (home x dir starts).files := stage_home hstarts
  rcases hstage with hfresh | hhalf | htogether
  · exact (made_nextStart env hfresh.1).1.together p hp
  · exact absurd hp (nextStart_of_halfMade hsees hhalf)
  · rw [(ends_nextStart hsees htogether.caKey_ne_none).same]
    exact htogether

end Seen

theorem env_calm (env : Env Key) : env.calm.Calm := fun _ => rfl

/-! ## A start that dies between two writes -/

/-- A start that misses `ca.key` and dies when it has taken `k` of the ten steps of its writes:
the calls before them, and what it leaves. -/
theorem attempt_writing (x : Scheme Key Pub Sig) (dir : String) (env : Env Key) {h₀ : Home}
    (hmissing : ((machine x dir env.calm).exec (.stat .caKey) h₀.tick).1.isSome) :
    ∃ (m : Material Key) (h : Home), m.Sound x ∧ (∃ n, m.caKey = env.keys n) ∧ h.files = h₀.files ∧
      ∀ k < 10, Prog.attempt (machine x dir env.calm) () (loadOrCreatePKI x).run h₀
          (some ((material x).run.steps (machine x dir env.calm) () h₀.tick.tick + k + 2)) =
        (Prog.each writeFile (m.files x)).cut (machine x dir env.calm) () k h := by
  have hsafe : Prog.Safe (machine x dir env.calm) () _ _ (material x).run h₀.tick.tick :=
    looks_material _ rfl
  have hends := hsafe.run
  cases hr : ((material x).run.run (machine x dir env.calm) () h₀.tick.tick).1 with
  | error e => exact absurd (env_calm env) (hends.error e hr)
  | ok m =>
      obtain ⟨hsound, hkey⟩ := hends.ok m hr
      refine ⟨m, _, hsound, hkey, hends.same, fun k hk => ?_⟩
      generalize hn : (material x).run.steps (machine x dir env.calm) () h₀.tick.tick = n
      have hlt : n + k < (create x).run.steps (machine x dir env.calm) () h₀.tick.tick := by
        rw [create, Prog.steps_bindExcept _ hr, hn]
        exact Nat.add_lt_add_left hk n
      calc Prog.attempt (machine x dir env.calm) () (loadOrCreatePKI x).run h₀ (some (n + k + 2))
          = ((if ((machine x dir env.calm).exec (.stat .caKey) h₀.tick).1.isSome then
                (create x).adapt ("creating the certificate authority: " ++ ·)
              else return ()) >>= fun _ => load x : Step Key Pub _).run.cut
                (machine x dir env.calm) () (n + k) h₀.tick.tick := rfl
        _ = ((create x).adapt ("creating the certificate authority: " ++ ·) >>=
              fun _ => load x).run.cut (machine x dir env.calm) () (n + k) h₀.tick.tick := by
            rw [if_pos hmissing]
        _ = (create x).run.cut (machine x dir env.calm) () (n + k) h₀.tick.tick := by
            refine (Prog.cut_bind_of_lt _ _ _ ?_).trans (Prog.cut_bind_of_lt _ _ _ hlt)
            exact hlt.trans_le (Prog.steps_le_bind _ _ _ _ _)
        _ = (Prog.each writeFile (m.files x)).cut (machine x dir env.calm) () k
              ((material x).run.run (machine x dir env.calm) () h₀.tick.tick).2 := by
            rw [create, ← hn, Prog.cut_bindExcept_steps _ hr]
            exact Prog.cut_bind_of_lt _ _ _ hk

/-- A file that is not there is missed. -/
theorem stat_missing (x : Scheme Key Pub Sig) (dir : String) (env : Env Key) {h : Home} {f : File}
    (hf : h.files f = none) : ((machine x dir env).exec (.stat f) h).1.isSome := by
  simp only [machine, hf]
  cases env.statFails h.calls <;> rfl

/-- An empty home directory, once a start has looked for `ca.key`. -/
def Home.searched : Home := ⟨fun _ => none, 2⟩

/-- The calls of a start on an empty home directory that has taken `k` of the ten steps of its
writes. -/
def callsBefore (x : Scheme Key Pub Sig) (dir : String) (env : Env Key) (k : Nat) : Nat :=
  (material x).run.steps (machine x dir env.calm) () Home.searched + k + 2

/-- What it leaves when it dies there. -/
theorem home_writing (x : Scheme Key Pub Sig) (dir : String) (env : Env Key) :
    ∃ (m : Material Key) (h : Home), m.Sound x ∧ h.files = (fun _ => none) ∧ ∀ k < 10,
      home x dir [(env.calm, some (callsBefore x dir env k))] =
        (Prog.each writeFile (m.files x)).cut (machine x dir env.calm) () k h := by
  obtain ⟨m, h, hsound, -, hfiles, hcut⟩ :=
    attempt_writing x dir env (stat_missing x dir env.calm (h := Home.empty.tick) rfl)
  exact ⟨m, h, hsound, hfiles, hcut⟩

/-- **A start that cannot see `ca.key` may mix two authorities.**  Five files that belong
together, an `os.Stat` that fails and a death once `ca.crt` is written: the next start returns
no error, on files that do not belong together. -/
theorem blind_start_mixes {h : Home} {ca server : List UInt8 × Certificate Pub Sig}
    {caKey serverKey : Key} {tlsCrypt : List UInt8}
    (hholds : Holds x h.files ca server caKey serverKey tlsCrypt) (env : Env Key)
    (hblind : env.statFails (h.calls + 1) ≠ none)
    (hkeys : ∀ n, x.publicKey (env.keys n) ≠ x.publicKey caKey) {env' : Env Key}
    (hcalm : env'.Calm) (hsees : env'.Sees) :
    ∃ dies, (∃ p, ((loadOrCreatePKI x).run.run (machine x dir env') () (Prog.attempt
        (machine x dir env.calm) () (loadOrCreatePKI x).run h (some dies))).1 = .ok p) ∧
      ¬ Together x (Prog.attempt (machine x dir env.calm) () (loadOrCreatePKI x).run h
        (some dies)).files := by
  have hmissing : ((machine x dir env.calm).exec (.stat .caKey) h.tick).1.isSome := by
    obtain ⟨e, he⟩ := Option.ne_none_iff_exists'.1 hblind
    simp only [machine, Env.calm, Home.tick, he, Option.isSome_some]
  obtain ⟨m, h', ⟨cert, hcert, hsigns, -⟩, ⟨n, hkey⟩, hfiles, hcut⟩ :=
    attempt_writing x dir env hmissing
  refine ⟨(material x).run.steps (machine x dir env.calm) () h.tick.tick + 2 + 2, ?_⟩
  rw [hcut 2 (by decide)]
  -- `ca.crt` is the new authority's, and the other files are as they were
  generalize hleft : (Prog.each writeFile (m.files x)).cut (machine x dir env.calm) () 2 h' = left
  have hcaFile : (left.files .caCert).bind x.certificateIn = some (m.caDER, cert) :=
    hleft ▸ certificateIn_certPEM hcert
  have hothers : ∀ f, f ≠ .caCert → left.files f = h.files f := by
    intro f hf
    rw [← hfiles, ← hleft]
    exact (Function.update_of_ne hf _ _).trans (Function.update_of_ne hf _ _)
  have hkeyFile : (left.files .caKey).bind x.keyIn = some caKey := by
    rw [hothers _ (by decide)]
    exact hholds.caKeyFile
  have htlsFile : (left.files .tlsCrypt).map parseStaticKeyFile = some (.ok tlsCrypt) := by
    rw [hothers _ (by decide)]
    exact hholds.tlsCryptFile
  have hthere : left.files .caKey ≠ none := fun hnone => by
    rw [hnone] at hkeyFile
    cases hkeyFile
  have hsafe : Prog.Safe (machine x dir env') () _ _ (loadOrCreatePKI x).run left :=
    looks_loadOrCreatePKI hsees hthere left rfl
  refine ⟨(Loaded.of_files hcaFile hkeyFile htlsFile).calm hsafe.run hcalm, ?_⟩
  rintro ⟨ca', server', caKey', serverKey', tlsCrypt', hmixed⟩
  cases hcaFile.symm.trans hmixed.caCertFile
  cases hkeyFile.symm.trans hmixed.caKeyFile
  refine hkeys n ?_
  rw [← hkey, ← hsigns.publicKey]
  exact hmixed.ca_key

/-- **From the opening of `ca.key`, the third step, to the opening of `tc.key`, the ninth, a
start that dies leaves the authority half-made.** -/
theorem halfMade_writing_iff (x : Scheme Key Pub Sig) (dir : String) (env : Env Key) {k : Nat}
    (hk : k < 10) :
    HalfMade (home x dir [(env.calm, some (callsBefore x dir env k))]).files ↔ 3 ≤ k := by
  obtain ⟨m, h, -, hfiles, hhome⟩ := home_writing x dir env
  have hkey := congrFun hfiles .caKey
  have htls := congrFun hfiles .tlsCrypt
  rw [hhome k hk]
  constructor
  · intro hhalf
    by_contra hlt
    interval_cases k <;> exact hhalf.1 hkey
  · intro hle
    -- at the ninth step `tc.key` is there and empty, before it is not there
    interval_cases k <;> first | exact ⟨nofun, .inl htls⟩ | exact ⟨nofun, .inr rfl⟩

/-- A directory in which only `tc.key` is missed. -/
theorem nextStart_of_no_tlsCrypt {starts : List (Env Key × Option Nat)}
    (hcert : ∃ ca, ReadsAs (home x dir starts).files .caCert (caCertOf x) ca)
    (hkey : ∃ key, ReadsAs (home x dir starts).files .caKey (caKeyOf x) key)
    (htls : (home x dir starts).files .tlsCrypt = none) {env : Env Key} (hsees : env.Sees) :
    (nextStart x dir starts env.calm).1 =
      .error ("open " ++ File.path dir .tlsCrypt ++ ": no such file or directory") := by
  have hthere : (home x dir starts).files .caKey ≠ none := by
    obtain ⟨_, data, hdata, -⟩ := hkey
    rw [hdata]
    exact nofun
  have hcalm : env.calm.Sees := hsees
  have hends := ends_nextStart hcalm hthere
  cases hr : (nextStart x dir starts env.calm).1 with
  | error e => rw [(hends.error e hr (env_calm env)).2 hcert hkey htls]
  | ok p => exact absurd (hends.ok p hr) (HalfMade.not_loaded ⟨hthere, .inl htls⟩ p)

/-- **Once a start has died between the writes of `ca.key` and `server.crt`, every later one
misses `tc.key`.** -/
theorem nextStart_interrupted (x : Scheme Key Pub Sig) (dir : String) (env : Env Key)
    (more : List (Env Key × Option Nat)) (hmore : ∀ start ∈ more, start.1.Sees) {env' : Env Key}
    (hsees : env'.Sees) :
    (nextStart x dir ([(env.calm, some (callsBefore x dir env 4))] ++ more) env'.calm).1 =
      .error ("open " ++ File.path dir .tlsCrypt ++ ": no such file or directory") := by
  obtain ⟨m, h, ⟨ca, hca, -⟩, hfiles, hhome⟩ := home_writing x dir env
  have hhalf := (halfMade_writing_iff x dir env (k := 4) (by decide)).2 (by decide)
  have hsame := files_home_append hhalf.1 more hmore
  rw [hhome 4 (by decide)] at hsame
  refine nextStart_of_no_tlsCrypt ⟨(m.caDER, ca), certPEM x m.caDER, ?_, ?_⟩
    ⟨m.caKey, mustKeyPEM x m.caKey, ?_, ?_⟩ ?_ hsees
  · rw [hsame]
    rfl
  · exact caCertOf_of_certificateIn (certificateIn_certPEM hca)
  · rw [hsame]
    rfl
  · exact caKeyOf_of_keyIn (keyIn_mustKeyPEM m.caKey)
  · rw [hsame]
    exact congrFun hfiles .tlsCrypt

/-! ## When the authority is there -/

/-- **A start returns no error and leaves five files that belong together exactly when no
start before it left the authority half-made**; and whenever it returns none, they belong
together.  Both as long as `os.Stat` fails for a missing file only. -/
theorem starts_recover_iff (x : Scheme Key Pub Sig) (dir : String)
    (starts : List (Env Key × Option Nat)) (hstarts : ∀ start ∈ starts, start.1.Sees)
    (env : Env Key) (hsees : env.Sees) :
    (((∃ p, (nextStart x dir starts env.calm).1 = .ok p) ∧
        Together x (nextStart x dir starts env.calm).2.files) ↔
      ∀ n, ¬ HalfMade (home x dir (starts.take n)).files) ∧
    ∀ p, (nextStart x dir starts env).1 = .ok p →
      Together x (nextStart x dir starts env).2.files := by
  refine ⟨⟨?_, fun hnever => ?_⟩, fun p hp => together_nextStart hstarts hsees hp⟩
  · rintro ⟨⟨p, hp⟩, -⟩ n hhalf
    have hend := hhalf.home_append (starts.drop n)
      fun start hstart => hstarts start (List.mem_of_mem_drop hstart)
    rw [List.take_append_drop] at hend
    exact nextStart_of_halfMade (show env.calm.Sees from hsees) hend hp
  · have hhalf := hnever starts.length
    rw [List.take_length] at hhalf
    have hstage : Stage x (home x dir starts).files := stage_home hstarts
    refine (nextStart_calm_iff starts (env_calm env) hsees).2 ?_
    exact hstage.imp And.left fun h => h.resolve_left hhalf

/-- **The certificates a node hands its clients**, after a start that returned no error, are
issued by the authority in its files, each for the key that goes with it. -/
theorem issueClient_of_nextStart {starts : List (Env Key × Option Nat)}
    (hstarts : ∀ start ∈ starts, start.1.Sees) {env : Env Key} (hsees : env.Sees)
    {p : Authority Key Pub Sig} (hp : (nextStart x dir starts env).1 = .ok p) (env' : Env Key)
    (files : File → Option (List UInt8)) (commonName : String) :
    Looks x dir env' files
      (fun issued => ∃ key, x.parseKey issued.2 = .ok (some key) ∧
        IssuedFor x p.caCert (x.publicKey key) commonName issued.1)
      (fun _ => ¬ env'.Calm) (issueClient x p commonName) :=
  issueClient_issued ((together_nextStart hstarts hsees hp).signs (loaded_nextStart hsees hp))
    commonName

/-- A host on which nothing fails. -/
def quiet : Env Nat where
  keys n := n
  clock n := n
  serials _ := 1
  nonces n := n
  bytes _ n := ⟨List.replicate n 7, List.length_replicate⟩
  fails _ := none
  statFails _ := none

theorem quiet_sees : quiet.Sees := fun _ => rfl

/-- The first start on an empty directory, and a client after it. -/
theorem issueClient_of_firstStart :
    ∃ p, (nextStart plain "/root/.dvpnd/openvpn" [] quiet.calm).1 = .ok p ∧
      Looks plain "/root/.dvpnd/openvpn" quiet.calm
        (nextStart plain "/root/.dvpnd/openvpn" [] quiet.calm).2.files
        (fun issued => ∃ key, plain.parseKey issued.2 = .ok (some key) ∧
          IssuedFor plain p.caCert (plain.publicKey key) "client" issued.1)
        (fun _ => ¬ quiet.calm.Calm) (issueClient plain p "client") := by
  have hfirst : (∃ p, (nextStart plain "/root/.dvpnd/openvpn" [] quiet.calm).1 = .ok p) ∧ _ :=
    (nextStart_calm_iff [] (env_calm quiet) quiet_sees).2 (.inl rfl)
  obtain ⟨⟨p, hp⟩, -⟩ := hfirst
  exact ⟨p, hp, issueClient_of_nextStart (by simp) quiet_sees hp quiet.calm _ "client"⟩

/-- A start that dies with `ca.crt` written and `ca.key` not yet opened does no harm. -/
theorem starts_recover_early :
    (∃ p, (nextStart plain "/root/.dvpnd/openvpn"
        [(quiet.calm, some (callsBefore plain "/root/.dvpnd/openvpn" quiet 2))] quiet.calm).1 =
          .ok p) ∧
      Together plain (nextStart plain "/root/.dvpnd/openvpn"
        [(quiet.calm, some (callsBefore plain "/root/.dvpnd/openvpn" quiet 2))]
          quiet.calm).2.files := by
  refine (starts_recover_iff plain "/root/.dvpnd/openvpn" _
    (List.forall_mem_singleton.2 quiet_sees) quiet quiet_sees).1.2 fun n hhalf => ?_
  cases n with
  | zero => exact hhalf.1 rfl
  | succ n =>
      rw [List.take_succ_cons, List.take_nil, halfMade_writing_iff _ _ _ (by decide)] at hhalf
      exact absurd hhalf (by decide)

/-- A start dies once `ca.key` is written, and neither the next one nor the one after it gets
past the missing `tc.key`. -/
theorem interrupted_start_is_final :
    (nextStart plain "/root/.dvpnd/openvpn"
        [(quiet.calm, some (callsBefore plain "/root/.dvpnd/openvpn" quiet 4))] quiet.calm).1 =
      .error "open /root/.dvpnd/openvpn/tc.key: no such file or directory" ∧
    (nextStart plain "/root/.dvpnd/openvpn"
        [(quiet.calm, some (callsBefore plain "/root/.dvpnd/openvpn" quiet 4)), (quiet, none)]
        quiet.calm).1 =
      .error "open /root/.dvpnd/openvpn/tc.key: no such file or directory" :=
  ⟨nextStart_interrupted plain _ quiet [] (by simp) quiet_sees,
    nextStart_interrupted plain _ quiet [(quiet, none)]
      (List.forall_mem_singleton.2 quiet_sees) quiet_sees⟩

end Starts

end Dvpnd.OpenVPN.PKI

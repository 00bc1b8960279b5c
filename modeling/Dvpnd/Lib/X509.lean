import Mathlib

/-!
# Certificates

Certificates, keys and the files they are kept in, as far as a program that issues them can
tell: what is signed verifies, and what is encoded is read back.

* `Template`, `Body`, `Certificate` — what a certificate is asked to say, what it says, and
  the same with its signature.
* `Scheme` — signatures and encodings, with their laws; `Scheme.create` makes a certificate.
* `Signs`, `Issued` — the certificate of an authority, and one that it vouches for;
  `Scheme.issued_create`.
* `certificateIn`, `keyIn` — what a PEM file holds.
* `plain` — a scheme that has the laws.
-/

namespace X509

/-- `KeyUsage`, a mask with a bit for each use. -/
structure KeyUsage where
  digitalSignature : Bool := false
  certSign : Bool := false
  crlSign : Bool := false
  deriving DecidableEq, Repr, Encodable

/-- `ExtKeyUsage`. -/
inductive ExtKeyUsage where
  | serverAuth
  | clientAuth
  deriving DecidableEq, Repr, Encodable

/-- A character by its number. -/
instance encodableChar : Encodable Char :=
  Encodable.ofLeftInverse Char.toNat Char.ofNat Char.ofNat_toNat

instance encodableString : Encodable String :=
  Encodable.ofLeftInverse String.toList String.ofList fun _ => String.ofList_toList

instance encodableUInt8 : Encodable UInt8 :=
  Encodable.ofLeftInverse UInt8.toNat UInt8.ofNat fun _ => UInt8.ofNat_toNat

/-- What a certificate is asked to say; times are in seconds. -/
structure Template where
  serialNumber : Nat
  /-- The common name of the subject. -/
  commonName : String
  notBefore : Int
  notAfter : Int
  keyUsage : KeyUsage
  extKeyUsage : List ExtKeyUsage
  basicConstraintsValid : Bool
  isCA : Bool
  /-- `MaxPathLen`, where `MaxPathLenZero` tells zero from none. -/
  maxPathLen : Option Nat
  deriving DecidableEq, Repr, Encodable

/-- What a certificate says: the part that is signed. -/
structure Body (Pub : Type) where
  template : Template
  /-- The common name of the issuer. -/
  issuer : String
  publicKey : Pub
  deriving DecidableEq, Encodable

/-- A certificate. -/
structure Certificate (Pub Sig : Type) where
  body : Body Pub
  signature : Sig
  deriving DecidableEq, Encodable

/-- Signatures and encodings. -/
structure Scheme (Key Pub Sig : Type) where
  /-- The public half of a key. -/
  publicKey : Key → Pub
  /-- A signature, from some randomness. -/
  sign : Nat → Key → Body Pub → Sig
  /-- Whether a signature was made with the private half of a key. -/
  verify : Pub → Body Pub → Sig → Bool
  verify_sign : ∀ r key body, verify (publicKey key) body (sign r key body) = true
  /-- The DER encoding of a certificate. -/
  encodeCertificate : Certificate Pub Sig → List UInt8
  /-- `x509.ParseCertificate`. -/
  parseCertificate : List UInt8 → Except String (Certificate Pub Sig)
  parse_encode : ∀ cert, parseCertificate (encodeCertificate cert) = .ok cert
  /-- `x509.MarshalPKCS8PrivateKey`. -/
  marshalKey : Key → List UInt8
  /-- `x509.ParsePKCS8PrivateKey`: none for a key of another kind. -/
  parseKey : List UInt8 → Except String (Option Key)
  parse_marshal : ∀ key, parseKey (marshalKey key) = .ok (some key)
  /-- `pem.EncodeToMemory`, of a type and what is in the block. -/
  encodePEM : String → List UInt8 → List UInt8
  /-- `pem.Decode`: the first block. -/
  decodePEM : List UInt8 → Option (String × List UInt8)
  decode_encode : ∀ kind der, decodePEM (encodePEM kind der) = some (kind, der)

variable {Key Pub Sig : Type}

/-- `ca` is the certificate of an authority, for `key`. -/
structure Signs (x : Scheme Key Pub Sig) (ca : Certificate Pub Sig) (key : Key) : Prop where
  isCA : ca.body.template.basicConstraintsValid = true ∧ ca.body.template.isCA = true
  certSign : ca.body.template.keyUsage.certSign = true
  publicKey : ca.body.publicKey = x.publicKey key

/-- `ca` vouches for `cert`: it may sign certificates, is named in `cert`, and its key
verifies the signature. -/
structure Issued (x : Scheme Key Pub Sig) (ca cert : Certificate Pub Sig) : Prop where
  isCA : ca.body.template.basicConstraintsValid = true ∧ ca.body.template.isCA = true
  certSign : ca.body.template.keyUsage.certSign = true
  issuer : cert.body.issuer = ca.body.template.commonName
  verified : x.verify ca.body.publicKey cert.body cert.signature = true

namespace Scheme

variable (x : Scheme Key Pub Sig)

/-- The certificate for a template and a key, signed with the key of its parent. -/
def certificate (r : Nat) (template parent : Template) (pub : Pub) (key : Key) :
    Certificate Pub Sig :=
  ⟨⟨template, parent.commonName, pub⟩, x.sign r key ⟨template, parent.commonName, pub⟩⟩

/-- `x509.CreateCertificate`: its DER encoding. -/
def create (r : Nat) (template parent : Template) (pub : Pub) (key : Key) : List UInt8 :=
  x.encodeCertificate (x.certificate r template parent pub key)

@[simp] theorem parse_create (r : Nat) (template parent : Template) (pub : Pub) (key : Key) :
    x.parseCertificate (x.create r template parent pub key) =
      .ok (x.certificate r template parent pub key) :=
  x.parse_encode _

/-- **A certificate made with the key of an authority is issued by it.** -/
theorem issued_create {ca : Certificate Pub Sig} {key : Key} (hca : Signs x ca key) (r : Nat)
    (template : Template) (pub : Pub) :
    Issued x ca (x.certificate r template ca.body.template pub key) where
  isCA := hca.isCA
  certSign := hca.certSign
  issuer := rfl
  verified := by
    rw [hca.publicKey]
    exact x.verify_sign r key _

/-! ## PEM files -/

/-- What is in the first block of a file, when it is of the type asked for. -/
def block (kind : String) (data : List UInt8) : Option (List UInt8) :=
  match x.decodePEM data with
  | none => none
  | some (k, der) => if k = kind then some der else none

@[simp] theorem block_encodePEM (kind : String) (der : List UInt8) :
    x.block kind (x.encodePEM kind der) = some der := by
  rw [block, x.decode_encode]
  exact if_pos rfl

/-- The certificate in a file, with its encoding. -/
def certificateIn (data : List UInt8) : Option (List UInt8 × Certificate Pub Sig) :=
  (x.block "CERTIFICATE" data).bind fun der =>
    (x.parseCertificate der).toOption.map fun cert => (der, cert)

/-- The key in a file. -/
def keyIn (data : List UInt8) : Option Key :=
  (x.block "PRIVATE KEY" data).bind fun der => (x.parseKey der).toOption.join

end Scheme

/-! ## A scheme that has the laws -/

/-- A value as bytes, by its number. -/
def plainEncode {α : Type} [Encodable α] (a : α) : List UInt8 :=
  (Nat.digits 256 (Encodable.encode a)).map UInt8.ofNat

def plainDecode {α : Type} [Encodable α] (data : List UInt8) : Option α :=
  Encodable.decode (Nat.ofDigits 256 (data.map UInt8.toNat))

theorem plainDecode_plainEncode {α : Type} [Encodable α] (a : α) :
    plainDecode (plainEncode a) = some a := by
  have hbytes : ((Nat.digits 256 (Encodable.encode a)).map UInt8.ofNat).map UInt8.toNat =
      Nat.digits 256 (Encodable.encode a) := by
    rw [List.map_map]
    refine (List.map_congr_left fun d hd => ?_).trans (List.map_id _)
    exact UInt8.toNat_ofNat_of_lt' (Nat.digits_lt_base (by decide) hd)
  rw [plainDecode, plainEncode, hbytes, Nat.ofDigits_digits, Encodable.encodek]

/-- Keys that are numbers and sign with themselves, and values written out by their numbers. -/
def plain : Scheme Nat Nat Nat where
  publicKey key := key
  sign _ key _ := key
  verify pub _ sig := pub == sig
  verify_sign _ key _ := beq_self_eq_true key
  encodeCertificate := plainEncode
  parseCertificate data :=
    match plainDecode data with
    | some cert => .ok cert
    | none => .error "x509: malformed certificate"
  parse_encode cert := by rw [plainDecode_plainEncode]
  marshalKey := plainEncode
  parseKey data :=
    match plainDecode data with
    | some key => .ok (some key)
    | none => .error "x509: failed to parse private key"
  parse_marshal key := by rw [plainDecode_plainEncode]
  encodePEM kind der := plainEncode (kind, der)
  decodePEM := plainDecode
  decode_encode kind der := plainDecode_plainEncode (kind, der)

end X509

import QueryTree.Error
import QueryTree.Postgres.Certificate
import QueryTree.Postgres.ConnectionString
import QueryTree.Postgres.Wire

/-!
# Connections

The settings of a connection, its connection string, and the pool made from it. Opening a pool
connects to nothing; it fails only if the settings cannot be used.
-/

namespace QueryTree

/-- How far a connection insists on encryption and on certificates. -/
inductive TlsMode where
  | disable | prefer | require | verifyCa | verifyFull
deriving DecidableEq, Repr, Inhabited

namespace TlsMode

/-- The mode in configuration files. -/
def spelling : TlsMode → String
  | disable => "disable"
  | prefer => "prefer"
  | require => "require"
  | verifyCa => "verify-ca"
  | verifyFull => "verify-full"

/-- All modes, from the weakest to the strictest. -/
def all : List TlsMode := [disable, prefer, require, verifyCa, verifyFull]

/-- The mode of a spelling. -/
def ofSpelling? (s : String) : Option TlsMode := all.find? (·.spelling == s)

/-- The mode in a connection string. Certificates are checked on this side, so the server is told no
more than that encryption is required. -/
def connectionMode : TlsMode → String
  | disable => "disable"
  | prefer => "prefer"
  | require | verifyCa | verifyFull => "require"

/-- The certificate is checked whatever the settings say. -/
def isStrict : TlsMode → Bool
  | verifyCa | verifyFull => true
  | _ => false

end TlsMode

/-- How to reach a database. -/
structure ConnectionSettings where
  host : String := "localhost"
  portNumber : Nat := 5432
  database : String := "postgres"
  username : String := "postgres"
  password : String := ""
  tlsMode : TlsMode := .prefer
  acceptInvalidCertificates : Bool := false
  /-- A bundle of certificates to trust in addition. -/
  caPath : Option String := none
  poolSize : Nat := 16
deriving DecidableEq, Repr

namespace ConnectionSettings

/-- A value between quotes. -/
def quoted (s : String) : String := String.ofList (ConnectionString.quote s.toList)

/-- The settings as a connection string. -/
def connectionString (c : ConnectionSettings) : String :=
  "host=" ++ quoted c.host ++ " port=" ++ toString c.portNumber ++
    " dbname=" ++ quoted c.database ++ " user=" ++ quoted c.username ++
    " password=" ++ quoted c.password ++ " sslmode=" ++ c.tlsMode.connectionMode ++
    " connect_timeout=10"

/-- The server in short, without the password. -/
def display (c : ConnectionSettings) : String :=
  c.username ++ "@" ++ c.host ++ ":" ++ toString c.portNumber ++ "/" ++ c.database

end ConnectionSettings

/-! ## Pools -/

/-- What opening a pool asks of the machine: the contents of files, and which blocks of a bundle are
certificates. -/
structure Trust where
  contents : String → Option (List UInt8)
  isCertificate : String → Bool

/-- A pool of connections that have not been opened. -/
structure Pool where
  maxSize : Nat
deriving DecidableEq, Repr

namespace Pool

/-- Read a bundle of certificates. -/
def checkBundle (trust : Trust) (data : List UInt8) : Except Fault Unit :=
  match Bytes.toText? data with
  | none => .error (.other "CA certificate file is not valid UTF-8")
  | some text =>
    let blocks := Certificate.blocks text
    if blocks.isEmpty then .error (.other "No valid certificates found in PEM data")
    else if blocks.all trust.isCertificate then .ok ()
    else .error (.other "Failed to parse certificate")

/-- Prepare encryption. Only a connection that checks certificates needs the bundle. -/
def checkTls (trust : Trust) (c : ConnectionSettings) : Except Fault Unit :=
  if c.tlsMode = .disable then .ok ()
  else if c.acceptInvalidCertificates && !c.tlsMode.isStrict then .ok ()
  else
    match c.caPath with
    | none => .ok ()
    | some path =>
      match trust.contents path with
      | none => .error (.other s!"Failed to read CA certificate file: {path}")
      | some data => checkBundle trust data

/-- Open a pool. It has room for one connection at least. -/
def create (trust : Trust) (c : ConnectionSettings) : Except Fault Pool :=
  match ConnectionString.read? c.connectionString with
  | none => .error (.other "Invalid PostgreSQL connection settings")
  | some _ => do
    checkTls trust c
    return ⟨max c.poolSize 1⟩

end Pool

end QueryTree

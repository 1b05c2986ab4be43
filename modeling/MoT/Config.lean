import MoT.Crypto
import MoT.Lib.Text

/-! The configuration file of the client and of the server. -/
namespace MoT
open CMemory

/-- The char arrays of `AppConfig`. -/
inductive TextField where
  | serverHost | caCertPath | dbPath | serverCertPath | serverKeyPath | dbEncryptionKey
deriving DecidableEq

def TextField.size : TextField → Nat
  | .serverHost => 256
  | .caCertPath => 512
  | .dbPath => 512
  | .serverCertPath => 512
  | .serverKeyPath => 512
  | .dbEncryptionKey => 256

structure AppConfig where
  port : Int
  serverHost : List.Vector UInt8 256
  caCertPath : List.Vector UInt8 512
  dbPath : List.Vector UInt8 512
  serverCertPath : List.Vector UInt8 512
  serverKeyPath : List.Vector UInt8 512
  dbEncryptionKey : List.Vector UInt8 256

namespace AppConfig

def text (config : AppConfig) : (f : TextField) → List.Vector UInt8 f.size
  | .serverHost => config.serverHost
  | .caCertPath => config.caCertPath
  | .dbPath => config.dbPath
  | .serverCertPath => config.serverCertPath
  | .serverKeyPath => config.serverKeyPath
  | .dbEncryptionKey => config.dbEncryptionKey

def setText (config : AppConfig) : (f : TextField) → List.Vector UInt8 f.size → AppConfig
  | .serverHost, array => { config with serverHost := array }
  | .caCertPath, array => { config with caCertPath := array }
  | .dbPath, array => { config with dbPath := array }
  | .serverCertPath, array => { config with serverCertPath := array }
  | .serverKeyPath, array => { config with serverKeyPath := array }
  | .dbEncryptionKey, array => { config with dbEncryptionKey := array }

@[simp] theorem setText_port (config : AppConfig) (f : TextField) (array : List.Vector UInt8 f.size) :
    (config.setText f array).port = config.port := by
  cases f <;> rfl

@[simp] theorem text_setText (config : AppConfig) (f : TextField)
    (array : List.Vector UInt8 f.size) : (config.setText f array).text f = array := by
  cases f <;> rfl

theorem text_setText_other (config : AppConfig) {f g : TextField} (other : g ≠ f)
    (array : List.Vector UInt8 g.size) : (config.setText g array).text f = config.text f := by
  cases f <;> cases g <;> first | rfl | exact absurd rfl other

/- The arrays lie one behind the other, and a scan may run on. -/
def arrays (config : AppConfig) : List UInt8 :=
  config.serverHost.toList ++ (config.caCertPath.toList ++ (config.dbPath.toList ++
    (config.serverCertPath.toList ++ (config.serverKeyPath.toList ++
      config.dbEncryptionKey.toList))))

def offset : TextField → Nat
  | .serverHost => 0
  | .caCertPath => 256
  | .dbPath => 768
  | .serverCertPath => 1280
  | .serverKeyPath => 1792
  | .dbEncryptionKey => 2304

def string (config : AppConfig) (f : TextField) : Except CMemory.Fault CString :=
  loadString (some config.arrays) (offset f)

end AppConfig

def defaultPort : Int := 8080
def defaultHost : CString := CString.lit "localhost"
def defaultDbPath : CString := CString.lit "data/messagerie.db"

/- `strncpy(config->f, val, sizeof(config->f) - 1)` -/
def copyText (f : TextField) (val : CString) (config : AppConfig) : AppConfig :=
  config.setText f (strncpyInto val (config.text f))

/- `config->f[0] = '\0'` -/
def clearText (f : TextField) (config : AppConfig) : AppConfig :=
  config.setText f (clearFirst (config.text f))

def applyDefaults (config : AppConfig) : AppConfig :=
  let config := { config with port := defaultPort }
  let config := copyText .serverHost defaultHost config
  let config := clearText .caCertPath config
  let config := clearText .dbEncryptionKey config
  let config := copyText .dbPath defaultDbPath config
  let config := copyText .serverCertPath (CString.lit "server.crt") config
  copyText .serverKeyPath (CString.lit "server.key") config

inductive Setting where
  | port
  | text (f : TextField)
deriving DecidableEq

def settingOf (key : CString) : Option Setting :=
  if key = CString.lit "server_host" then some (.text .serverHost)
  else if key = CString.lit "server_port" ∨ key = CString.lit "bind_port" then some .port
  else if key = CString.lit "ca_path" then some (.text .caCertPath)
  else if key = CString.lit "db_path" then some (.text .dbPath)
  else if key = CString.lit "cert_file" then some (.text .serverCertPath)
  else if key = CString.lit "key_file" then some (.text .serverKeyPath)
  else if key = CString.lit "db_key" then some (.text .dbEncryptionKey)
  else none

def assign (config : AppConfig) : Setting × CString → AppConfig
  | (.port, val) => { config with port := atoi val }
  | (.text f, val) => copyText f val config

/- What one pass of the loop sets, from what `fgets` left in `line`. -/
def lineSetting (line : List UInt8) : Option (Setting × CString) :=
  let p := (CString.cut line).skip isBlank
  if p.bytes = [] ∨ p.bytes.head? = some 35 then none
  else match p.strtok 61 with
    | none => none
    | some (key, rest) =>
      match rest.strtok newline with
      | none => none
      | some (val, _) => (settingOf key.trim).map fun k => (k, val.trim)

/- `char line[1024]` holds 1023 bytes and a NUL. -/
def settings (file : List UInt8) : List (Setting × CString) :=
  (pieces 1023 file).filterMap lineSetting

def configLoad (file : Option (List UInt8)) (config : AppConfig) : AppConfig × Bool :=
  match file with
  | none => (applyDefaults config, false)
  | some file => ((settings file).foldl assign (applyDefaults config), true)

/- What is written to the file, where every `%s` finds its NUL. -/
def configSaveClient (config : AppConfig) : Except CMemory.Fault (List UInt8) := do
  let host ← config.string .serverHost
  return (CString.lit "# MoT Client Configuration\n").bytes ++
    (CString.lit "# Generated by First Run Wizard\n\n").bytes ++
    ((CString.lit "server_host=").bytes ++ host.bytes ++ [newline]) ++
    ((CString.lit "server_port=").bytes ++ printInt config.port ++ [newline]) ++
    (CString.lit "# ca_path=/path/to/custom_server.crt\n").bytes

end MoT

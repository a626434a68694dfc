import QuicLab.Android.Routes
import QuicLab.Awg.Config

/-!
# Importing profiles

The checks the app makes before it imports a profile (`ProfileImport.validate`).
-/

namespace QuicLab.Android

open Go Kotlin

/-- Is the character in the class `[a-zA-Z0-9.-]`? -/
def isNameChar (n : ℕ) : Bool :=
  (97 ≤ n && n ≤ 122) || (65 ≤ n && n ≤ 90) || (48 ≤ n && n ≤ 57) || n = 46 || n = 45

/-- Does the text match `[a-zA-Z0-9.-]{1,253}`? -/
def isName (s : List ℕ) : Bool := 1 ≤ s.length ∧ s.length ≤ 253 ∧ s.all isNameChar

/-- Does the text match `[0-9a-fA-F]{64}`? -/
def isFingerprint (s : Text) : Bool :=
  s.length = 64 ∧ s.all fun c => (48 ≤ c.toNat && c.toNat ≤ 57) || (97 ≤ c.toNat && c.toNat ≤ 102) ||
    (65 ≤ c.toNat && c.toNat ≤ 70)

/-- The check of an endpoint: a name and a port. -/
def isEndpoint (P : Platform) (value : Text) : Bool :=
  let pieces := value.splitOn (unit (ascii ':'))
  let port := (P.toIntOrNull (pieces.getD 1 [])).getD 0
  pieces.length = 2 ∧ isName ((pieces.getD 0 []).map UInt16.toNat) ∧ 1 ≤ port ∧ port ≤ 65535

namespace ProfileImport

def quic : Text := txt "quic"

def https : Text := txt "https"

def awg : Text := txt "awg"

/-- `ProfileImport.transports`. -/
def transports (p : JSONObject) : Except Exception (List Text) := do
  if p.optInt "version" 0 = 1 then .ok [quic, https]
  else
    let items ← p.getJSONArray "transports"
    require (items ≠ [] ∧ items.length ≤ 3 ∧ VpnRoutes.distinct items = items ∧
      ∀ t ∈ items, t ∈ [quic, https, awg]) (txt "Некорректный список протоколов")
    .ok items

/-- The local function `endpoint` of `validate`. -/
def endpoint (P : Platform) (p : JSONObject) (key : String) : Except Exception Unit := do
  let value ← p.getString key
  require (isEndpoint P value) (txt ("Неверный адрес " ++ key))

/-- `Mobile.validateAWGConfig`. -/
def validateAWGConfig (P : Platform) (raw : Text) : Except Exception Unit :=
  match Awg.parse (P.encode raw) with
  | .error e => .error (.go e)
  | .ok _ => .ok ()

/-- The checks of `validate` for an echo profile. -/
def validateEcho (P : Platform) (p : JSONObject) : Except Exception Unit := do
  endpoint P p "endpoint"
  whenever (!P.isBlank (p.optString "https" [])) (endpoint P p "https")
  require (!p.has "key" ∧ !p.has "certificate") (txt "Echo не должен содержать ключи")
  require (p.optString "pin" [] = [] ∨ isFingerprint (p.optString "pin" []))
    (txt "Некорректный fingerprint")

/-- The certificate and the key are there, and short. -/
def shortIdentity (p : JSONObject) : Except Exception Bool := do
  let certificate ← p.getString "certificate"
  if certificate.length < 16000 then
    let key ← p.getString "key"
    .ok (key.length < 8000)
  else .ok false

/-- The checks of `validate` for a VPN profile. -/
def validateVPN (P : Platform) (p : JSONObject) : Except Exception Unit := do
  let allowed ← transports p
  whenever (!P.isBlank (p.optString "transit_endpoint" [])) (endpoint P p "transit_endpoint")
  whenever (quic ∈ allowed) (endpoint P p "quic")
  whenever (https ∈ allowed) (endpoint P p "https")
  whenever (awg ∈ allowed) do
    let raw ← p.getString "awg_config"
    validateAWGConfig P raw
  require (p.optInt "mode" 0 = 0 ∨ p.optInt "mode" 0 = 3) (txt "Неподдерживаемый режим")
  whenever (p.optInt "mode" 0 = 3) do
    let routes ← p.getString "routes"
    let _ ← VpnRoutes.parse P routes
    .ok ()
  let _ ← VpnRoutes.parse P (p.optString "dns" (txt "1.1.1.1") ++ txt "/32")
  whenever (∃ t ∈ allowed, t ≠ awg) do
    let short ← shortIdentity p
    require (short = true) (txt "Слишком большой сертификат")

/-- `ProfileImport.validate`; the check of a capture profile, which is made by Go
    code, is given. -/
def validate (P : Platform) (validateDebugCapture : JSONObject → Option Error) (p : JSONObject) :
    Except Exception Text := do
  let version ← p.getInt "version"
  require (version = 1 ∨ version = 2) (txt "Неподдерживаемая версия профиля")
  let kind ← p.getString "kind"
  if kind = txt "capture" then
    match validateDebugCapture p with
    | some e => .error (.go e)
    | none => .ok kind
  else
    require (kind = txt "echo" ∨ kind = txt "vpn") (txt "Неизвестный профиль")
    let hostname ← p.getString "hostname"
    require (isName (hostname.map UInt16.toNat)) (txt "Некорректное TLS имя")
    (if kind = txt "echo" then validateEcho P p else validateVPN P p)
    .ok kind

end ProfileImport

end QuicLab.Android

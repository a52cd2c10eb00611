import FastPki.Ca.Trust
import FastPki.Framework.Json
import FastPki.Framework.Routine
import FastPki.Profile.CertProfile
import FastPki.Rbac.Users

namespace FastPki.Backup
open X509 Certs Ca Rbac Rbac.Users

/-- A whole row of `roles`. -/
structure RoleEntry extends RoleRow where
  description : String
  builtin : Bool
  deriving DecidableEq

/-- A whole row of `subject_roles`. -/
structure Binding extends SubjectRole where
  created : Int
  deriving DecidableEq

structure MsTemplate where
  name : String
  oid : String
  schema : Int := 1
  enroll : Bool := true
  autoEnroll : Bool := false
  validityDays : Int := 730
  minKeySize : Int := 2048
  keySpec : Int := 0
  keyUsage : Nat := 0xA000
  majorRev : Int := 1
  minorRev : Int := 0
  privateKeyFlags : Int := 0x10
  subjectNameFlags : Int := 0x9
  enrollmentFlags : Int := -1
  generalFlags : Int := -1
  pkOid : String := "1.2.840.113549.1.1.1"
  pkName : String := "RSA"
  hashOid : String := "2.16.840.1.101.3.4.2.1"
  hashName : String := "sha256"
  cryptoProviders : List String := []
  ekus : List String := []
  enabled : Bool := true
  privateKeyPermissions : String := ""
  overlapSeconds : Int := -1
  deriving DecidableEq

/-- A row of `ms_templates`: flags are numbers, a list is one text, and some texts may be NULL. -/
structure MsTemplateRow where
  name : String
  oid : String
  schema : Int
  enroll : Int
  autoEnroll : Int
  validityDays : Int
  minKeySize : Int
  keySpec : Int
  keyUsage : Int
  majorRev : Int
  minorRev : Int
  privateKeyFlags : Int
  subjectNameFlags : Int
  enrollmentFlags : Int
  generalFlags : Int
  pkOid : Option String
  pkName : Option String
  hashOid : Option String
  hashName : Option String
  cryptoProviders : Option String
  ekus : Option String
  enabled : Int
  privateKeyPermissions : Option String
  overlapSeconds : Int

structure NotifyTemplate where
  name : String
  subject : String
  line : String
  body : String

/-- The two columns of a CA row that only its console pages use, as they are read. -/
structure CaLabel where
  name : String
  msEnrollPermission : Bool

/-- The tables that a backup is made of. `labels` is by serial, `insSeq` is the next insertion
number. -/
structure ConfigDb where
  config : List (String × String)
  webUsers : List Account
  certs : Inventory
  labels : String → CaLabel
  insSeq : Int
  roles : List RoleEntry
  rolePermissions : List RoleGrant
  subjectRoles : List Binding
  msTemplates : List MsTemplateRow
  certProfiles : List (String × String)
  notifyTemplates : List NotifyTemplate

/-- What OpenSSL reads from a certificate. -/
structure ParsedCert extends X509Cert where
  notBefore : Int
  notAfter : Int
  sHash : Octets
  iHash : Octets

/-- The libraries: `loadCaCertPem` gives the encoding of the first certificate of a text, and `dump`
takes the indentation, which is negative for the compact form. -/
structure Library where
  x509 : Octets → Option ParsedCert
  loadCaCertPem : String → Option Octets
  parse : String → Except String Json
  dump : Int → Json → String

def Library.d2i (lib : Library) (der : Octets) : Option X509Cert := (lib.x509 der).map ParsedCert.toX509Cert

section List

def joinPipe (v : List String) : String := "|".intercalate v

/-- Empty parts are dropped. -/
def splitPipe (s : String) : List String :=
  ((s.toList.splitOn '|').filter (· ≠ [])).map String.ofList

/-- An empty column leaves the default. -/
def orDefault (column : Option String) (default : String) : String :=
  if column.getD "" = "" then default else column.getD ""

def readTemplate (r : MsTemplateRow) : MsTemplate where
  name := r.name
  oid := r.oid
  schema := r.schema
  enroll := r.enroll ≠ 0
  autoEnroll := r.autoEnroll ≠ 0
  validityDays := r.validityDays
  minKeySize := r.minKeySize
  keySpec := r.keySpec
  keyUsage := (r.keyUsage%2^32).toNat
  majorRev := r.majorRev
  minorRev := r.minorRev
  privateKeyFlags := r.privateKeyFlags
  subjectNameFlags := r.subjectNameFlags
  enrollmentFlags := r.enrollmentFlags
  generalFlags := r.generalFlags
  pkOid := orDefault r.pkOid "1.2.840.113549.1.1.1"
  pkName := orDefault r.pkName "RSA"
  hashOid := orDefault r.hashOid "2.16.840.1.101.3.4.2.1"
  hashName := orDefault r.hashName "sha256"
  cryptoProviders := splitPipe (r.cryptoProviders.getD "")
  ekus := splitPipe (r.ekus.getD "")
  enabled := r.enabled ≠ 0
  privateKeyPermissions := r.privateKeyPermissions.getD ""
  overlapSeconds := r.overlapSeconds

/-- The members that are integers of 32 bits. -/
def MsTemplate.ints (t : MsTemplate) : List Int :=
  [t.schema,t.validityDays,t.minKeySize,t.keySpec,t.majorRev,t.minorRev,t.privateKeyFlags,
    t.subjectNameFlags,t.enrollmentFlags,t.generalFlags]

def writeTemplate (t : MsTemplate) : MsTemplateRow where
  name := t.name
  oid := t.oid
  schema := t.schema
  enroll := t.enroll.toNat
  autoEnroll := t.autoEnroll.toNat
  validityDays := t.validityDays
  minKeySize := t.minKeySize
  keySpec := t.keySpec
  keyUsage := t.keyUsage
  majorRev := t.majorRev
  minorRev := t.minorRev
  privateKeyFlags := t.privateKeyFlags
  subjectNameFlags := t.subjectNameFlags
  enrollmentFlags := t.enrollmentFlags
  generalFlags := t.generalFlags
  pkOid := some t.pkOid
  pkName := some t.pkName
  hashOid := some t.hashOid
  hashName := some t.hashName
  cryptoProviders := some (joinPipe t.cryptoProviders)
  ekus := some (joinPipe t.ekus)
  enabled := t.enabled.toNat
  privateKeyPermissions := some t.privateKeyPermissions
  overlapSeconds := t.overlapSeconds

def listWebUsers (db : ConfigDb) : List Account := orderBy Account.username db.webUsers

def listRoles (db : ConfigDb) : List RoleEntry := orderBy (fun r => r.name) db.roles

def listRoleGrants (db : ConfigDb) (role : String) : List RoleGrant :=
  orderBy (fun g => toLex (g.permission,g.scope)) (Rbac.listRoleGrants db.rolePermissions role)

def listSubjectRoles (db : ConfigDb) : List Binding :=
  orderBy (fun b => toLex (b.selectorType,toLex (b.selectorValue,b.role))) db.subjectRoles

/-- With the disabled ones. -/
def listMsTemplates (db : ConfigDb) : List MsTemplate := (orderBy MsTemplateRow.name db.msTemplates).map readTemplate

def listCertProfiles (db : ConfigDb) : List (String × String) := orderBy Prod.fst db.certProfiles

end List

section Build

/-- Marks of the processes of this node do not travel. -/
def isMarker (key : String) : Bool :=
  key.toList.length > 11 ∧ ("_STARTED_AT".toList.isSuffixOf key.toList ∨
    "_RESTART_AT".toList.isSuffixOf key.toList)

def configJson (db : ConfigDb) : Json :=
  .object ((db.config.filter fun c => !isMarker c.1).map fun c => (c.1,.str c.2))

def userJson (u : Account) : Json :=
  .object [("username",.str u.username),("role",.str u.role),("hash",.str u.hash),
    ("must_reset",.bool u.mustReset),("auth_provider",.str u.authProvider),("email",.str u.email)]

/-- The certificate as text; a NULL is the empty one. -/
def caPem (cert : Octets) : String := if cert = [] then "" else String.ofList (pem cert)

def caJson (now : Int) (db : ConfigDb) (ci : String × Row) : Json :=
  let c := readCa now ci.1 ci.2
  .object [("serial",.str c.serial),("id",.str c.id),("name",.str (db.labels c.serial).name),
    ("parent_id",.str (parentId db.certs c.id)),("status",.str c.status),
    ("signing_ca_pem",.str (caPem c.cert)),("signing_ca_key",.str c.signingCaKey),
    ("created",.int (ci.2.notBefore.getD 0)),
    ("ms_enroll_permission",.bool (db.labels c.serial).msEnrollPermission)]

def grantJson (g : RoleGrant) : Json :=
  .object [("permission",.str g.permission),("scope",.str g.scope)]

/-- A limit that is not set is not written. -/
def limitJson (name : String) (limit : Option Int) : List (String × Json) :=
  limit.toList.map fun n => (name,.int n)

def roleJson (db : ConfigDb) (r : RoleEntry) : Json :=
  .object ([("name",.str r.name),("description",.str r.description),("builtin",.bool r.builtin),
    ("grants",.arr ((listRoleGrants db r.name).map grantJson))]++
    limitJson "max_certs" r.maxCerts++limitJson "max_cn" r.maxCn++limitJson "max_san" r.maxSan)

def bindingJson (b : Binding) : Json :=
  .object [("selector_type",.str b.selectorType),("selector_value",.str b.selectorValue),
    ("role",.str b.role),("created",.int b.created)]

def templateJson (t : MsTemplate) : Json :=
  .object [("name",.str t.name),("oid",.str t.oid),("schema",.int t.schema),
    ("enroll",.bool t.enroll),("auto_enroll",.bool t.autoEnroll),
    ("validity_days",.int t.validityDays),("min_key_size",.int t.minKeySize),
    ("key_spec",.int t.keySpec),("key_usage",.int t.keyUsage),
    ("major_rev",.int t.majorRev),("minor_rev",.int t.minorRev),
    ("private_key_flags",.int t.privateKeyFlags),("subject_name_flags",.int t.subjectNameFlags),
    ("enrollment_flags",.int t.enrollmentFlags),("general_flags",.int t.generalFlags),
    ("pk_oid",.str t.pkOid),("pk_name",.str t.pkName),("hash_oid",.str t.hashOid),
    ("hash_name",.str t.hashName),("crypto_providers",.arr (t.cryptoProviders.map .str)),
    ("ekus",.arr (t.ekus.map .str)),("enabled",.bool t.enabled),
    ("private_key_permissions",.str t.privateKeyPermissions),
    ("overlap_seconds",.int t.overlapSeconds)]

variable (lib : Library)

/-- The profiles whose definition can be read. -/
def storedCertProfiles (db : ConfigDb) : Json :=
  .object ((listCertProfiles db).filterMap fun p => (lib.parse p.2).toOption.map (p.1,·))

def storedCertProfilesJson (db : ConfigDb) : String := lib.dump (-1) (storedCertProfiles lib db)

def expiryTemplateName : String := "expiry"

def notifyJson (db : ConfigDb) : List (String × Json) :=
  ((lookup NotifyTemplate.name expiryTemplateName db.notifyTemplates).toList).map fun t =>
    ("notify_templates",.object [(expiryTemplateName,
      .object [("subject",.str t.subject),("line",.str t.line),("body",.str t.body)])])

def document (now : Int) (db : ConfigDb) (profiles : Json) : Json :=
  .object ([("fastpki_backup",.int 1),("created",.int now),("config",configJson db),
    ("web_users",.arr ((listWebUsers db).map userJson)),
    ("ca_instances",.arr ((listCaInstances db.certs).map (caJson now db))),
    ("roles",.arr ((listRoles db).map (roleJson db))),
    ("subject_roles",.arr ((listSubjectRoles db).map bindingJson)),
    ("ms_templates",.arr ((listMsTemplates db).map templateJson)),
    ("cert_profiles",profiles)]++notifyJson db)

/-- `build_config_backup`; the error is the one of reading the profiles back. -/
def buildConfigBackup (now : Int) (db : ConfigDb) : Except String String :=
  (lib.parse (storedCertProfilesJson lib db)).map fun profiles => lib.dump 2 (document now db profiles)

end Build

section Restore

/-- The database, with what has been counted so far. -/
structure Restoring where
  db : ConfigDb
  nCfg : Nat := 0
  nUsr : Nat := 0
  nCa : Nat := 0
  nRl : Nat := 0
  nSr : Nat := 0
  nMt : Nat := 0
  nPf : Nat := 0

/-- How a restore fails: with an error of its own, or with an exception of a library. -/
inductive Thrown where
  | error (e : Error)
  | library

/-- A step that needs what `read` finds, and throws where that throws. -/
def reading {α : Type} (read : Option α) (step : α → Restoring → Restoring) : Routine Restoring := fun st =>
  match read with
  | none => (false,st)
  | some x => (true,step x st)

def setConfig (c : String × String) (st : Restoring) : Restoring :=
  { st with db := { st.db with config := upsert Prod.fst c st.db.config }
            nCfg := st.nCfg+1 }

def readUser (u : Json) : Option Account := do
  let username ← u.value Json.getStr "username" ""
  let role ← u.value Json.getStr "role" ""
  let hash ← u.value Json.getStr "hash" ""
  let mustReset ← u.value Json.getBool "must_reset" false
  let authProvider ← u.value Json.getStr "auth_provider" ""
  let email ← u.value Json.getStr "email" ""
  return ⟨username,role,hash,mustReset,0,authProvider,email⟩

def upsertWebUser (u : Account) (table : List Account) : List Account :=
  upsert Account.key ((lookup Account.key u.key table).elim u (onConflict · u)) table

def setWebUserEmail (u : Account) (table : List Account) : List Account :=
  table.map fun a => if a.key = u.key then { a with email := u.email } else a

def restoreUser (u : Account) (st : Restoring) : Restoring :=
  if u.username = "" then st
  else { st with db := { st.db with webUsers := setWebUserEmail u (upsertWebUser u st.db.webUsers) }
                 nUsr := st.nUsr+1 }

/-- A CA as a backup names it. -/
structure CaEntry where
  serial : String
  id : String
  name : String
  status : String
  signingCaPem : String
  signingCaKey : String
  created : Int
  msEnrollPermission : Bool

def readCaEntry (c : Json) : Option CaEntry := do
  let serial ← c.value Json.getStr "serial" ""
  let id ← c.value Json.getStr "id" ""
  let name ← c.value Json.getStr "name" ""
  let status ← c.value Json.getStr "status" "active"
  let signingCaPem ← c.value Json.getStr "signing_ca_pem" ""
  let signingCaKey ← c.value Json.getStr "signing_ca_key" ""
  let created ← c.value Json.getInt64 "created" 0
  let msEnrollPermission ← c.value Json.getBool "ms_enroll_permission" true
  return ⟨serial,id,name,status,signingCaPem,signingCaKey,created,msEnrollPermission⟩

/-- The row that `insert_cert` makes from the certificate of a backup. -/
def recreatedRow (ca : CaEntry) (der : Octets) (x : ParsedCert) (insSeq : Int) : Row where
  status := some 0
  revocationReason := some 0
  revocationDate := some 0
  notAfter := some x.notAfter
  serial := ca.serial
  notBefore := some x.notBefore
  owner := ""
  cert := der
  caInstanceId := some ca.id
  sHash := some x.sHash
  iHash := some x.iHash
  isCa := x.checkCa
  id := some ca.id
  caEnabled := none
  privateKey := ca.signingCaKey
  certId := none
  insSeq := some insSeq

variable (lib : Library)

/-- The row of the CA's certificate, where it is missing and can be made. -/
def recreate (ca : CaEntry) (db : ConfigDb) : ConfigDb :=
  if ca.serial = "" ∨ ca.signingCaPem = "" ∨ (db.certs.getCert ca.serial).isSome then db
  else
    match (lib.loadCaCertPem ca.signingCaPem).bind fun der => (lib.x509 der).map (der,·) with
    | none => db
    | some (der,x) =>
      match db.certs.insertCert (recreatedRow ca der x db.insSeq) with
      | none => db
      | some certs => { db with certs := certs, insSeq := db.insSeq+1 }

def setCaInstanceStatus (certs : Inventory) (id status : String) : Inventory :=
  certs.update (fun r => r.isCa ∧ r.id = some id)
    (fun r => { r with caEnabled := some (status ≠ "disabled") }) fun _ => rfl

/-- What `add_ca_instance` takes from the entry. -/
def CaEntry.instance (ca : CaEntry) : CaInstance where
  serial := ca.serial
  id := ca.id
  status := ca.status
  cert := []
  signingCaKey := ca.signingCaKey
  revoked := false
  expired := false
  onHold := false

def restoreCa (ca : CaEntry) (st : Restoring) : Restoring :=
  if ca.id = "" then st
  else
    let db := recreate lib ca st.db
    match addCaInstance db.certs ca.instance with
    | some certs =>
      { st with db := { db with certs := certs
                                labels := Function.update db.labels ca.serial ⟨ca.name,ca.msEnrollPermission⟩ }
                nCa := st.nCa+1 }
    | none => { st with db := { db with certs := setCaInstanceStatus db.certs ca.id ca.status } }

/-- A limit that is not named stays unset. -/
def readLimit (r : Json) (name : String) : Option (Option Int) :=
  if r.contains name then (r.value Json.getInt name 0).map some else some none

def readGrant (role : String) (g : Json) : Option RoleGrant := do
  let permission ← g.value Json.getStr "permission" ""
  let scope ← g.value Json.getStr "scope" "*"
  return ⟨role,permission,scope⟩

/-- The row alone. -/
def readRole (name : String) (r : Json) : Option RoleEntry := do
  let description ← r.value Json.getStr "description" ""
  let builtin ← r.value Json.getBool "builtin" false
  let maxCerts ← readLimit r "max_certs"
  let maxCn ← readLimit r "max_cn"
  let maxSan ← readLimit r "max_san"
  return ⟨⟨name,maxCerts,maxCn,maxSan⟩,description,builtin⟩

def readGrants (role : String) (r : Json) : Option (List RoleGrant) := do
  let grants ← r.value some "grants" (.arr [])
  grants.elements.mapM (readGrant role)

/-- `upsert_role`: whether a role is built in is not settable. -/
def upsertRole (x : RoleEntry) (roles : List RoleEntry) : List RoleEntry :=
  let builtin := (lookup (fun r => r.name) x.name roles).elim false RoleEntry.builtin
  upsert (fun r => r.name) { x with builtin := builtin } roles

def restoreRoleRow (x : RoleEntry) (st : Restoring) : Restoring :=
  { st with db := { st.db with roles := upsertRole x st.db.roles } }

def restoreGrants (role : String) (grants : List RoleGrant) (st : Restoring) : Restoring :=
  { st with db := { st.db with rolePermissions := Rbac.setRoleGrants role grants st.db.rolePermissions }
            nRl := st.nRl+1 }

/-- The row is written before the grants are read. -/
def restoreRole (r : Json) : Routine Restoring := fun st =>
  match r.value Json.getStr "name" "" with
  | none => (false,st)
  | some name =>
    if name = "" then (true,st)
    else (reading (readRole name r) restoreRoleRow).andThen
      (reading (readGrants name r) (restoreGrants name)) st

def readBinding (s : Json) : Option Binding := do
  let selectorType ← s.value Json.getStr "selector_type" ""
  let selectorValue ← s.value Json.getStr "selector_value" ""
  let role ← s.value Json.getStr "role" ""
  let created ← s.value Json.getInt64 "created" 0
  return ⟨⟨selectorType,selectorValue,role⟩,created⟩

/-- A binding that is there stays, with its date. -/
def addSubjectRole (b : Binding) (table : List Binding) : List Binding :=
  insertNew Binding.toSubjectRole b table

def restoreBinding (b : Binding) (st : Restoring) : Restoring :=
  if b.selectorValue = "" ∨ b.role = "" then st
  else { st with db := { st.db with subjectRoles := addSubjectRole b st.db.subjectRoles }
                 nSr := st.nSr+1 }

def readTemplateJson (m : Json) : Option MsTemplate := do
  let t : MsTemplate := { name := "", oid := "" }
  let name ← m.value Json.getStr "name" ""
  let oid ← m.value Json.getStr "oid" ""
  let schema ← m.value Json.getInt "schema" t.schema
  let enroll ← m.value Json.getBool "enroll" t.enroll
  let autoEnroll ← m.value Json.getBool "auto_enroll" t.autoEnroll
  let validityDays ← m.value Json.getInt "validity_days" t.validityDays
  let minKeySize ← m.value Json.getInt "min_key_size" t.minKeySize
  let keySpec ← m.value Json.getInt "key_spec" t.keySpec
  let keyUsage ← m.value Json.getUnsigned "key_usage" t.keyUsage
  let majorRev ← m.value Json.getInt "major_rev" t.majorRev
  let minorRev ← m.value Json.getInt "minor_rev" t.minorRev
  let privateKeyFlags ← m.value Json.getInt "private_key_flags" t.privateKeyFlags
  let subjectNameFlags ← m.value Json.getInt "subject_name_flags" t.subjectNameFlags
  let enrollmentFlags ← m.value Json.getInt "enrollment_flags" t.enrollmentFlags
  let generalFlags ← m.value Json.getInt "general_flags" t.generalFlags
  let pkOid ← m.value Json.getStr "pk_oid" t.pkOid
  let pkName ← m.value Json.getStr "pk_name" t.pkName
  let hashOid ← m.value Json.getStr "hash_oid" t.hashOid
  let hashName ← m.value Json.getStr "hash_name" t.hashName
  let cryptoProviders ← m.value Json.getStrings "crypto_providers" []
  let ekus ← m.value Json.getStrings "ekus" []
  let privateKeyPermissions ← m.value Json.getStr "private_key_permissions" ""
  let overlapSeconds ← m.value Json.getInt64 "overlap_seconds" t.overlapSeconds
  let enabled ← m.value Json.getBool "enabled" true
  return ⟨name,oid,schema,enroll,autoEnroll,validityDays,minKeySize,keySpec,keyUsage,majorRev,minorRev,
    privateKeyFlags,subjectNameFlags,enrollmentFlags,generalFlags,pkOid,pkName,hashOid,hashName,
    cryptoProviders,ekus,enabled,privateKeyPermissions,overlapSeconds⟩

def upsertMsTemplate (t : MsTemplate) (table : List MsTemplateRow) : List MsTemplateRow :=
  upsert MsTemplateRow.name (writeTemplate t) table

def restoreTemplate (t : MsTemplate) (st : Restoring) : Restoring :=
  if t.name = "" then st
  else { st with db := { st.db with msTemplates := upsertMsTemplate t st.db.msTemplates }
                 nMt := st.nMt+1 }

/-- Whether the list of requested attributes is taken; an entry without a readable `oid` throws. -/
def csrAttrsLoad : Json → Bool
  | .arr l => l.all fun e => !e.isObject || (e.value Json.getStr "oid" "").isSome
  | _ => true

def customExtsLoad : Json → Bool
  | .arr l => l.all fun e => !e.isObject || ((e.value Json.getStr "oid" "").isSome &&
      (e.value Json.getStr "value" "").isSome && (e.value Json.getBool "critical" false).isSome)
  | _ => true

/-- Whether a definition is taken as a profile. The lists of names in it never throw. -/
def definitionLoads (p : Json) : Bool :=
  p.isObject &&
    ["allow_wildcard","device_serial_san","manage_aia","manage_crldp","no_override_subject","allow_ca"].all
      (fun name => (p.value Json.getBool name false).isSome) &&
    ["max_validity_days","validity_days","max_path_len"].all
      (fun name => (p.value Json.getInt name 0).isSome) &&
    (p.find "csr_attrs").all csrAttrsLoad && (p.find "custom_extensions").all customExtsLoad

/-- `install_cert_profiles_json` into settings that are then dropped: whether it returns. -/
def installCertProfilesJson (text : String) : Bool :=
  text = "" || (lib.parse text).toOption.any fun j => j.isObject && j.items.all fun m => definitionLoads m.2

def storeProfile (p : String × Json) (st : Restoring) : Restoring :=
  { st with db := { st.db with certProfiles := upsert Prod.fst (p.1,lib.dump (-1) p.2) st.db.certProfiles }
            nPf := st.nPf+1 }

/-- A definition is stored only once it has been taken. -/
def restoreProfile (p : String × Json) : Routine Restoring := fun st =>
  if installCertProfilesJson lib (lib.dump (-1) (.obj [p])) then (true,storeProfile lib p st)
  else (false,st)

def readNotify (p : String × Json) : Option NotifyTemplate := do
  let subject ← p.2.value Json.getStr "subject" ""
  let line ← p.2.value Json.getStr "line" ""
  let body ← p.2.value Json.getStr "body" ""
  return ⟨p.1,subject,line,body⟩

def upsertNotifyTemplate (t : NotifyTemplate) (st : Restoring) : Restoring :=
  { st with db := { st.db with notifyTemplates := upsert NotifyTemplate.name t st.db.notifyTemplates } }

/-- The section of this name; one that is missing has nothing to go through. -/
def part (b : Json) (name : String) : Json := (b.find name).getD .null

/-- What `items()` goes through where only an object is looked at. -/
def objectItems (j : Json) : List (String × Json) := if j.isObject then j.items else []

/-- Every section in its turn, up to the first exception. -/
def restoreSections (b : Json) : Routine Restoring := .each [
  .each ((part b "config").items.map fun c => reading (c.2.getStr.map (c.1,·)) setConfig),
  .each ((part b "web_users").elements.map fun u => reading (readUser u) restoreUser),
  .each ((part b "ca_instances").elements.map fun c => reading (readCaEntry c) (restoreCa lib)),
  .each ((part b "roles").elements.map restoreRole),
  .each ((part b "subject_roles").elements.map fun s => reading (readBinding s) restoreBinding),
  .each ((part b "ms_templates").elements.map fun m => reading (readTemplateJson m) restoreTemplate),
  .each ((objectItems (part b "cert_profiles")).map (restoreProfile lib)),
  .each (((objectItems (part b "notify_templates")).filter fun p => p.2.isObject).map
    fun p => reading (readNotify p) upsertNotifyTemplate)]

def report (st : Restoring) : String :=
  "restored: "++toString st.nCfg++" config key(s), "++toString st.nUsr++" user(s), "++
  toString st.nCa++" CA instance(s), "++toString st.nRl++" role(s), "++toString st.nSr++
  " role assignment(s), "++toString st.nMt++" template(s), "++toString st.nPf++" profile(s)"

/-- `restore_config_backup`; what was written before an exception stays. -/
def restoreConfigBackup (db : ConfigDb) (jsonText : String) : ConfigDb × Except Thrown String :=
  match lib.parse jsonText with
  | .error what => (db,.error (.error ⟨1,"bad backup JSON: "++what⟩))
  | .ok b =>
    if !b.contains "fastpki_backup" then (db,.error (.error ⟨1,"not a fastpki backup file"⟩))
    else
      let r := restoreSections lib b { db := db }
      (r.2.db,if r.1 then .ok (report r.2) else .error .library)

end Restore

end FastPki.Backup

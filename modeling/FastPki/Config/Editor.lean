import FastPki.Config.Render
import FastPki.Framework.Run

namespace FastPki.Config

open X509

/-! The settings that the console keeps over those of its file, and the requests that edit them. -/

def kUnsetPrefix : Octets := octets "__UNSET__"

/-- Where it is noted that a setting was taken back. -/
def configUnsetKey (k : Octets) : Octets := kUnsetPrefix++k

inductive Stmt where
  | set (k v : Octets)
  | delete (k : Octets)

/-- A parameter of a statement is a C string. -/
def Stmt.apply (t : Settings) : Stmt → Settings
  | .set k v => t.insert (cString k) (cString v)
  | .delete k => t.erase (cString k)

def setConfig (k v : Octets) : List Stmt := [.set k v,.delete (configUnsetKey k)]

def unsetConfig (k : Octets) : List Stmt := [.delete k,.set (configUnsetKey k) (octets "1")]

def execute (stmts : List Stmt) (t : Settings) : Settings := stmts.foldl Stmt.apply t

/-- What a request meets: whether the console may write, the time the file on disk has if it was
changed since it was read, how many statements the database takes before one of them fails, and what
it says then. -/
structure Env where
  webAllowRevoke : Bool
  confPath : Octets
  confMtimeAtLoad : Int
  drift : Int
  answered : Nat
  failure : Octets

inductive Reply where
  | refused (status : Nat) (error : Octets)
  | saved (set unset : Nat)
  | changed
  deriving DecidableEq

def writesDisabled : Octets := octets "console writes disabled (set WEB_ALLOW_REVOKE=true)"

/-- The statements one after the other, until one of them fails. -/
def attempt (env : Env) (stmts : List Stmt) (done : Reply) (t : Settings) : Reply × Settings :=
  (if env.answered < stmts.length then .refused 500 env.failure else done,
    execute (stmts.take env.answered) t)

/-- The keys of the stored text that are gone from the edited one are unset too. -/
def deletions (now prev : List Octets) (overlay : Settings) (unset : List Octets) : List Octets :=
  prev.foldl (fun u k =>
    if !now.contains k ∧ (overlay.find k).isSome ∧ !u.contains k ∧ isFileEditorExcludedKey k = false ∧
      isBootstrapConfigKey k = false then u++[k] else u) unset

section Handlers

variable (probe : Octets → Octets → Option Octets) (base : List CfgItem)

def fileEdit (text : Octets) (overlay : Settings) : Except Octets CfgFileEdit := do
  let e ← parseConfigFile probe text (valuesOf base) overlay
  match overlay.find kConfigFileKey with
  | none => .ok e
  | some prev => .ok { e with
      unset := deletions (configFileKeys text) (configFileKeys prev) overlay e.unset }

def saveStatements (text : Octets) (e : CfgFileEdit) : List Stmt :=
  e.set.entries.flatMap (fun kv => setConfig kv.1 kv.2)++e.unset.flatMap unsetConfig++
    [.set kConfigFileKey (maskConfigFileSecrets text)]

/-- `PUT /api/config/file` -/
def putConfigFile (env : Env) (text : Octets) (force : Bool) (t : Settings) : Reply × Settings :=
  if env.webAllowRevoke = false then (.refused 403 writesDisabled,t)
  else if env.drift ≠ 0 ∧ force = false then
    (.refused 409 (env.confPath++octets " changed on disk after this console loaded it (file "++
      Decimal.text env.drift++octets " > loaded "++Decimal.text env.confMtimeAtLoad++
      octets "). Saving now would write the older values back over it. "++
      octets "Restart fastpki-web to pick the file up, or re-send with force=true to "++
      octets "overwrite it deliberately."),t)
  else match fileEdit probe base text t with
    | .error err => (.refused 400 err,t)
    | .ok e => attempt env (saveStatements text e) (.saved e.set.entries.length e.unset.length) t

/-- `PUT /api/config/db` -/
def putConfigDb (env : Env) (key val : Octets) (t : Settings) : Reply × Settings :=
  if env.webAllowRevoke = false then (.refused 403 writesDisabled,t)
  else if key = [] then (.refused 400 (octets "missing key"),t)
  else if isBootstrapConfigKey key then
    (.refused 400 (octets "bootstrap key must stay in bootstrap.conf"),t)
  else if validateConfigValue probe key val ≠ [] then
    (.refused 400 (validateConfigValue probe key val),t)
  else attempt env (setConfig key val) .changed t

/-- `DELETE /api/config/db` -/
def deleteConfigDb (env : Env) (key : Octets) (t : Settings) : Reply × Settings :=
  if env.webAllowRevoke = false then (.refused 403 writesDisabled,t)
  else if key = [] then (.refused 400 (octets "missing key"),t)
  else attempt env (unsetConfig key) .changed t

/-- `GET /api/config/file`, where `live` is the catalog of the settings in force. -/
def getConfigFile (live : List CfgItem) (t : Settings) : Octets :=
  match t.find kConfigFileKey with
  | none => configFileText live base
  | some stored => if stored = [] then configFileText live base else refreshConfigFile stored live

end Handlers

section Save

/-- A key that notes that another was taken back. -/
def Tombstone (k : Octets) : Prop := kUnsetPrefix<+:k

theorem tombstone_configUnsetKey (k : Octets) : Tombstone (configUnsetKey k) :=
  List.prefix_append kUnsetPrefix k

theorem ne_configUnsetKey {k : Octets} (h : ¬Tombstone k) (j : Octets) : k≠configUnsetKey j := by
  rintro rfl
  exact h (tombstone_configUnsetKey j)

theorem not_tombstone_kConfigFileKey : ¬Tombstone kConfigFileKey := by
  rw [Tombstone]
  decide

theorem execute_append (ss us : List Stmt) (t : Settings) :
    execute (ss++us) t=execute us (execute ss t) := List.foldl_append

theorem cString_configUnsetKey (k : Octets) : cString (configUnsetKey k)=configUnsetKey (cString k) :=
  cString_append_of_notMem (by decide) k

theorem find_setConfig {k : Octets} (h : ¬Tombstone k) (j v : Octets) (t : Settings) :
    (execute (setConfig j v) t).find k=if k=cString j then some (cString v) else t.find k := by
  simp [execute,setConfig,Stmt.apply,cString_configUnsetKey,ne_configUnsetKey h]

theorem find_unsetConfig {k : Octets} (h : ¬Tombstone k) (j : Octets) (t : Settings) :
    (execute (unsetConfig j) t).find k=if k=cString j then none else t.find k := by
  simp [execute,unsetConfig,Stmt.apply,cString_configUnsetKey,ne_configUnsetKey h]

theorem find_sets {k : Octets} (h : ¬Tombstone k) (m t : Settings)
    (hplain : ∀ kv∈m.entries,0∉kv.1 ∧ 0∉kv.2) :
    (execute (m.entries.flatMap fun kv => setConfig kv.1 kv.2) t).find k=
      (m.find k).or (t.find k) := by
  obtain ⟨es,hsorted⟩ := m
  induction es generalizing t with
  | nil => rfl
  | cons a es ih =>
    obtain ⟨⟨hkey,hval⟩,hrest⟩ := List.forall_mem_cons.mp hplain
    have hlater := ih (execute (setConfig a.1 a.2) t) hsorted.of_cons hrest
    rw [find_setConfig h,cString_eq_self_iff.mpr hkey,cString_eq_self_iff.mpr hval] at hlater
    rw [List.flatMap_cons,execute_append,hlater,OrderedMap.find_cons]
    by_cases hk : k=a.1
    · rw [if_pos hk,if_pos hk,hk,OrderedMap.find_tail hsorted]
      rfl
    · rw [if_neg hk,if_neg hk]

theorem find_unsets {k : Octets} (h : ¬Tombstone k) (us : List Octets) (t : Settings)
    (hplain : ∀ u∈us,0∉u) :
    (execute (us.flatMap unsetConfig) t).find k=if k∈us then none else t.find k := by
  induction us generalizing t with
  | nil => rfl
  | cons u us ih =>
    obtain ⟨hu,hrest⟩ := List.forall_mem_cons.mp hplain
    rw [List.flatMap_cons,execute_append,ih _ hrest,find_unsetConfig h,cString_eq_self_iff.mpr hu]
    by_cases hk : k=u <;> by_cases hmem : k∈us <;> simp [hk,hmem]

/-- The last statement of a save. -/
theorem execute_storeText {text : Octets} (h : 0∉text) (t : Settings) :
    execute [.set kConfigFileKey (maskConfigFileSecrets text)] t=
      t.insert kConfigFileKey (maskConfigFileSecrets text) := by
  have hkey : cString kConfigFileKey=kConfigFileKey := by decide
  have htext := cString_eq_self_iff.mpr (zero_notMem_maskConfigFileSecrets h)
  rw [execute,List.foldl_cons,List.foldl_nil,Stmt.apply,hkey,htext]

/-- What is edited goes to the database whole. -/
def CfgFileEdit.Plain (e : CfgFileEdit) : Prop :=
  (∀ kv∈e.set.entries,0∉kv.1 ∧ 0∉kv.2) ∧ ∀ k∈e.unset,0∉k

/-- What a save leaves under a key. -/
theorem find_saveStatements {k : Octets} (h : ¬Tombstone k) {text : Octets} (htext : 0∉text)
    {e : CfgFileEdit} (he : e.Plain) (t : Settings) :
    (execute (saveStatements text e) t).find k=
      if k=kConfigFileKey then some (maskConfigFileSecrets text)
      else if k∈e.unset then none else (e.set.find k).or (t.find k) := by
  rw [saveStatements,execute_append,execute_append]
  rw [execute_storeText htext,OrderedMap.find_insert,find_unsets h _ _ he.2,find_sets h _ _ he.1]
  split_ifs <;> rfl

theorem mem_deletions {now prev unset : List Octets} {overlay : Settings} {k : Octets} :
    k∈deletions now prev overlay unset ↔ k∈unset ∨ (k∈prev ∧ k∉now ∧ (overlay.find k).isSome ∧
      isFileEditorExcludedKey k=false ∧ isBootstrapConfigKey k=false) := by
  rw [deletions]
  induction prev generalizing unset with
  | nil => simp
  | cons a prev ih =>
    rw [List.foldl_cons,ih]
    split_ifs with ha
    · grind
    · grind

/-- The keys of the text that is stored. -/
def storedKeys (t : Settings) : List Octets := ((t.find kConfigFileKey).map configFileKeys).getD []

/-- What an edited text makes of a setting that has a place in it. -/
def edited (base t : Settings) (text k : Octets) : Option Octets :=
  match stated (fileLines text) k with
  | some v => if keeps k v then t.find k else if base.find k = some v then none else some v
  | none =>
    if (base.find k).isSome ∨ (storedKeys t).contains k ∧ isBootstrapConfigKey k = false then none
    else t.find k

variable {probe : Octets → Octets → Option Octets} {base : List CfgItem} {text : Octets}
  {t : Settings} {e : CfgFileEdit}

/-- The edit of a text, key by key. -/
theorem parseConfigFile_spec {b : Settings} (h : parseConfigFile probe text b t=.ok e) {k : Octets}
    (hk : k≠kConfigFileKey) :
    e.set.find k=(stated (fileLines text) k).filter (fun v =>
      !keeps k v && b.find k ≠ some v && t.find k ≠ some v) ∧
    (k∈e.unset ↔ (t.find k).isSome=true ∧
      ((∃ v,stated (fileLines text) k=some v ∧ keeps k v=false ∧ b.find k=some v) ∨
        stated (fileLines text) k=none ∧ (b.find k).isSome=true)) := by
  obtain ⟨w,hw,hrest⟩ := bind_eq_ok_iff.mp h
  have hfind := want_find hw k
  have hex : isFileEditorExcludedKey k=false := by simpa [isFileEditorExcludedKey] using hk
  rw [hex,if_neg Bool.false_ne_true,OrderedMap.find_empty,Option.or_none] at hfind
  cases Except.ok.inj hrest
  simp only [OrderedMap.find_filter,hfind,List.mem_append,OrderedMap.mem_keys_iff,true_and]
  cases hs : stated (fileLines text) k with
  | none => cases ht : t.find k <;> simp [hex,Option.filter]
  | some v => cases ht : t.find k <;> simp [Option.filter]

theorem fileEdit_cases (h : fileEdit probe base text t=.ok e) :
    ∃ e',parseConfigFile probe text (valuesOf base) t=.ok e' ∧ e.set=e'.set ∧
      ∀ k,k∈e.unset ↔ k∈e'.unset ∨ (k∈storedKeys t ∧ k∉configFileKeys text ∧
        (t.find k).isSome=true ∧ isFileEditorExcludedKey k=false ∧ isBootstrapConfigKey k=false) := by
  obtain ⟨e',hparse,hrest⟩ := bind_eq_ok_iff.mp h
  refine ⟨e',hparse,?_⟩
  cases hstored : t.find kConfigFileKey with
  | none =>
    simp only [hstored] at hrest
    cases Except.ok.inj hrest
    exact ⟨rfl,fun k => by simp [storedKeys,hstored]⟩
  | some prev =>
    simp only [hstored] at hrest
    cases Except.ok.inj hrest
    refine ⟨rfl,fun k => ?_⟩
    rw [mem_deletions,storedKeys,hstored]
    rfl

/-- The key of the stored text is in no edit. -/
theorem parseConfigFile_excluded {b : Settings} (h : parseConfigFile probe text b t=.ok e) :
    e.set.find kConfigFileKey=none ∧ kConfigFileKey∉e.unset := by
  obtain ⟨w,hw,hrest⟩ := bind_eq_ok_iff.mp h
  have hex : isFileEditorExcludedKey kConfigFileKey=true := by decide
  have hfind := want_find hw kConfigFileKey
  rw [if_pos hex,OrderedMap.find_empty] at hfind
  cases Except.ok.inj hrest
  simp only [OrderedMap.find_filter,hfind,List.mem_append,OrderedMap.mem_keys_iff,hex]
  cases t.find kConfigFileKey <;> simp [Option.filter]

/-- The texts of a table of the database have no NUL. -/
def Stored (t : Settings) : Prop := ∀ k v,t.find k=some v → 0∉k ∧ 0∉v

theorem stored_empty : Stored .empty := by
  intro k v h
  cases h

theorem Stored.insert {t : Settings} (h : Stored t) {k v : Octets} (hk : 0∉k) (hv : 0∉v) :
    Stored (t.insert k v) := by
  intro j u hfind
  rw [OrderedMap.find_insert] at hfind
  split_ifs at hfind with hj
  · cases hfind
    exact ⟨hj ▸ hk,hv⟩
  · exact h j u hfind

theorem Stored.execute {stmts : List Stmt} {t : Settings} (h : Stored t) :
    Stored (execute stmts t) := by
  induction stmts generalizing t with
  | nil => exact h
  | cons s stmts ih =>
    apply ih
    cases s with
    | set j u => exact h.insert (zero_notMem_cString j) (zero_notMem_cString u)
    | delete j =>
      intro k v hfind
      rw [Stmt.apply,OrderedMap.find_erase] at hfind
      split_ifs at hfind with hk
      exact h k v hfind

/-- A key that an edit sets is one of a line that was accepted. -/
theorem parseConfigFile_set {b : Settings} (h : parseConfigFile probe text b t=.ok e) {k v : Octets}
    (hfind : e.set.find k=some v) :
    k≠kConfigFileKey ∧ 0∉k ∧ stated (fileLines text) k=some v := by
  have hk : k≠kConfigFileKey := by
    rintro rfl
    rw [(parseConfigFile_excluded h).1] at hfind
    cases hfind
  rw [(parseConfigFile_spec h hk).1] at hfind
  have hstated := (Option.filter_eq_some_iff.mp hfind).1
  obtain ⟨w,hw,-⟩ := bind_eq_ok_iff.mp h
  exact ⟨hk,zero_notMem_of_stated (want_ok_iff.mp ⟨w,hw⟩) hstated,hstated⟩

/-- A text without NUL is edited in as it stands. -/
theorem fileEdit_plain (h : fileEdit probe base text t=.ok e) (htext : 0∉text) (ht : Stored t) :
    e.Plain := by
  obtain ⟨e',hparse,hset,hunset⟩ := fileEdit_cases h
  constructor
  · rintro ⟨k,v⟩ hmem
    have hfind := OrderedMap.mem_entries_iff.mp hmem
    rw [hset] at hfind
    obtain ⟨-,hkey,hstated⟩ := parseConfigFile_set hparse hfind
    obtain ⟨l,hl,-,rfl⟩ := exists_of_stated hstated
    refine ⟨hkey,fun hzero => htext ?_⟩
    exact mem_of_mem_fileLines hl (mem_of_mem_settingValue hzero)
  · intro k hmem
    have hsome : (t.find k).isSome=true := by
      obtain hmem|⟨-,-,hsome,-⟩ := (hunset k).mp hmem
      · have hk : k≠kConfigFileKey := by
          rintro rfl
          exact (parseConfigFile_excluded hparse).2 hmem
        exact ((parseConfigFile_spec hparse hk).2.mp hmem).1
      · exact hsome
    obtain ⟨v,hv⟩ := Option.isSome_iff_exists.mp hsome
    exact (ht k v hv).1

theorem fileEdit_spec (h : fileEdit probe base text t=.ok e) {k : Octets} (hk : k≠kConfigFileKey) :
    (if k∈e.unset then none else (e.set.find k).or (t.find k))=edited (valuesOf base) t text k := by
  obtain ⟨e',hparse,hset,hunset⟩ := fileEdit_cases h
  obtain ⟨hfind,hmem⟩ := parseConfigFile_spec hparse hk
  have hex : isFileEditorExcludedKey k=false := by simpa [isFileEditorExcludedKey] using hk
  simp only [hset,hfind,hunset,hmem,mem_configFileKeys_iff,edited,hex]
  cases hs : stated (fileLines text) k with
  | none =>
    cases ht : t.find k with
    | none => simp
    | some old => by_cases hb : ((valuesOf base).find k).isSome=true <;> simp [hb]
  | some v =>
    by_cases hkeep : keeps k v=true
    · simp [hkeep,Option.filter]
    by_cases hb : (valuesOf base).find k=some v
    · cases ht : t.find k <;> simp [hkeep,hb,Option.filter]
    · by_cases ht : t.find k=some v
      · simp [hkeep,hb,ht,Option.filter]
      · simp [hkeep,hb,ht,Option.filter]

/-- A save that went through executed all its statements. -/
theorem putConfigFile_saved {env : Env} {force : Bool} {n m : Nat} {t' : Settings}
    (h : putConfigFile probe base env text force t=(.saved n m,t')) :
    env.webAllowRevoke=true ∧ (env.drift=0 ∨ force=true) ∧ ∃ e,fileEdit probe base text t=.ok e ∧
      (saveStatements text e).length ≤ env.answered ∧ n=e.set.entries.length ∧
      m=e.unset.length ∧ t'=execute (saveStatements text e) t := by
  rw [putConfigFile] at h
  split_ifs at h with hwrites hdrift
  · cases congrArg Prod.fst h
  · cases congrArg Prod.fst h
  split at h
  · cases congrArg Prod.fst h
  · next e he =>
    rw [attempt] at h
    obtain ⟨hreply,rfl⟩ := Prod.mk.inj h
    split_ifs at hreply with hlt
    obtain ⟨rfl,rfl⟩ := Reply.saved.inj hreply
    refine ⟨by simpa using hwrites,?_,e,he,not_lt.mp hlt,rfl,rfl,?_⟩
    · by_contra hno
      obtain ⟨hd,hf⟩ := not_or.mp hno
      exact hdrift ⟨hd,by simpa using hf⟩
    · rw [List.take_of_length_le (not_lt.mp hlt)]

theorem find_of_saved {env : Env} {force : Bool} {n m : Nat} {t' : Settings} (htext : 0∉text)
    (ht : Stored t) (h : putConfigFile probe base env text force t=(.saved n m,t')) :
    t'.find kConfigFileKey=some (maskConfigFileSecrets text) ∧
    ∀ k,k≠kConfigFileKey → ¬Tombstone k → t'.find k=edited (valuesOf base) t text k := by
  obtain ⟨-,-,e,he,-,-,-,rfl⟩ := putConfigFile_saved h
  have hplain := fileEdit_plain he htext ht
  refine ⟨?_,fun k hk htomb => ?_⟩
  · rw [find_saveStatements not_tombstone_kConfigFileKey htext hplain,if_pos rfl]
  · rw [find_saveStatements htomb htext hplain,if_neg hk]
    exact fileEdit_spec he hk

/-- After a save each setting is what the text says of it. A value that the catalog shows without
overrides is not stored, and a secret left at its mask keeps what it had. Where the text has no line for a setting, the
override goes if the text could have had one, by the catalog or in the stored text; any other key is
left alone. -/
theorem config_file_save_spec (probe : Octets → Octets → Option Octets) (base : List CfgItem)
    (env : Env) (text : Octets) (force : Bool) (t t' : Settings) (n m : Nat)
    (hnul : 0∉text) (ht : Stored t)
    (h : putConfigFile probe base env text force t=(.saved n m,t')) (k : Octets)
    (hk : k≠kConfigFileKey) (htomb : ¬Tombstone k) :
    (∀ v,stated (fileLines text) k=some v → keeps k v=false →
      (t'.find k).or ((valuesOf base).find k)=some v ∧
      ((t'.find k).isSome=true ↔ (valuesOf base).find k≠some v)) ∧
    (∀ v,stated (fileLines text) k=some v → keeps k v=true → t'.find k=t.find k) ∧
    (stated (fileLines text) k=none →
      ((valuesOf base).find k).isSome=true ∨ k∈storedKeys t ∧ isBootstrapConfigKey k=false →
      t'.find k=none) ∧
    (stated (fileLines text) k=none →
      (valuesOf base).find k=none → k∉storedKeys t → t'.find k=t.find k) := by
  have hfind := (find_of_saved hnul ht h).2 k hk htomb
  rw [edited] at hfind
  refine ⟨fun v hs hkeep => ?_,fun v hs hkeep => ?_,fun hs hplace => ?_,fun hs hbase hstored => ?_⟩
  · simp only [hs,hkeep,Bool.false_eq_true,if_false] at hfind
    by_cases hb : (valuesOf base).find k=some v
    · simp [hfind,hb]
    · simp [hfind,hb]
  · simpa only [hs,hkeep,if_true] using hfind
  · simpa only [hs,List.contains_iff_mem,if_pos hplace] using hfind
  · simp only [hs] at hfind
    rwa [if_neg (by simp [hbase,hstored])] at hfind

/-- The port is changed, and the switch of another service stays off. -/
theorem config_file_save_spec_port :
    let saved := putConfigFile (fun _ _ => none) [⟨octets "EST",octets "EST_PORT",octets "8443"⟩]
      ⟨true,[],0,0,9,[]⟩ (octets "EST_PORT=443\n") false
      (OrderedMap.empty.insert (octets "ACME_ENABLED") (octets "false"))
    saved.1=.saved 1 0 ∧ saved.2.find (octets "ACME_ENABLED")=some (octets "false") := by
  intro saved
  have hsaved : saved.1=.saved 1 0 := by decide +kernel
  have hstored : Stored (OrderedMap.empty.insert (octets "ACME_ENABLED") (octets "false")) :=
    stored_empty.insert (by decide +kernel) (by decide +kernel)
  have hspec := config_file_save_spec _ _ _ _ _ _ _ _ _ (by decide +kernel) hstored
    (Prod.ext hsaved rfl : saved=(_,saved.2))
    (octets "ACME_ENABLED") (by decide) (by rw [Tombstone]; decide)
  refine ⟨hsaved,(hspec.2.2.2 ?_ ?_ ?_).trans ?_⟩
  all_goals decide +kernel

/-- The stored text is accepted where the text was, and masks are. -/
theorem want_maskLine {ls : List Octets} {w : Settings} (h : want probe ls .empty=.ok w)
    (hmask : ∀ l∈ls,isSecretConfigKey (configFileLineKey l)=true →
      validateConfigValue probe (configFileLineKey l) mask=[]) :
    ∃ w',want probe (ls.map maskLine) .empty=.ok w' := by
  have hlines := want_ok_iff.mp ⟨w,h⟩
  refine want_ok_iff.mpr fun m hm => ?_
  obtain ⟨l,hl,rfl⟩ := List.mem_map.mp hm
  obtain ⟨r,hr⟩ := hlines l hl
  obtain ⟨hkey,hvalue⟩ := maskLine_key_value l
  obtain ⟨hs,-⟩|⟨hne,hset,-⟩ := parseLine_ok hr
  · have hid : maskLine l=l := if_neg fun hno => hno.1 hs.key
    rw [hid]
    exact ⟨none,hs.parse⟩
  · refine ⟨_,parseLine_settable (by rwa [hkey]) ?_⟩
    rw [hkey,hvalue hne]
    refine ⟨hset.chars,hset.notBootstrap,fun hex => ?_⟩
    rw [maskedValue]
    split_ifs with hsecret
    · exact hmask l hl hsecret.1
    · exact hset.valid hex

theorem not_tombstone_of_stated {ls : List Octets} (h : ∀ l∈ls,¬Tombstone (configFileLineKey l))
    {k : Octets} (hs : stated ls k≠none) : ¬Tombstone k := by
  by_cases hk : k=[]
  · rw [hk,stated_nil_key] at hs
    exact absurd rfl hs
  · rw [ne_eq,stated_eq_none_iff hk] at hs
    push Not at hs
    obtain ⟨l,hl,rfl⟩ := hs
    exact h l hl

/-- A key that has a value in the catalog is one of its keys. -/
theorem not_tombstone_of_valuesOf (hnodup : (base.map CfgItem.key).Nodup)
    (h : ∀ it∈base,¬Tombstone it.key) {k : Octets} (hk : ((valuesOf base).find k).isSome=true) :
    ¬Tombstone k := by
  obtain ⟨v,hv⟩ := Option.isSome_iff_exists.mp hk
  obtain ⟨it,hit,rfl,-⟩ := (valuesOf_find hnodup).mp hv
  exact h it hit

theorem edit_of_settled {t' : Settings} (hstored : t'.find kConfigFileKey=some (maskConfigFileSecrets text))
    (hfind : ∀ k,k≠kConfigFileKey → ¬Tombstone k → t'.find k=edited (valuesOf base) t text k)
    (htidy : Tidy (fileLines text)) (htext : ∀ l∈fileLines text,¬Tombstone (configFileLineKey l))
    (hnodup : (base.map CfgItem.key).Nodup) (hbase : ∀ it∈base,¬Tombstone it.key)
    (h : fileEdit probe base (maskConfigFileSecrets text) t'=.ok e) :
    e.set.entries=[] ∧ e.unset=[] := by
  obtain ⟨e',hparse,hset,hunset⟩ := fileEdit_cases h
  have hlines := fileLines_maskConfigFileSecrets htidy
  have hstated : ∀ k v,stated ((fileLines text).map maskLine) k=some v → keeps k v=false →
      stated (fileLines text) k=some v := by
    intro k v hs hkeep
    rw [stated_maskLine] at hs
    obtain ⟨u,hu,rfl⟩ := Option.map_eq_some_iff.mp hs
    rw [maskedValue] at hkeep ⊢
    split_ifs at hkeep ⊢ with hsecret
    · simp [keeps,hsecret.1] at hkeep
    · exact hu
  constructor
  · rw [OrderedMap.entries_eq_nil_iff,hset]
    intro k
    by_cases hk : k=kConfigFileKey
    · rw [hk,(parseConfigFile_excluded hparse).1]
    rw [(parseConfigFile_spec hparse hk).1,hlines,Option.filter_eq_none_iff]
    intro v hs hcond
    simp only [Bool.and_eq_true,Bool.not_eq_true',decide_eq_true_eq] at hcond
    obtain ⟨⟨hkeep,hb⟩,hold⟩ := hcond
    have hu := hstated k v hs hkeep
    have htomb := not_tombstone_of_stated htext (hu ▸ Option.some_ne_none v)
    apply hold
    rw [hfind k hk htomb,edited,hu]
    simp [hkeep,hb]
  · rw [List.eq_nil_iff_forall_not_mem]
    intro k hmem
    obtain hmem|⟨hkeys,hno,-⟩ := (hunset k).mp hmem
    · have hk : k≠kConfigFileKey := by
        rintro rfl
        exact (parseConfigFile_excluded hparse).2 hmem
      obtain ⟨hsome,⟨v,hs,hkeep,hb⟩|⟨hs,hb⟩⟩ := (parseConfigFile_spec hparse hk).2.mp hmem
      · have hu := hstated k v (hlines ▸ hs) hkeep
        have htomb := not_tombstone_of_stated htext (hu ▸ Option.some_ne_none v)
        rw [hfind k hk htomb,edited,hu] at hsome
        simp [hkeep,hb] at hsome
      · have htomb := not_tombstone_of_valuesOf hnodup hbase hb
        rw [hlines,stated_maskLine,Option.map_eq_none_iff] at hs
        rw [hfind k hk htomb,edited,hs] at hsome
        simp [hb] at hsome
    · -- the stored text is the one that is saved again
      rw [storedKeys,hstored] at hkeys
      exact hno hkeys

/-- A save leaves nothing to do for the text it stores: saved again it sets nothing, unsets nothing,
and leaves everything as it is. -/
theorem config_file_save_settles (probe : Octets → Octets → Option Octets) (base : List CfgItem)
    (env : Env) (text : Octets) (force : Bool) (t t' : Settings) (n m : Nat)
    (hnul : 0∉text) (ht : Stored t)
    (h : putConfigFile probe base env text force t=(.saved n m,t'))
    (htidy : Tidy (fileLines text))
    (hmask : ∀ l∈fileLines text,isSecretConfigKey (configFileLineKey l)=true →
      validateConfigValue probe (configFileLineKey l) mask=[])
    (htext : ∀ l∈fileLines text,¬Tombstone (configFileLineKey l))
    (hbase : Showable base) (hkeys : ∀ it∈base,¬Tombstone it.key) :
    putConfigFile probe base env (maskConfigFileSecrets text) force t'=(.saved 0 0,t') := by
  obtain ⟨hstored,hfind⟩ := find_of_saved hnul ht h
  obtain ⟨hwrites,hdrift,e,he,hanswered,-,-,-⟩ := putConfigFile_saved h
  have hone : 1 ≤ env.answered := by
    refine le_trans ?_ hanswered
    rw [saveStatements,List.length_append]
    exact Nat.le_add_left 1 _
  obtain ⟨e',hparse,-⟩ := fileEdit_cases he
  obtain ⟨w,hw,-⟩ := bind_eq_ok_iff.mp hparse
  obtain ⟨w',hw'⟩ := want_maskLine hw hmask
  obtain ⟨e2,he2⟩ : ∃ e2,fileEdit probe base (maskConfigFileSecrets text) t'=.ok e2 := by
    rw [fileEdit,parseConfigFile,fileLines_maskConfigFileSecrets htidy,hw',hstored]
    exact ⟨_,rfl⟩
  obtain ⟨hset,hunset⟩ := edit_of_settled hstored hfind htidy htext hbase.nodup hkeys he2
  have hstmts : saveStatements (maskConfigFileSecrets text) e2=
      [.set kConfigFileKey (maskConfigFileSecrets text)] := by
    rw [saveStatements,hset,hunset,maskConfigFileSecrets_idem htidy]
    rfl
  have hsame : execute [.set kConfigFileKey (maskConfigFileSecrets text)] t'=t' := by
    rw [execute_storeText hnul]
    exact OrderedMap.insert_of_find hstored
  have hguard : ¬(env.drift≠0 ∧ force=false) := by
    rintro ⟨hd,hf⟩
    obtain hzero|hforce := hdrift
    · exact hd hzero
    · exact absurd hf (by simp [hforce])
  rw [putConfigFile,hwrites,if_neg (by simp),if_neg hguard,he2]
  simp only [attempt,hstmts,hset,hunset,List.length_singleton,List.length_nil]
  rw [if_neg (by omega),List.take_of_length_le (by simpa using hone),hsame]

/-- A new token and a new port are settled with the save. -/
theorem config_file_save_settles_token :
    let probe := fun _ _ : Octets => (none : Option Octets)
    let base : List CfgItem := [⟨octets "EST",octets "EST_PORT",octets "8443"⟩]
    let text := octets "EST_PORT=443\nWEB_TOKEN=abc\n"
    let saved := putConfigFile probe base ⟨true,[],0,0,9,[]⟩ text false .empty
    saved.1=.saved 2 0 ∧ putConfigFile probe base ⟨true,[],0,0,9,[]⟩ (maskConfigFileSecrets text)
      false saved.2=(.saved 0 0,saved.2) := by
  intro probe base text saved
  have hsaved : saved.1=.saved 2 0 := by decide +kernel
  have hlines : fileLines text=[octets "EST_PORT=443",octets "WEB_TOKEN=abc"] := by decide +kernel
  have hkeys : ∀ l∈fileLines text,¬kUnsetPrefix<+:configFileLineKey l := by
    rw [hlines]
    decide +kernel
  refine ⟨hsaved,config_file_save_settles probe base _ text false _ _ _ _ (by decide +kernel)
    stored_empty (Prod.ext hsaved rfl : saved=(_,saved.2)) ?_ ?_ hkeys ⟨?_,?_,?_,?_⟩ ?_⟩
  · rw [hlines]
    exact (by decide +kernel : ∀ l∈[octets "EST_PORT=443",octets "WEB_TOKEN=abc"],
      newline∉l ∧ l.getLast?≠some carriageReturn)
  · rw [hlines]
    decide +kernel
  · decide +kernel
  · decide +kernel
  · decide +kernel
  · decide +kernel
  · exact (by decide +kernel : ∀ it∈base,¬kUnsetPrefix<+:it.key)

/-- The lines of the text that is stored. -/
def storedLines (t : Settings) : List Octets := ((t.find kConfigFileKey).map fileLines).getD []

theorem getConfigFile_shows {live : List CfgItem} (hlive : Showable live) (hbase : Showable base)
    (htidy : Tidy (storedLines t)) :
    ShowsOver live (getConfigFile base live t) (storedLines t) := by
  rw [getConfigFile]
  cases hstored : t.find kConfigFileKey with
  | none =>
    rw [storedLines,hstored]
    exact configFileText_shows hlive hbase
  | some stored =>
    rw [storedLines,hstored,Option.map_some,Option.getD_some] at htidy ⊢
    simp only
    split_ifs with hnil
    · rw [hnil]
      exact configFileText_shows hlive hbase
    · exact refreshConfigFile_shows hlive htidy

end Save

section Runs

/-- The requests that edit the settings. -/
inductive Request where
  | putFile (text : Octets) (force : Bool)
  | putDb (key val : Octets)
  | deleteDb (key : Octets)

def step (probe : Octets → Octets → Option Octets) (base : List CfgItem) (t : Settings)
    (r : Env × Request) : Settings :=
  match r.2 with
  | .putFile text force => (putConfigFile probe base r.1 text force t).2
  | .putDb key val => (putConfigDb probe r.1 key val t).2
  | .deleteDb key => (deleteConfigDb r.1 key t).2

variable {probe : Octets → Octets → Option Octets} {base : List CfgItem}

theorem Stored.step {t : Settings} (h : Stored t) (r : Env × Request) :
    Stored (step probe base t r) := by
  obtain ⟨env,r⟩ := r
  cases r with
  | putFile text force =>
    simp only [Config.step,putConfigFile]
    split_ifs
    · exact h
    · exact h
    · split
      · exact h
      · exact h.execute
  | putDb key val =>
    simp only [Config.step,putConfigDb]
    split_ifs
    · exact h
    · exact h
    · exact h
    · exact h
    · exact h.execute
  | deleteDb key =>
    simp only [Config.step,deleteConfigDb]
    split_ifs
    · exact h
    · exact h
    · exact h.execute

/-- No request brings a NUL into the table. -/
theorem stored_run {t : Settings} (h : Stored t) (reqs : List (Env × Request)) :
    Stored (run (step probe base) t reqs) :=
  run_invariant (fun _ r ht => ht.step r) h reqs

/-- The stored text is masked. -/
def StoredMasked (t : Settings) : Prop := ∀ text,t.find kConfigFileKey=some text → MaskedText text

/-- A statement that does not store an unmasked text. -/
def Stmt.Masks : Stmt → Prop
  | .set k v => cString k=kConfigFileKey → MaskedText (cString v)
  | .delete _ => True

theorem execute_masked {stmts : List Stmt} (h : ∀ s∈stmts,s.Masks) {t : Settings}
    (ht : StoredMasked t) : StoredMasked (execute stmts t) := by
  induction stmts generalizing t with
  | nil => exact ht
  | cons s stmts ih =>
    refine ih (fun u hu => h u (List.mem_cons_of_mem s hu)) fun text hfind => ?_
    have hs := h s List.mem_cons_self
    cases s with
    | set k v =>
      rw [Stmt.apply,OrderedMap.find_insert] at hfind
      split_ifs at hfind with hk
      · cases hfind
        exact hs hk.symm
      · exact ht text hfind
    | delete k =>
      rw [Stmt.apply,OrderedMap.find_erase] at hfind
      split_ifs at hfind with hk
      exact ht text hfind

theorem attempt_masked {stmts : List Stmt} (h : ∀ s∈stmts,s.Masks) {t : Settings}
    (ht : StoredMasked t) (env : Env) (done : Reply) : StoredMasked (attempt env stmts done t).2 :=
  execute_masked (fun s hs => h s (List.mem_of_mem_take hs)) ht

theorem setConfig_masks {k : Octets} (hk : cString k≠kConfigFileKey) (v : Octets) :
    ∀ s∈setConfig k v,s.Masks := by
  intro s hs
  rw [setConfig,List.mem_cons,List.mem_singleton] at hs
  obtain rfl|rfl := hs
  · exact fun heq => absurd heq hk
  · trivial

theorem unsetConfig_masks (k : Octets) : ∀ s∈unsetConfig k,s.Masks := by
  intro s hs
  rw [unsetConfig,List.mem_cons,List.mem_singleton] at hs
  obtain rfl|rfl := hs
  · trivial
  · intro heq
    rw [cString_configUnsetKey] at heq
    exact absurd heq.symm (ne_configUnsetKey not_tombstone_kConfigFileKey _)

theorem saveStatements_masks {text : Octets} {t : Settings} {e : CfgFileEdit}
    (h : fileEdit probe base text t=.ok e) : ∀ s∈saveStatements text e,s.Masks := by
  obtain ⟨e',hparse,hset,-⟩ := fileEdit_cases h
  intro s hs
  rw [saveStatements,List.mem_append,List.mem_append,List.mem_flatMap,List.mem_flatMap,
    List.mem_singleton] at hs
  obtain (⟨⟨k,v⟩,hmem,hs⟩|⟨k,-,hs⟩)|rfl := hs
  · have hfind := OrderedMap.mem_entries_iff.mp hmem
    rw [hset] at hfind
    obtain ⟨hk,hzero,-⟩ := parseConfigFile_set hparse hfind
    refine setConfig_masks ?_ v s hs
    rwa [cString_eq_self_iff.mpr hzero]
  · exact unsetConfig_masks k s hs
  · exact fun _ => maskedText_cString text

theorem step_masked {t : Settings} (ht : StoredMasked t) {r : Env × Request}
    (hr : ∀ k v,r.2=.putDb k v → cString k≠kConfigFileKey) : StoredMasked (step probe base t r) := by
  obtain ⟨env,r⟩ := r
  cases r with
  | putFile text force =>
    simp only [step,putConfigFile]
    split_ifs
    · exact ht
    · exact ht
    · split
      · exact ht
      · next e he => exact attempt_masked (saveStatements_masks he) ht env _
  | putDb key val =>
    have hk : cString key≠kConfigFileKey := hr key val rfl
    simp only [step,putConfigDb]
    split_ifs
    · exact ht
    · exact ht
    · exact ht
    · exact ht
    · exact attempt_masked (setConfig_masks hk val) ht env _
  | deleteDb key =>
    simp only [step,deleteConfigDb]
    split_ifs
    · exact ht
    · exact ht
    · exact attempt_masked (unsetConfig_masks key) ht env _

/-- Whatever is typed into the editor and wherever the database fails, the text that is stored shows
of a secret at most that it is set, as long as nobody writes that text as a setting of its own. -/
theorem config_text_without_secrets (probe : Octets → Octets → Option Octets)
    (base : List CfgItem) (t : Settings) (ht : StoredMasked t) (reqs : List (Env × Request))
    (hreqs : ∀ r∈reqs,∀ k v,r.2=.putDb k v → cString k≠kConfigFileKey) :
    StoredMasked (run (step probe base) t reqs) := by
  induction reqs generalizing t with
  | nil => exact ht
  | cons r reqs ih =>
    rw [run_cons]
    exact ih _ (step_masked ht (hreqs r List.mem_cons_self))
      fun r' hr' => hreqs r' (List.mem_cons_of_mem r hr')

/-- A token is typed, and the database fails before the text is stored; then it is typed again. -/
theorem config_text_without_secrets_token :
    let text := octets "WEB_TOKEN=abc\n"
    let t := run (step (fun _ _ => none) []) .empty
      [(⟨true,[],0,0,1,[]⟩,.putFile text false),(⟨true,[],0,0,9,[]⟩,.putFile text false)]
    t.find kConfigFileKey=some (octets "WEB_TOKEN=(set)\n") ∧
      MaskedText (octets "WEB_TOKEN=(set)\n") := by
  intro text t
  have hstored : t.find kConfigFileKey=some (octets "WEB_TOKEN=(set)\n") := by decide +kernel
  have hmasked := config_text_without_secrets (fun _ _ => none) [] .empty nofun
    [(⟨true,[],0,0,1,[]⟩,.putFile text false),(⟨true,[],0,0,9,[]⟩,.putFile text false)] (by simp)
  exact ⟨hstored,hmasked _ hstored⟩

end Runs

end FastPki.Config

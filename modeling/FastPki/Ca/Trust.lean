import FastPki.Ca.Chain
import FastPki.Ca.Renew
import FastPki.Framework.Base64
import FastPki.Framework.Run
import Mathlib.Data.Finset.Card
import Mathlib.Data.List.Dedup

namespace FastPki.Ca
open X509 Certs

def isSpace (c : Char) : Bool := c ∈ [' ','\t','\n','\x0b','\x0c','\r']

def trimChars (s : List Char) : List Char := ((s.dropWhile isSpace).reverse.dropWhile isSpace).reverse

/-- `split_csv`: a piece between two commas is left out when it is empty before it is trimmed. -/
def splitCsv (s : String) : List String :=
  ((s.toList.splitOn ',').filter (· ≠ [])).map fun piece => String.ofList (trimChars piece)

/-- What the walk over the issuers reads of a CA. -/
structure CaView where
  revoked : Bool
  parent : String
  cert : Octets
  deriving DecidableEq

def pemHeader : List Char := "-----BEGIN CERTIFICATE-----\n".toList

def pemFooter : List Char := "\n-----END CERTIFICATE-----\n".toList

/-- The PEM text of `kCaSelect`: Postgres writes base64 in lines of 76. -/
def pem (der : Octets) : List Char := pemHeader++wrapLines 76 76 (base64 der)++pemFooter

section Trust

variable (d2i : Octets → Option X509Cert)

/-- The CA rows as `insert_cert` files them: a certificate that is one of a CA, stored once, under a
number that is written in letters and digits. -/
structure Filed (db : Inventory) : Prop where
  stored : ∀ r,Registered db r → r.cert≠[]
  isCa : ∀ r,Registered db r → (d2i r.cert).any X509Cert.checkCa=true
  once : ∀ r r',Registered db r → Registered db r' → r.cert=r'.cert → r=r'
  serial : ∀ r,Registered db r → ∀ c∈r.serial.toList,c.isAlphanum=true

/-- What the refresher finds: the time, the CA rows and its two settings. -/
structure Snapshot where
  now : Int
  db : Inventory
  filed : Filed d2i db
  clientCaId : String
  clientCaBundle : String

variable {d2i}

/-- `ca_cert_der_for`: the newest live certificate, else the one of the newest row. -/
def caCertDerFor (s : Snapshot d2i) (id : String) (ci : CaInstance) : Octets :=
  (((getCaCertDer s.now s.db id).filter fun r =>
    r.cert ≠ [] ∧ (d2i r.cert).any X509Cert.checkCa).map Row.cert).getD
    (if (d2i ci.cert).isSome then ci.cert else [])

def viewOf (s : Snapshot d2i) (id : String) : Option CaView :=
  (getCaInstance s.now s.db id).map fun ci => ⟨ci.revoked,parentId s.db id,caCertDerFor s id ci⟩

variable (d2i) in
/-- A CA that is not revoked and has a certificate is an anchor. -/
def anchorOf (v : CaView) : Option X509Cert :=
  if v.revoked ∨ v.cert = [] then none else d2i v.cert

variable (d2i) in
/-- The walk up the issuers: the CAs that are looked at, with the certificates that are added. -/
def climb (view : String → Option CaView) : Nat → List String → String → List (String × Option Octets)
  | 0,_,_ => []
  | n+1,seen,parent =>
    if parent = "" ∨ parent ∈ seen then []
    else match view parent with
      | none => [(parent,none)]
      | some v =>
        match anchorOf d2i v with
        | none => [(parent,none)]
        | some c =>
          (parent,some v.cert)::if c.selfSigned then [] else climb view n (parent::seen) v.parent

/-- No walk is longer than there are CAs. -/
def depth (s : Snapshot d2i) : Nat := (caIds s.db).length+1

def walkOf (s : Snapshot d2i) (id parent : String) : List (String × Option Octets) :=
  climb d2i (viewOf s) (depth s) [id] parent

/-- The anchors for one of the CAs that are named. -/
def namedAnchors (s : Snapshot d2i) (id : String) : List Octets :=
  match viewOf s id with
  | none => []
  | some v => (anchorOf d2i v).elim [] fun _ => v.cert::(walkOf s id v.parent).filterMap Prod.snd

variable (loadCertsPem : String → List Octets)

/-- The certificates of the store, in the order they are added. -/
def buildClientTrustStore (s : Snapshot d2i) : List Octets :=
  (splitCsv s.clientCaId).flatMap (namedAnchors s)++loadCertsPem s.clientCaBundle

def pemPart (ci : CaInstance) : List Char := if ci.cert = [] then [] else pem ci.cert

def sigPart (s : Snapshot d2i) (id : String) : List Char :=
  match getCaInstance s.now s.db id with
  | none => []
  | some ci =>
    match getCaCertDer s.now s.db id with
    | none => pemPart ci
    | some r => if r.cert = [] then pemPart ci else r.serial.toList

def clientAnchorSig (s : Snapshot d2i) : List Char :=
  s.clientCaBundle.toList++(splitCsv s.clientCaId).flatMap fun id =>
    '\x1e'::id.toList++ '='::sigPart s id

end Trust

/-- Texts between separators are read back, when none of them holds the separator. -/
theorem append_separated_inj {α : Type*} {sep : α} {p q x y : List α} (hp : sep∉p) (hq : sep∉q)
    (hx : x=[] ∨ ∃ t,x=sep::t) (hy : y=[] ∨ ∃ t,y=sep::t) (h : p++x=q++y) : p=q ∧ x=y := by
  induction p generalizing q with
  | nil =>
    cases q with
    | nil => exact ⟨rfl,h⟩
    | cons c q =>
      obtain rfl|⟨t,rfl⟩ := hx
      · cases h
      · have hc : sep=c := (List.cons.inj h).1
        exact absurd (hc ▸ List.mem_cons_self) hq
  | cons c p ih =>
    cases q with
    | nil =>
      obtain rfl|⟨t,rfl⟩ := hy
      · cases h
      · have hc : c=sep := (List.cons.inj h).1
        exact absurd (hc ▸ List.mem_cons_self) hp
    | cons c' q =>
      obtain ⟨rfl,htail⟩ := List.cons.inj h
      obtain ⟨rfl,hrest⟩ := ih (fun hm => hp (List.mem_cons_of_mem _ hm))
        (fun hm => hq (List.mem_cons_of_mem _ hm)) htail
      exact ⟨rfl,hrest⟩

/-- Under the same names the signature tells the parts apart. -/
theorem parts_eq_of_flatMap {ids : List String} {f g : String → List Char}
    (hf : ∀ id∈ids,'\x1e'∉f id) (hg : ∀ id∈ids,'\x1e'∉g id)
    (h : (ids.flatMap fun id => '\x1e'::id.toList++ '='::f id)=
      ids.flatMap fun id => '\x1e'::id.toList++ '='::g id) : ∀ id∈ids,f id=g id := by
  induction ids with
  | nil => nofun
  | cons id ids ih =>
    have hstarts : ∀ k : String → List Char,
        (ids.flatMap fun id => '\x1e'::id.toList++ '='::k id)=[] ∨
        ∃ t,(ids.flatMap fun id => '\x1e'::id.toList++ '='::k id)= '\x1e'::t := by
      intro k
      cases ids with
      | nil => exact Or.inl rfl
      | cons id' ids => exact Or.inr ⟨_,rfl⟩
    have htail : f id++(ids.flatMap fun id => '\x1e'::id.toList++ '='::f id)=
        g id++ids.flatMap fun id => '\x1e'::id.toList++ '='::g id := by
      simpa [List.flatMap_cons] using h
    obtain ⟨hhere,hrest⟩ := append_separated_inj (hf id (by simp)) (hg id (by simp)) (hstarts f)
      (hstarts g) htail
    intro x hx
    obtain rfl|hx := List.mem_cons.mp hx
    · exact hhere
    · exact ih (fun y hy => hf y (by simp [hy])) (fun y hy => hg y (by simp [hy])) hrest x hx

section Follow

variable {d2i : Octets → Option X509Cert}

/-- The walk looks at nothing but the CAs it lists. -/
theorem climb_congr {view view' : String → Option CaView} {n : Nat} {seen : List String}
    {parent : String}
    (h : ∀ x∈(climb d2i view n seen parent).map Prod.fst,view' x=view x) :
    climb d2i view' n seen parent=climb d2i view n seen parent := by
  induction n generalizing seen parent with
  | zero => rfl
  | succ n ih =>
    simp only [climb] at h ⊢
    split
    · rfl
    · next hgo =>
      rw [if_neg hgo] at h
      have hhere : view' parent=view parent := by
        apply h
        cases view parent with
        | none => simp
        | some v =>
          cases hanchor : anchorOf d2i v with
          | none => simp [hanchor]
          | some c => simp [hanchor]
      rw [hhere]
      cases hview : view parent with
      | none => rfl
      | some v =>
        cases hanchor : anchorOf d2i v with
        | none => simp only [hanchor]
        | some c =>
          simp only [hanchor]
          split
          · rfl
          · next hup =>
            rw [ih]
            intro x hx
            apply h
            simp only [hview,hanchor,if_neg hup,List.map_cons]
            exact List.mem_cons_of_mem _ hx

/-- With more steps than there are CAs left, the walk comes to its own end. -/
theorem climb_enough {view : String → Option CaView} {ids : Finset String}
    (hids : ∀ x,(view x).isSome=true → x∈ids) {n m : Nat} {seen : List String} {parent : String}
    (hn : (ids\seen.toFinset).card<n) (hm : (ids\seen.toFinset).card < m) :
    climb d2i view n seen parent=climb d2i view m seen parent := by
  induction n generalizing m seen parent with
  | zero => omega
  | succ n ih =>
    cases m with
    | zero => omega
    | succ m =>
      simp only [climb]
      split
      · rfl
      · next hgo =>
        rw [not_or] at hgo
        cases hview : view parent with
        | none => rfl
        | some v =>
          cases hanchor : anchorOf d2i v with
          | none => simp only [hanchor]
          | some c =>
            simp only [hanchor]
            split
            · rfl
            · have hparent : parent∈ids\seen.toFinset := by
                have hmem : parent∈ids := hids parent (by simp [hview])
                simpa [hmem] using hgo.2
              have hfewer : (ids\(parent::seen).toFinset).card<(ids\seen.toFinset).card := by
                apply Finset.card_lt_card
                rw [Finset.ssubset_iff_of_subset]
                · exact ⟨parent,hparent,by simp⟩
                · intro x hx
                  simp only [List.toFinset_cons,Finset.mem_sdiff,Finset.mem_insert,not_or] at hx ⊢
                  exact ⟨hx.1,hx.2.2⟩
              rw [ih (m := m)]
              · omega
              · omega

theorem mem_caIds {db : Inventory} {id : String} {r : Row} (h : r∈generations db id) :
    id∈caIds db := by
  obtain ⟨hr,hca,hid⟩ := mem_generations.mp h
  simp only [caIds,List.mem_insertionSort,List.mem_dedup,List.mem_filterMap]
  exact ⟨r,hr,by simp [hca,hid]⟩

theorem registered_of_mem {db : Inventory} {id : String} {r : Row} (h : r∈generations db id) :
    Registered db r := by
  obtain ⟨hr,hca,hid⟩ := mem_generations.mp h
  exact ⟨hr,hca,by simp [hid]⟩

theorem getCaInstance_row {now : Int} {db : Inventory} {id : String} {ci : CaInstance}
    (h : getCaInstance now db id=some ci) :
    ∃ r∈generations db id,ci=readCa now id r := by
  obtain ⟨r,hmax,rfl⟩ := Option.map_eq_some_iff.mp h
  exact ⟨r,List.argmax_mem hmax,rfl⟩

theorem getCaCertDer_mem {now : Int} {db : Inventory} {id : String} {r : Row}
    (h : getCaCertDer now db id=some r) : r∈generations db id :=
  (List.mem_filter.mp (List.argmax_mem h)).1

/-- The certificate of a view is that of its newest live row, or of its newest one. -/
theorem caCertDerFor_eq (s : Snapshot d2i) {id : String} {ci : CaInstance}
    (hci : getCaInstance s.now s.db id=some ci) :
    caCertDerFor s id ci=((getCaCertDer s.now s.db id).map Row.cert).getD ci.cert := by
  obtain ⟨top,htop,rfl⟩ := getCaInstance_row hci
  have hparses : ∀ r∈generations s.db id,(d2i r.cert).any X509Cert.checkCa=true := fun r hr =>
    s.filed.isCa r (registered_of_mem hr)
  cases hnew : getCaCertDer s.now s.db id with
  | none =>
    have hsome : (d2i top.cert).isSome=true := by
      have hany := hparses top htop
      cases hd : d2i top.cert with
      | none => simp [hd] at hany
      | some c => rfl
    simp [caCertDerFor,hnew,readCa,hsome]
  | some r =>
    have hr := getCaCertDer_mem hnew
    have hstored : r.cert≠[] := s.filed.stored r (registered_of_mem hr)
    have hkept : decide (r.cert≠[] ∧ (d2i r.cert).any X509Cert.checkCa=true)=true := by
      simp [hstored,hparses r hr]
    simp only [caCertDerFor,hnew,Option.filter_some,hkept,if_true,Option.map_some,Option.getD_some]

theorem viewOf_row {s : Snapshot d2i} {id : String} {v : CaView} (h : viewOf s id=some v) :
    (∃ r∈generations s.db id,v.cert=r.cert) ∧
      (getCaInstance s.now s.db id).any (·.revoked)=v.revoked := by
  obtain ⟨ci,hci,rfl⟩ := Option.map_eq_some_iff.mp h
  refine ⟨?_,by simp [hci]⟩
  obtain ⟨top,htop,rfl⟩ := getCaInstance_row hci
  rw [caCertDerFor_eq s hci]
  cases hnew : getCaCertDer s.now s.db id with
  | none => exact ⟨top,htop,rfl⟩
  | some r => exact ⟨r,getCaCertDer_mem hnew,rfl⟩

/-- The part of a CA in the signature: the serial of its newest live row, or its newest row as PEM. -/
theorem sigPart_eq (s : Snapshot d2i) {id : String} {ci : CaInstance}
    (hci : getCaInstance s.now s.db id=some ci) :
    sigPart s id=((getCaCertDer s.now s.db id).map fun r => r.serial.toList).getD
      (pem ci.cert) := by
  obtain ⟨top,htop,rfl⟩ := getCaInstance_row hci
  have htopStored : top.cert≠[] := s.filed.stored top (registered_of_mem htop)
  simp only [sigPart,hci]
  cases hnew : getCaCertDer s.now s.db id with
  | none => simp [pemPart,readCa,htopStored]
  | some r =>
    have hstored : r.cert≠[] := s.filed.stored r (registered_of_mem (getCaCertDer_mem hnew))
    simp [hstored]

theorem not_mem_serial {s : Snapshot d2i} {id : String} {r : Row} (hr : r∈generations s.db id)
    {c : Char} (hc : c.isAlphanum=false) : c∉r.serial.toList := by
  intro hmem
  rw [s.filed.serial r (registered_of_mem hr) c hmem] at hc
  cases hc

theorem pem_injective {der der' : Octets} (h : pem der=pem der') : der=der' := by
  have hcut := List.append_cancel_right h
  exact wrapped_base64_injective (List.append_cancel_left hcut)

theorem sep_not_mem_pem (der : Octets) : '\x1e'∉pem der := by
  have hheader : '\x1e'∉pemHeader := by decide
  have hfooter : '\x1e'∉pemFooter := by decide
  have hbody : '\x1e'∉wrapLines 76 76 (base64 der) := by
    intro hmem
    obtain hbreak|hchar := mem_wrapLines hmem
    · exact absurd hbreak (by decide)
    · exact not_mem_base64 (by decide +kernel) (by decide) der hchar
  rw [pem,List.mem_append,List.mem_append]
  exact not_or.mpr ⟨not_or.mpr ⟨hheader,hbody⟩,hfooter⟩

theorem dash_mem_pem (der : Octets) : '-'∈pem der := by
  have hheader : '-'∈pemHeader := by decide
  rw [pem,List.append_assoc]
  exact List.mem_append_left _ hheader

theorem sep_not_mem_sigPart (s : Snapshot d2i) (id : String) :
    '\x1e'∉sigPart s id := by
  cases hci : getCaInstance s.now s.db id with
  | none => simp [sigPart,hci]
  | some ci =>
    rw [sigPart_eq s hci]
    cases hnew : getCaCertDer s.now s.db id with
    | none => exact sep_not_mem_pem ci.cert
    | some r => exact not_mem_serial (getCaCertDer_mem hnew) (by decide)

/-- A serial is no PEM text. -/
theorem serial_ne_pem {s : Snapshot d2i} {id : String} {r : Row}
    (hr : r∈generations s.db id) (der : Octets) : r.serial.toList≠pem der := by
  intro heq
  have hdash : '-'∈r.serial.toList := by
    rw [heq]
    exact dash_mem_pem der
  exact not_mem_serial hr (by decide) hdash

/-- A CA that is named in the settings is found in the same state under the same parent; a serial of
it stands for the same certificate. -/
structure SameNamed (s s' : Snapshot d2i) (id : String) : Prop where
  state : (viewOf s' id).map (fun v => (v.revoked,v.parent))=
    (viewOf s id).map fun v => (v.revoked,v.parent)
  serials : ∀ r∈generations s.db id,∀ r'∈generations s'.db id,r'.serial=r.serial → r'.cert=r.cert

/-- Of what the walks from the named CAs look at, nothing has changed that the signature does not
show. -/
structure SamePaths (s s' : Snapshot d2i) : Prop where
  ids : s'.clientCaId=s.clientCaId
  bundle : s'.clientCaBundle=s.clientCaBundle
  named : ∀ id∈splitCsv s.clientCaId,SameNamed s s' id
  above : ∀ id∈splitCsv s.clientCaId,∀ v,viewOf s id=some v →
    ∀ x∈(walkOf s id v.parent).map Prod.fst,viewOf s' x=viewOf s x

/-- The part in the signature shows the certificate of a named CA. -/
theorem SameNamed.view_eq {s s' : Snapshot d2i} {id : String} (h : SameNamed s s' id)
    (hpart : sigPart s' id=sigPart s id) : viewOf s' id=viewOf s id := by
  have hstate := h.state
  simp only [viewOf] at hstate ⊢
  cases hci : getCaInstance s.now s.db id with
  | none =>
    cases hci' : getCaInstance s'.now s'.db id with
    | none => rfl
    | some ci' => simp [hci,hci'] at hstate
  | some ci =>
    cases hci' : getCaInstance s'.now s'.db id with
    | none => simp [hci,hci'] at hstate
    | some ci' =>
      have hcert : caCertDerFor s' id ci'=caCertDerFor s id ci := by
        rw [sigPart_eq s hci,sigPart_eq s' hci'] at hpart
        rw [caCertDerFor_eq s hci,caCertDerFor_eq s' hci']
        cases hnew : getCaCertDer s.now s.db id with
        | none =>
          cases hnew' : getCaCertDer s'.now s'.db id with
          | none =>
            rw [hnew,hnew'] at hpart
            exact pem_injective hpart
          | some r' =>
            rw [hnew,hnew'] at hpart
            exact absurd hpart (serial_ne_pem (getCaCertDer_mem hnew') ci.cert)
        | some r =>
          cases hnew' : getCaCertDer s'.now s'.db id with
          | none =>
            rw [hnew,hnew'] at hpart
            exact absurd hpart.symm (serial_ne_pem (getCaCertDer_mem hnew) ci'.cert)
          | some r' =>
            rw [hnew,hnew'] at hpart
            have hserial : r'.serial=r.serial := String.toList_injective hpart
            exact h.serials r (getCaCertDer_mem hnew) r' (getCaCertDer_mem hnew') hserial
      simp only [hci,hci',Option.map_some,Option.some.injEq,Prod.mk.injEq] at hstate ⊢
      rw [hstate.1,hstate.2,hcert]

theorem viewOf_mem_caIds {s : Snapshot d2i} {x : String} (h : (viewOf s x).isSome=true) :
    x∈(caIds s.db).toFinset := by
  obtain ⟨v,hv⟩ := Option.isSome_iff_exists.mp h
  obtain ⟨⟨r,hr,_⟩,_⟩ := viewOf_row hv
  exact List.mem_toFinset.mpr (mem_caIds hr)

theorem card_lt_depth (s : Snapshot d2i) (seen : List String) :
    ((caIds s.db).toFinset\seen.toFinset).card<depth s := by
  have hsub := Finset.card_le_card (Finset.sdiff_subset (s := (caIds s.db).toFinset)
    (t := seen.toFinset))
  have hlen := (caIds s.db).toFinset_card_le
  rw [depth]
  omega

/-- The walks of two snapshots agree, however deep each may go. -/
theorem walkOf_eq {s s' : Snapshot d2i} {id parent : String}
    (h : ∀ x∈(walkOf s id parent).map Prod.fst,viewOf s' x=viewOf s x) :
    walkOf s' id parent=walkOf s id parent := by
  have hdeep : climb d2i (viewOf s) (depth s+depth s') [id] parent=walkOf s id parent := by
    have hcard := card_lt_depth s [id]
    exact climb_enough (fun x => viewOf_mem_caIds) (by omega) hcard
  have hsame : climb d2i (viewOf s') (depth s+depth s') [id] parent=
      climb d2i (viewOf s) (depth s+depth s') [id] parent := by
    apply climb_congr
    rw [hdeep]
    exact h
  have hdeep' : climb d2i (viewOf s') (depth s+depth s') [id] parent=walkOf s' id parent := by
    have hcard := card_lt_depth s' [id]
    exact climb_enough (fun x => viewOf_mem_caIds) (by omega) hcard
  rw [← hdeep',hsame,hdeep]

/-- Where nothing on the paths has changed, the signature determines the store. -/
theorem SamePaths.store_eq {loadCertsPem : String → List Octets} {s s' : Snapshot d2i}
    (h : SamePaths s s') (hsig : clientAnchorSig s'=clientAnchorSig s) :
    buildClientTrustStore loadCertsPem s'=buildClientTrustStore loadCertsPem s := by
  rw [clientAnchorSig,clientAnchorSig,h.ids,h.bundle] at hsig
  have hparts := parts_eq_of_flatMap (fun id _ => sep_not_mem_sigPart s' id)
    (fun id _ => sep_not_mem_sigPart s id) (List.append_cancel_left hsig)
  have hnamed : ∀ id∈splitCsv s.clientCaId,namedAnchors s' id=namedAnchors s id := by
    intro id hid
    have hview : viewOf s' id=viewOf s id := (h.named id hid).view_eq (hparts id hid)
    simp only [namedAnchors,hview]
    cases hv : viewOf s id with
    | none => rfl
    | some v => simp only [walkOf_eq (h.above id hid v hv)]
  rw [buildClientTrustStore,buildClientTrustStore,h.ids,h.bundle]
  congr 1
  exact List.flatMap_congr hnamed

/-- None of these certificates is one of a CA that is revoked in the database. -/
def Clean (s : Snapshot d2i) (store : List Octets) : Prop :=
  ∀ der∈store,∀ id,∀ r∈generations s.db id,r.cert=der →
    (getCaInstance s.now s.db id).any (·.revoked)=false

/-- What is added for a CA is a certificate of it, and the CA is not revoked. -/
theorem anchorOf_eq_some {v : CaView} {c : X509Cert} (h : anchorOf d2i v=some c) :
    v.revoked=false := by
  simp only [anchorOf] at h
  split at h
  · cases h
  · next hkept =>
    rw [not_or] at hkept
    simpa using hkept.1

theorem mem_climb {view : String → Option CaView} {n : Nat} {seen : List String} {parent x : String}
    {der : Octets} (h : (x,some der)∈climb d2i view n seen parent) :
    ∃ v,view x=some v ∧ v.revoked=false ∧ v.cert=der := by
  induction n generalizing seen parent with
  | zero => cases h
  | succ n ih =>
    simp only [climb] at h
    split at h
    · cases h
    · cases hview : view parent with
      | none => simp [hview] at h
      | some v =>
        cases hanchor : anchorOf d2i v with
        | none => simp [hview,hanchor] at h
        | some c =>
          simp only [hview,hanchor] at h
          obtain heq|hrest := List.mem_cons.mp h
          · obtain ⟨rfl,hder⟩ := Prod.mk.inj heq
            exact ⟨v,hview,anchorOf_eq_some hanchor,(Option.some.inj hder).symm⟩
          · split at hrest
            · cases hrest
            · exact ih hrest

theorem mem_namedAnchors {s : Snapshot d2i} {id : String} {der : Octets}
    (h : der∈namedAnchors s id) : ∃ x v,viewOf s x=some v ∧ v.revoked=false ∧ v.cert=der := by
  simp only [namedAnchors] at h
  cases hview : viewOf s id with
  | none => simp [hview] at h
  | some v =>
    cases hanchor : anchorOf d2i v with
    | none => simp [hview,hanchor] at h
    | some c =>
      simp only [hview,hanchor,Option.elim_some] at h
      obtain rfl|hwalk := List.mem_cons.mp h
      · exact ⟨id,v,hview,anchorOf_eq_some hanchor,rfl⟩
      · obtain ⟨⟨x,o⟩,hmem,rfl⟩ := List.mem_filterMap.mp hwalk
        obtain ⟨w,hw,hactive,hcert⟩ := mem_climb hmem
        exact ⟨x,w,hw,hactive,hcert⟩

/-- A store that was just built is clean, as far as the bundle is. -/
theorem clean_build {loadCertsPem : String → List Octets} {s : Snapshot d2i}
    (hbundle : Clean s (loadCertsPem s.clientCaBundle)) :
    Clean s (buildClientTrustStore loadCertsPem s) := by
  intro der hder id r hr hcert
  obtain hnamed|hextra := List.mem_append.mp hder
  · obtain ⟨named,_,hmem⟩ := List.mem_flatMap.mp hnamed
    obtain ⟨x,v,hview,hactive,hv⟩ := mem_namedAnchors hmem
    obtain ⟨⟨r',hr',hcert'⟩,hrevoked⟩ := viewOf_row hview
    -- a certificate is stored once, so the two rows are one and so are the two CAs
    obtain rfl : r=r' := s.filed.once r r' (registered_of_mem hr) (registered_of_mem hr')
      (hcert.trans (hv.symm.trans hcert'))
    obtain rfl : id=x := by
      have hid := (mem_generations.mp hr).2.2
      have hx := (mem_generations.mp hr').2.2
      exact Option.some.inj (hid.symm.trans hx)
    rw [hrevoked,hactive]
  · exact hbundle der hextra id r hr hcert

/-- The server with its client trust store. `built` is history: what the store was built from. -/
structure Refresher (d2i : Octets → Option X509Cert) where
  current : Snapshot d2i
  built : Snapshot d2i
  clientStore : List Octets
  clientTrustSig : List Char

/-- Time passes and the database changes in any way, or the refresher wakes up. -/
inductive Happening (d2i : Octets → Option X509Cert) where
  | change (s : Snapshot d2i)
  | tick

variable (loadCertsPem : String → List Octets)

def startUp (s : Snapshot d2i) : Refresher d2i :=
  ⟨s,s,buildClientTrustStore loadCertsPem s,clientAnchorSig s⟩

def Refresher.step (st : Refresher d2i) : Happening d2i → Refresher d2i
  | .change s => { st with current := s }
  | .tick =>
    let sig := clientAnchorSig st.current
    if sig = st.clientTrustSig then st
    else ⟨st.current,st.current,buildClientTrustStore loadCertsPem st.current,sig⟩

/-- When the refresher wakes up, the bundle has no certificate of a revoked CA; and where it finds the
signature it had, nothing else has changed on the paths of the named CAs. -/
def Noticed (st : Refresher d2i) : Happening d2i → Prop
  | .change _ => True
  | .tick => Clean st.current (loadCertsPem st.current.clientCaBundle) ∧
      (clientAnchorSig st.current=st.clientTrustSig → SamePaths st.built st.current)

/-- After a tick the store is free of revoked CAs. -/
def CleanAfter (st : Refresher d2i) (e : Happening d2i) : Prop :=
  e=.tick → Clean (st.step loadCertsPem e).current (st.step loadCertsPem e).clientStore

/-- The store and its signature belong together. -/
structure BuiltFrom (st : Refresher d2i) : Prop where
  store : st.clientStore=buildClientTrustStore loadCertsPem st.built
  sig : st.clientTrustSig=clientAnchorSig st.built

variable {loadCertsPem : String → List Octets}

theorem BuiltFrom.step {st : Refresher d2i} (h : BuiltFrom loadCertsPem st) (e : Happening d2i) :
    BuiltFrom loadCertsPem (st.step loadCertsPem e) := by
  cases e with
  | change s => exact ⟨h.store,h.sig⟩
  | tick =>
    simp only [Refresher.step]
    split
    · exact h
    · exact ⟨rfl,rfl⟩

theorem BuiltFrom.cleanAfter {st : Refresher d2i} (h : BuiltFrom loadCertsPem st)
    (e : Happening d2i) (hnoticed : Noticed loadCertsPem st e) :
    CleanAfter loadCertsPem st e := by
  intro htick
  subst htick
  obtain ⟨hbundle,hpaths⟩ := hnoticed
  have hbuilt : Clean st.current (buildClientTrustStore loadCertsPem st.current) := clean_build hbundle
  simp only [Refresher.step]
  split
  · next hsig =>
    have hsame : buildClientTrustStore loadCertsPem st.current=
        buildClientTrustStore loadCertsPem st.built :=
      (hpaths hsig).store_eq (hsig.trans h.sig)
    rw [h.store,← hsame]
    exact hbuilt
  · exact hbuilt

/-- The signature determines the store between two snapshots that agree on the paths of the named
CAs; and in every run in which the refresher meets no others, its store is free of revoked CAs after
each tick. -/
theorem client_trust_follows_revocation (loadCertsPem : String → List Octets)
    (s s' : Snapshot d2i) (es : List (Happening d2i)) (hpaths : SamePaths s s')
    (hnoticed : Along (Refresher.step loadCertsPem) (Noticed loadCertsPem)
      (startUp loadCertsPem s) es) :
    (clientAnchorSig s'=clientAnchorSig s →
      buildClientTrustStore loadCertsPem s'=buildClientTrustStore loadCertsPem s) ∧
    Along (Refresher.step loadCertsPem) (CleanAfter loadCertsPem)
      (startUp loadCertsPem s) es := by
  have hstart : BuiltFrom loadCertsPem (startUp loadCertsPem s) := ⟨rfl,rfl⟩
  exact ⟨hpaths.store_eq,hnoticed.imp (fun _ e hb _ => BuiltFrom.step hb e)
    (fun _ e hb hq => BuiltFrom.cleanAfter hb e hq) hstart⟩

end Follow

/-- A CA row with the hashes that its parent is found by. -/
def linkedRow (n : Int) (id : String) (der sHash iHash : Octets) : Row :=
  { generationRow n id der with sHash := some sHash, iHash := some iHash }

def revokedRow (r : Row) : Row := { r with status := some (-1) }

def trustRoot : Row := linkedRow 1 "root" [1,1,1,1] [1] [1]

/-- A subordinate CA with two generations. -/
def trustSub : List Row := [linkedRow 2 "sub" [2,2,1,1] [2] [1],linkedRow 3 "sub" [2,3,1,1] [2] [1]]

theorem filed_of_rows {db : Inventory} (h : ∀ r∈db.rows,r.cert≠[] ∧
    (readCert r.cert).any X509Cert.checkCa=true ∧ r.serial.toList.all Char.isAlphanum=true ∧
    ∀ r'∈db.rows,r.cert=r'.cert → r=r') : Filed readCert db where
  stored := fun r hr => (h r hr.1).1
  isCa := fun r hr => (h r hr.1).2.1
  once := fun r r' hr hr' => (h r hr.1).2.2.2 r' hr'.1
  serial := fun r hr => List.all_eq_true.mp (h r hr.1).2.2.1

def trustDb : Inventory := ⟨trustRoot::trustSub,by decide⟩

def rootRevokedDb : Inventory := ⟨revokedRow trustRoot::trustSub,by decide⟩

def subRevokedDb : Inventory := ⟨trustRoot::trustSub.map revokedRow,by decide⟩

/-- The settings name the subordinate CA. -/
def trustSnapshot (db : Inventory) (filed : Filed readCert db) : Snapshot readCert :=
  ⟨1000,db,filed,"sub",""⟩

def trusted : Snapshot readCert := trustSnapshot trustDb (filed_of_rows (by decide +kernel))

def rootRevoked : Snapshot readCert := trustSnapshot rootRevokedDb (filed_of_rows (by decide +kernel))

def subRevoked : Snapshot readCert := trustSnapshot subRevokedDb (filed_of_rows (by decide +kernel))

def noBundle : String → List Octets := fun _ => []

theorem splitCsv_trusted : splitCsv trusted.clientCaId=["sub"] := by decide

/-- Nothing on the path has changed when only time has passed. -/
theorem trusted_samePaths : SamePaths trusted { trusted with now := 2000 } := by
  refine ⟨rfl,rfl,fun id hid => ?_,fun id hid v hv => ?_⟩
  · rw [splitCsv_trusted,List.mem_singleton] at hid
    subst hid
    exact ⟨by decide,by decide⟩
  · rw [splitCsv_trusted,List.mem_singleton] at hid
    subst hid
    have hsub : viewOf trusted "sub"=some ⟨false,"root",[2,3,1,1]⟩ := by decide
    obtain rfl := Option.some.inj (hsub.symm.trans hv)
    decide

/-- The named CA is revoked, and the store loses it at the next tick. -/
theorem client_trust_follows_revocation_named :
    buildClientTrustStore noBundle trusted=[[2,3,1,1],[1,1,1,1]] ∧
    (run (Refresher.step noBundle) (startUp noBundle trusted) [.change subRevoked,.tick]).clientStore=[] ∧
    Along (Refresher.step noBundle) (CleanAfter noBundle) (startUp noBundle trusted)
      [.change subRevoked,.tick] := by
  have hsig : clientAnchorSig subRevoked≠clientAnchorSig trusted := by decide +kernel
  have hnoticed : Along (Refresher.step noBundle) (Noticed noBundle) (startUp noBundle trusted)
      [.change subRevoked,.tick] := ⟨trivial,⟨nofun,fun heq => absurd heq hsig⟩,trivial⟩
  exact ⟨by decide,by decide +kernel,(client_trust_follows_revocation noBundle trusted
    { trusted with now := 2000 } [.change subRevoked,.tick] trusted_samePaths hnoticed).2⟩

/-- The root above the named CA is revoked: the signature stays, and so does the root in the store. -/
theorem client_trust_keeps_revoked_root :
    (clientAnchorSig rootRevoked=clientAnchorSig trusted ∧
      ¬(∀ der,der∈buildClientTrustStore noBundle rootRevoked ↔
        der∈buildClientTrustStore noBundle trusted)) ∧
    ¬Along (Refresher.step noBundle) (CleanAfter noBundle) (startUp noBundle trusted)
      [.change rootRevoked,.tick] := by
  have hsig : clientAnchorSig rootRevoked=clientAnchorSig trusted := by decide
  refine ⟨⟨hsig,fun h => ?_⟩,fun h => ?_⟩
  · have hroot := (h [1,1,1,1]).mpr (by decide)
    exact absurd hroot (by decide)
  · have hclean := h.2.1 rfl [1,1,1,1] (by decide) "root" (revokedRow trustRoot)
      (by decide) (by decide)
    exact absurd hclean (by decide)

end FastPki.Ca

import FastPki.Ca.Instance

namespace FastPki.Ca
open X509 Certs

/-- The order of `list_ca_instances` within a CA: a NULL `notBefore` counts as 0 here. -/
def listedRank (row : Row) : Rank := rankOf (some (row.notBefore.getD 0)) row.insSeq row.serial

def caIds (db : Inventory) : List String :=
  ((db.rows.filterMap fun r => if r.isCa then r.id else none).dedup).insertionSort (· ≤ ·)

/-- `list_ca_instances`: by id, each CA with its newest row, which is its `signing_ca_pem`. -/
def listCaInstances (db : Inventory) : List (String × Row) :=
  (caIds db).filterMap fun id => ((generations db id).argmax listedRank).map (id,·)

section Chain

variable (d2i : Octets → Option X509Cert) (sameName : Name → Name → Bool) (now : Int) (db : Inventory)

/-- Whether the stored certificate has the subject, and where asked the key, that `cur` names as its
issuer. -/
def subjectIsIssuer (cur : X509Cert) (requireKey : Bool) (row : Row) : Bool :=
  (d2i row.cert).any fun c =>
    sameName c.subject cur.issuer && (!requireKey || (c.skid.isSome && c.skid = cur.akid))

/-- The certificate of this CA that may have signed `cur`. The older generations are tried only by
their key. -/
def candidate (cur : X509Cert) (requireKey : Bool) (ci : String × Row) : Option Row :=
  ((getCaCertDer now db ci.1).filter fun r => r.cert ≠ [] ∧ subjectIsIssuer d2i sameName cur requireKey r)
  <|> (some ci.2).filter (subjectIsIssuer d2i sameName cur requireKey)
  <|> if requireKey then (getCaChainDers now db ci.1).find? (subjectIsIssuer d2i sameName cur requireKey)
    else none

/-- The two passes: by key and name where `cur` names a key, then by name. -/
def findIssuer (cur : X509Cert) : Option (String × Row) :=
  let pass (requireKey : Bool) := (listCaInstances db).findSome? fun ci =>
    (candidate d2i sameName now db cur requireKey ci).map (ci.1,·)
  if cur.akid.isSome then pass true <|> pass false else pass false

def selfSigned (row : Row) : Bool := (d2i row.cert).any X509Cert.selfSigned

/-- The other generations of an intermediate CA, none of them seen before. The self-signed ones count as
seen from here on, though they are not sent. -/
def gather (seen : List Octets) : List Row → List Octets × List Row
  | [] => (seen,[])
  | g::gs =>
    if (d2i g.cert).isNone ∨ seen.any (· = g.cert) then gather seen gs
    else
      let (seen',sent) := gather (g.cert::seen) gs
      (seen',if selfSigned d2i g then sent else g::sent)

/-- The generations of a root CA that are not anchors. -/
def bridges (seen : List Octets) : List Row → List Row
  | [] => []
  | g::gs =>
    if (d2i g.cert).isNone ∨ selfSigned d2i g ∨ seen.any (· = g.cert) then bridges seen gs
    else g::bridges (g.cert::seen) gs

/-- The loop of `build_issuer_chain`: the certificates sent and the anchor. -/
def walk : Nat → X509Cert → List Octets → List Octets → List Octets × Option Octets
  | 0,_,_,chain => (chain,none)
  | n+1,cur,seen,chain =>
    if cur.selfSigned then (chain,none)
    else match findIssuer d2i sameName now db cur with
      | none => (chain,none)
      | some (id,found) =>
        let others := if id = "" then [] else getCaChainDers now db id
        if seen.any (· = found.cert) then (chain,none)
        else if selfSigned d2i found then
          (chain++(bridges d2i (found.cert::seen) others).map Row.cert,some found.cert)
        else
          let (seen',sent) := gather d2i (found.cert::seen) others
          let chain' := chain++found.cert::sent.map Row.cert
          -- the walk goes on from the oldest of them
          match d2i (sent.getLast?.getD found).cert with
          | none => (chain',none)
          | some cur' => walk n cur' seen' chain'

def buildIssuerChain (leaf : X509Cert) : List Octets × Option Octets :=
  walk d2i sameName now db 8 leaf [] []

/-- The certificate by which the walk leaves an intermediate CA. -/
def leaveBy (id : String) (found : Row) : Row :=
  ((getCaChainDers now db id).filter fun g => g ≠ found ∧ !selfSigned d2i g).getLast?.getD found

/-- From the certificate `cur` up to a root through CAs that are not met twice. -/
inductive Stairs : List String → X509Cert → Nat → List String → Row → Prop where
  | root {met : List String} {cur : X509Cert} {n : Nat} {id : String} {found : Row} :
      findIssuer d2i sameName now db cur=some (id,found) → id∉met → selfSigned d2i found=true →
      Stairs met cur (n+1) [id] found
  | up {met ids : List String} {cur next : X509Cert} {n : Nat} {id : String} {found top : Row} :
      findIssuer d2i sameName now db cur=some (id,found) → id∉met → selfSigned d2i found=false →
      d2i (leaveBy d2i now db id found).cert=some next → Stairs (id::met) next n ids top →
      Stairs met cur (n+1) (id::ids) top

def Registered (row : Row) : Prop := row∈db.rows ∧ row.isCa=true ∧ row.id≠none

/-- A registry of live generations; each row holds its own certificate. -/
structure Registry : Prop where
  named : ∀ r,Registered db r → r.id≠some ""
  valid : ∀ r,Registered db r → live now r=true
  cert : ∀ r,Registered db r → r.cert≠[]
  parses : ∀ r,Registered db r → (d2i r.cert).isSome=true
  distinct : ∀ r r',Registered db r → Registered db r' → r.cert=r'.cert → r=r'

/-- A path of issuers from `cur` to the root. -/
def PathTo (issued : X509Cert → X509Cert → Bool) : X509Cert → List Row → Row → Prop
  | cur,[],root => (d2i root.cert).any (issued cur)=true
  | cur,g::gs,root => ∃ c,d2i g.cert=some c ∧ issued cur c=true ∧ PathTo issued c gs root

/-- The chain holds every intermediate of some path of at most 7, and nothing self-signed; its anchor is
the root of that path. -/
def Complete (issued : X509Cert → X509Cert → Bool) (leaf : X509Cert) : Prop :=
  (∀ der∈(buildIssuerChain d2i sameName now db leaf).1,(d2i der).any X509Cert.selfSigned=false) ∧
  ∃ path root,path.length≤7 ∧ PathTo d2i issued leaf path root ∧
    (∀ g∈path,Registered db g ∧ selfSigned d2i g=false ∧
      g.cert∈(buildIssuerChain d2i sameName now db leaf).1) ∧
    Registered db root ∧ selfSigned d2i root=true ∧
    (buildIssuerChain d2i sameName now db leaf).2=some root.cert

end Chain

section Walk

variable {d2i : Octets → Option X509Cert} {sameName : Name → Name → Bool} {now : Int} {db : Inventory}

theorem mem_listCaInstances {ci : String × Row} (h : ci∈listCaInstances db) :
    ci.2∈generations db ci.1 := by
  simp only [listCaInstances,List.mem_filterMap] at h
  obtain ⟨id,_,hrow⟩ := h
  obtain ⟨row,hmax,rfl⟩ := Option.map_eq_some_iff.mp hrow
  exact List.argmax_mem hmax

theorem candidate_mem {cur : X509Cert} {requireKey : Bool} {ci : String × Row} {found : Row}
    (hci : ci∈listCaInstances db) (h : candidate d2i sameName now db cur requireKey ci=some found) :
    found∈generations db ci.1 := by
  simp only [candidate,Option.orElse_eq_orElse,Option.orElse_eq_or,Option.or_eq_some_iff] at h
  obtain h|⟨_,h|⟨_,h⟩⟩ := h
  · have hmax := (Option.filter_eq_some_iff.mp h).1
    exact (List.mem_filter.mp (List.argmax_mem hmax)).1
  · obtain rfl := Option.some.inj (Option.filter_eq_some_iff.mp h).1
    exact mem_listCaInstances hci
  · split_ifs at h
    exact (mem_getCaChainDers.mp (List.mem_of_find?_eq_some h)).1

theorem any_eq_iff {seen : List Octets} {der : Octets} :
    seen.any (fun d => decide (d=der))=true ↔ der∈seen := by simp

theorem any_eq_false {seen : List Octets} {der : Octets} (h : der∉seen) :
    seen.any (fun d => decide (d=der))=false := by
  rw [Bool.eq_false_iff,ne_eq,any_eq_iff]
  exact h

/-- The issuer that the walk finds is a generation of the CA it is found under. -/
theorem findIssuer_mem {cur : X509Cert} {id : String} {found : Row}
    (h : findIssuer d2i sameName now db cur=some (id,found)) : found∈generations db id := by
  have hpass : ∀ requireKey,((listCaInstances db).findSome? fun ci =>
      (candidate d2i sameName now db cur requireKey ci).map (ci.1,·))=some (id,found) →
      found∈generations db id := by
    intro requireKey hsome
    obtain ⟨ci,hci,hfound⟩ := List.exists_of_findSome?_eq_some hsome
    obtain ⟨row,hrow,heq⟩ := Option.map_eq_some_iff.mp hfound
    obtain ⟨rfl,rfl⟩ := Prod.mk.inj heq
    exact candidate_mem hci hrow
  simp only [findIssuer,Option.orElse_eq_orElse,Option.orElse_eq_or] at h
  split_ifs at h
  · obtain h|⟨_,h⟩ := Option.or_eq_some_iff.mp h
    · exact hpass true h
    · exact hpass false h
  · exact hpass false h

theorem registered_of_generation {id : String} {row : Row} (h : row∈generations db id) :
    Registered db row := by
  obtain ⟨hmem,hca,hid⟩ := mem_generations.mp h
  exact ⟨hmem,hca,by rw [hid]; exact Option.some_ne_none id⟩

variable (hreg : Registry d2i now db)
include hreg

/-- Every generation is live, so it is served. -/
theorem Registry.mem_chain {id : String} {row : Row} :
    row∈getCaChainDers now db id ↔ row∈generations db id := by
  rw [mem_getCaChainDers]
  constructor
  · intro h
    exact h.1
  · intro h
    have hr := registered_of_generation h
    exact ⟨h,hreg.valid row hr,hreg.cert row hr⟩

/-- A certificate belongs to one CA. -/
theorem Registry.id_eq {id id' : String} {row row' : Row} (h : row∈generations db id)
    (h' : row'∈generations db id') (hcert : row.cert=row'.cert) : id=id' := by
  have hsame := hreg.distinct row row' (registered_of_generation h) (registered_of_generation h') hcert
  have hid := (mem_generations.mp h).2.2
  have hid' := (mem_generations.mp h').2.2
  rw [hsame,hid'] at hid
  exact (Option.some.inj hid).symm

theorem Registry.certs_nodup (id : String) : ((getCaChainDers now db id).map Row.cert).Nodup := by
  have hrows : (getCaChainDers now db id).Nodup := by
    have hdb : db.rows.Nodup := db.distinct.of_map
    have hlive : ((generations db id).filter (live now)).Nodup := (hdb.filter _).filter _
    exact ((List.perm_insertionSort _ _).nodup_iff.mpr hlive).filter _
  refine hrows.map_on fun a ha b hb hab => ?_
  have hra := registered_of_generation (hreg.mem_chain.mp ha)
  have hrb := registered_of_generation (hreg.mem_chain.mp hb)
  exact hreg.distinct a b hra hrb hab

/-- The certificate by which the walk leaves a CA is one of its intermediates. -/
theorem Registry.leaveBy_mem {id : String} {found : Row} (hgen : found∈generations db id)
    (hself : selfSigned d2i found=false) : leaveBy d2i now db id found∈generations db id ∧
      selfSigned d2i (leaveBy d2i now db id found)=false := by
  simp only [leaveBy]
  cases hlast : ((getCaChainDers now db id).filter fun g =>
      decide (g≠found ∧ (!selfSigned d2i g)=true)).getLast? with
  | none => exact ⟨hgen,hself⟩
  | some g =>
    have hg := List.mem_of_getLast? hlast
    simp only [List.mem_filter,decide_eq_true_eq,Bool.not_eq_true'] at hg
    exact ⟨hreg.mem_chain.mp hg.1,hg.2.2⟩

omit hreg in
/-- Of generations none of which but `found` was seen, the loop sends those that are no anchors. -/
theorem gather_eq (found : Row) (seen : List Octets) (gs : List Row)
    (hparse : ∀ g∈gs,(d2i g.cert).isSome=true) (hnodup : (gs.map Row.cert).Nodup)
    (hseen : ∀ g∈gs,g.cert∈seen ↔ g=found) :
    (gather d2i seen gs).2=gs.filter (fun g => g≠found ∧ !selfSigned d2i g) ∧
      ∀ der,der∈(gather d2i seen gs).1 ↔ der∈seen ∨ ∃ g∈gs,g.cert=der := by
  induction gs generalizing seen with
  | nil => simp [gather]
  | cons g gs ih =>
    have hdiffer : ∀ x∈gs,x.cert≠g.cert := key_ne_of_nodup hnodup
    have hgparse : (d2i g.cert).isNone=false := by
      have := hparse g List.mem_cons_self
      simpa using this
    have hrest : ∀ x∈gs,(d2i x.cert).isSome=true := fun x hx => hparse x (List.mem_cons_of_mem _ hx)
    by_cases hg : g=found
    · have hgin := (hseen g List.mem_cons_self).mpr hg
      have hin := any_eq_iff.mpr hgin
      obtain ⟨hsent,hall⟩ := ih seen hrest hnodup.of_cons fun x hx => hseen x (List.mem_cons_of_mem _ hx)
      simp only [gather,hin,or_true,if_true]
      refine ⟨?_,fun der => ?_⟩
      · rw [hsent]
        simp [hg]
      · rw [hall der]
        rw [List.exists_mem_cons_iff]
        constructor
        · intro h
          obtain h|h := h
          · exact Or.inl h
          · exact Or.inr (Or.inr h)
        · intro h
          obtain h|rfl|h := h
          · exact Or.inl h
          · exact Or.inl hgin
          · exact Or.inr h
    · have hnew : g.cert∉seen := fun h => hg ((hseen g List.mem_cons_self).mp h)
      have hout := any_eq_false hnew
      have hstill : ∀ x∈gs,x.cert∈g.cert::seen ↔ x=found := by
        intro x hx
        rw [List.mem_cons,← hseen x (List.mem_cons_of_mem _ hx)]
        simp [hdiffer x hx]
      obtain ⟨hsent,hall⟩ := ih (g.cert::seen) hrest hnodup.of_cons hstill
      simp only [gather,hgparse,hout,Bool.false_eq_true,or_self,if_false]
      refine ⟨?_,fun der => ?_⟩
      · rw [hsent,List.filter_cons]
        by_cases hself : selfSigned d2i g=true
        · simp [hself]
        · simp [hself,hg]
      · rw [hall der,List.exists_mem_cons_iff,List.mem_cons]
        constructor
        · intro h
          obtain (rfl|h)|h := h
          · exact Or.inr (Or.inl rfl)
          · exact Or.inl h
          · exact Or.inr (Or.inr h)
        · intro h
          obtain h|rfl|h := h
          · exact Or.inl (Or.inr h)
          · exact Or.inl (Or.inl rfl)
          · exact Or.inr h

omit hreg in
theorem mem_bridges (seen : List Octets) (gs : List Row) (hparse : ∀ g∈gs,(d2i g.cert).isSome=true)
    (hnodup : (gs.map Row.cert).Nodup) (hseen : ∀ g∈gs,selfSigned d2i g=false → g.cert∉seen) (x : Row) :
    x∈bridges d2i seen gs ↔ x∈gs ∧ selfSigned d2i x=false := by
  induction gs generalizing seen with
  | nil => simp [bridges]
  | cons g gs ih =>
    have hdiffer : ∀ x∈gs,x.cert≠g.cert := key_ne_of_nodup hnodup
    have hgparse : (d2i g.cert).isNone=false := by
      have := hparse g List.mem_cons_self
      simpa using this
    have hrest : ∀ x∈gs,(d2i x.cert).isSome=true := fun x hx => hparse x (List.mem_cons_of_mem _ hx)
    by_cases hself : selfSigned d2i g=true
    · have := ih seen hrest hnodup.of_cons fun y hy => hseen y (List.mem_cons_of_mem _ hy)
      simp only [bridges,hself,true_or,or_true,if_true,this,List.mem_cons]
      constructor
      · intro h
        exact ⟨Or.inr h.1,h.2⟩
      · intro h
        obtain ⟨rfl|hx,hplain⟩ := h
        · rw [hself] at hplain
          cases hplain
        · exact ⟨hx,hplain⟩
    · rw [Bool.not_eq_true] at hself
      have hout := any_eq_false (hseen g List.mem_cons_self hself)
      have hstill : ∀ y∈gs,selfSigned d2i y=false → y.cert∉g.cert::seen := by
        intro y hy hplain hmem
        obtain hsame|hmem := List.mem_cons.mp hmem
        · exact hdiffer y hy hsame
        · exact hseen y (List.mem_cons_of_mem _ hy) hplain hmem
      have := ih (g.cert::seen) hrest hnodup.of_cons hstill
      simp only [bridges,hgparse,hself,hout,Bool.false_eq_true,or_self,if_false,List.mem_cons,this]
      constructor
      · intro h
        obtain rfl|h := h
        · exact ⟨Or.inl rfl,hself⟩
        · exact ⟨Or.inr h.1,h.2⟩
      · intro h
        obtain ⟨rfl|hx,hplain⟩ := h
        · exact Or.inl rfl
        · exact Or.inr ⟨hx,hplain⟩

/-- The certificates that count as seen are those of the CAs met. -/
def SeenOf (db : Inventory) (met : List String) (seen : List Octets) : Prop :=
  ∀ der,der∈seen ↔ ∃ id∈met,∃ g∈generations db id,g.cert=der

/-- The certificates of a CA that go on the wire. -/
def SentOf (d2i : Octets → Option X509Cert) (db : Inventory) (id : String) (der : Octets) : Prop :=
  ∃ g∈generations db id,selfSigned d2i g=false ∧ g.cert=der

section Step

variable {n : Nat} {met : List String} {seen chain : List Octets} {cur : X509Cert} {id : String}
variable {found : Row} (hcur : cur.selfSigned=false) (hseen : SeenOf db met seen)
variable (hfound : findIssuer d2i sameName now db cur=some (id,found))
include hcur hfound

omit hcur in
theorem Registry.named_found : (if id="" then [] else getCaChainDers now db id)=getCaChainDers now db id := by
  have hgen := findIssuer_mem hfound
  have hne := hreg.named found (registered_of_generation hgen)
  rw [(mem_generations.mp hgen).2.2] at hne
  exact if_neg fun hid => hne (congrArg some hid)

include hseen

omit hcur in
/-- The issuer was seen exactly when its CA was met. -/
theorem Registry.seen_iff : found.cert∈seen ↔ id∈met := by
  have hgen := findIssuer_mem hfound
  rw [hseen]
  constructor
  · intro h
    obtain ⟨id',hid',g,hg,hcert⟩ := h
    rw [hreg.id_eq hgen hg hcert.symm]
    exact hid'
  · intro h
    exact ⟨id,h,found,hgen,rfl⟩

omit hcur in
theorem Registry.fresh_generation (hnew : id∉met) {g : Row} (hg : g∈generations db id) :
    g.cert∈found.cert::seen ↔ g=found := by
  have hgen := findIssuer_mem hfound
  rw [List.mem_cons,hseen]
  constructor
  · intro h
    obtain hsame|⟨id',hid',g',hg',hcert⟩ := h
    · exact hreg.distinct g found (registered_of_generation hg) (registered_of_generation hgen) hsame
    · rw [← hreg.id_eq hg hg' hcert.symm] at hid'
      exact absurd hid' hnew
  · intro h
    exact Or.inl (by rw [h])

theorem Registry.walk_met (hmet : id∈met) :
    walk d2i sameName now db (n+1) cur seen chain=(chain,none) := by
  have hin := any_eq_iff.mpr ((hreg.seen_iff hseen hfound).mpr hmet)
  simp only [walk,hcur,Bool.false_eq_true,if_false,hfound,hin,if_true]

variable (n chain) in
theorem Registry.walk_root (hnew : id∉met) (hself : selfSigned d2i found=true) :
    (walk d2i sameName now db (n+1) cur seen chain).2=some found.cert ∧
      ∀ der,der∈(walk d2i sameName now db (n+1) cur seen chain).1 ↔ der∈chain ∨ SentOf d2i db id der := by
  have hout := any_eq_false (mt (hreg.seen_iff hseen hfound).mp hnew)
  have hparse : ∀ g∈getCaChainDers now db id,(d2i g.cert).isSome=true := fun g hg =>
    hreg.parses g (registered_of_generation (hreg.mem_chain.mp hg))
  have hunseen : ∀ g∈getCaChainDers now db id,selfSigned d2i g=false → g.cert∉found.cert::seen := by
    intro g hg hplain hmem
    rw [(hreg.fresh_generation hseen hfound hnew (hreg.mem_chain.mp hg)).mp hmem,hself] at hplain
    cases hplain
  simp only [walk,hcur,Bool.false_eq_true,if_false,hfound,hout,hself,if_true,hreg.named_found hfound]
  refine ⟨trivial,fun der => ?_⟩
  rw [List.mem_append,List.mem_map]
  apply or_congr_right
  constructor
  · intro h
    obtain ⟨g,hg,hcert⟩ := h
    obtain ⟨hmem,hplain⟩ := (mem_bridges _ _ hparse (hreg.certs_nodup id) hunseen g).mp hg
    exact ⟨g,hreg.mem_chain.mp hmem,hplain,hcert⟩
  · intro h
    obtain ⟨g,hg,hplain,hcert⟩ := h
    exact ⟨g,(mem_bridges _ _ hparse (hreg.certs_nodup id) hunseen g).mpr ⟨hreg.mem_chain.mpr hg,hplain⟩,
      hcert⟩

variable (n chain) in
/-- Past an intermediate CA the walk goes on from the certificate it leaves it by. -/
theorem Registry.walk_up (hnew : id∉met) (hself : selfSigned d2i found=false) :
    ∃ next seen' chain',walk d2i sameName now db (n+1) cur seen chain=
        walk d2i sameName now db n next seen' chain' ∧
      d2i (leaveBy d2i now db id found).cert=some next ∧ next.selfSigned=false ∧
      SeenOf db (id::met) seen' ∧ ∀ der,der∈chain' ↔ der∈chain ∨ SentOf d2i db id der := by
  have hgen := findIssuer_mem hfound
  have hout := any_eq_false (mt (hreg.seen_iff hseen hfound).mp hnew)
  have hparse : ∀ g∈getCaChainDers now db id,(d2i g.cert).isSome=true := fun g hg =>
    hreg.parses g (registered_of_generation (hreg.mem_chain.mp hg))
  obtain ⟨hsent,hall⟩ := gather_eq found (found.cert::seen) (getCaChainDers now db id) hparse
    (hreg.certs_nodup id) fun g hg => hreg.fresh_generation hseen hfound hnew (hreg.mem_chain.mp hg)
  have hleave := hreg.leaveBy_mem hgen hself
  obtain ⟨next,hnext⟩ := Option.isSome_iff_exists.mp
    (hreg.parses _ (registered_of_generation hleave.1))
  have hplain : next.selfSigned=false := by
    have := hleave.2
    simpa [selfSigned,hnext] using this
  refine ⟨next,(gather d2i (found.cert::seen) (getCaChainDers now db id)).1,
    chain++found.cert::(gather d2i (found.cert::seen) (getCaChainDers now db id)).2.map Row.cert,
    ?_,hnext,hplain,?_,?_⟩
  · simp only [walk,hcur,Bool.false_eq_true,if_false,hfound,hout,hself,hreg.named_found hfound]
    have hsame : (gather d2i (found.cert::seen) (getCaChainDers now db id)).2.getLast?.getD found=
        leaveBy d2i now db id found := by rw [hsent,leaveBy]
    rw [hsame,hnext]
  · intro der
    rw [hall,List.mem_cons,List.exists_mem_cons_iff,hseen]
    constructor
    · intro h
      obtain (rfl|h)|⟨g,hg,hcert⟩ := h
      · exact Or.inl ⟨found,hgen,rfl⟩
      · exact Or.inr h
      · exact Or.inl ⟨g,hreg.mem_chain.mp hg,hcert⟩
    · intro h
      obtain ⟨g,hg,hcert⟩|h := h
      · exact Or.inr ⟨g,hreg.mem_chain.mpr hg,hcert⟩
      · exact Or.inl (Or.inr h)
  · intro der
    rw [List.mem_append,List.mem_cons,List.mem_map,hsent]
    apply or_congr_right
    constructor
    · intro h
      obtain rfl|⟨g,hg,hcert⟩ := h
      · exact ⟨found,hgen,hself,rfl⟩
      · simp only [List.mem_filter,decide_eq_true_eq,Bool.not_eq_true'] at hg
        exact ⟨g,hreg.mem_chain.mp hg.1,hg.2.2,hcert⟩
    · intro h
      obtain ⟨g,hg,hgself,hcert⟩ := h
      by_cases hsame : g=found
      · exact Or.inl (by rw [← hcert,hsame])
      · refine Or.inr ⟨g,?_,hcert⟩
        simp only [List.mem_filter,decide_eq_true_eq,Bool.not_eq_true']
        exact ⟨hreg.mem_chain.mpr hg,hsame,hgself⟩

end Step

omit hreg in
/-- The first stair, where the issuer of the certificate is known. -/
theorem Stairs.first {met ids : List String} {cur : X509Cert} {n : Nat} {id : String} {found top : Row}
    (hfound : findIssuer d2i sameName now db cur=some (id,found))
    (h : Stairs d2i sameName now db met cur (n+1) ids top) : id∉met ∧
      ((selfSigned d2i found=true ∧ ids=[id] ∧ top=found) ∨
      (selfSigned d2i found=false ∧ ∃ next rest,d2i (leaveBy d2i now db id found).cert=some next ∧
        ids=id::rest ∧ Stairs d2i sameName now db (id::met) next n rest top)) := by
  cases h with
  | root hf hnew hself =>
    obtain ⟨rfl,rfl⟩ := Prod.mk.inj (Option.some.inj (hfound.symm.trans hf))
    exact ⟨hnew,Or.inl ⟨hself,rfl,rfl⟩⟩
  | up hf hnew hself hleave hrest =>
    obtain ⟨rfl,rfl⟩ := Prod.mk.inj (Option.some.inj (hfound.symm.trans hf))
    exact ⟨hnew,Or.inr ⟨hself,_,_,hleave,rfl,hrest⟩⟩

/-- What a walk from `cur` returns: it sends no anchor, and it has one exactly where there are stairs,
when it has sent the intermediates of the CAs on them. -/
structure Walked (d2i : Octets → Option X509Cert) (sameName : Name → Name → Bool) (now : Int)
    (db : Inventory) (met : List String) (cur : X509Cert) (n : Nat) (chain : List Octets)
    (out : List Octets × Option Octets) : Prop where
  sent : ∀ der∈out.1,der∈chain ∨ ∃ id,SentOf d2i db id der
  anchored : ∀ der,out.2=some der → ∃ ids top,Stairs d2i sameName now db met cur n ids top ∧ top.cert=der
  climbed : ∀ ids top,Stairs d2i sameName now db met cur n ids top →
    out.2=some top.cert ∧ ∀ der,der∈out.1 ↔ der∈chain ∨ ∃ id∈ids,SentOf d2i db id der

omit hreg in
theorem Walked.stop {met : List String} {cur : X509Cert} {n : Nat} {chain : List Octets}
    (h : ∀ ids top,¬Stairs d2i sameName now db met cur n ids top) :
    Walked d2i sameName now db met cur n chain (chain,none) where
  sent := fun _ hder => Or.inl hder
  anchored := by
    intro der hder
    cases hder
  climbed := fun ids top hstairs => absurd hstairs (h ids top)

theorem Registry.walked (n : Nat) {met : List String} {seen : List Octets} (chain : List Octets)
    {cur : X509Cert} (hcur : cur.selfSigned=false) (hseen : SeenOf db met seen) :
    Walked d2i sameName now db met cur n chain (walk d2i sameName now db n cur seen chain) := by
  induction n generalizing met seen chain cur with
  | zero =>
    apply Walked.stop
    intro ids top h
    cases h
  | succ n ih =>
    cases hfound : findIssuer d2i sameName now db cur with
    | none =>
      simp only [walk,hcur,Bool.false_eq_true,if_false,hfound]
      apply Walked.stop
      intro ids top h
      cases h <;> simp_all
    | some p =>
      obtain ⟨id,found⟩ := p
      by_cases hmet : id∈met
      · rw [hreg.walk_met hcur hseen hfound hmet]
        apply Walked.stop
        intro ids top h
        exact (h.first hfound).1 hmet
      · cases hself : selfSigned d2i found with
        | true =>
          obtain ⟨hanchor,hchain⟩ := hreg.walk_root n chain hcur hseen hfound hmet hself
          refine ⟨?_,?_,?_⟩
          · intro der h
            exact ((hchain der).mp h).imp_right fun h => ⟨id,h⟩
          · intro der h
            rw [hanchor] at h
            exact ⟨[id],found,.root hfound hmet hself,Option.some.inj h⟩
          · intro ids top h
            obtain ⟨_,⟨_,rfl,rfl⟩|⟨hplain,_⟩⟩ := h.first hfound
            · refine ⟨hanchor,fun der => (hchain der).trans ?_⟩
              simp
            · rw [hself] at hplain
              cases hplain
        | false =>
          obtain ⟨next,seen',chain',hwalk,hnext,hplain,hseen',hchain⟩ :=
            hreg.walk_up n chain hcur hseen hfound hmet hself
          have hrest := ih chain' hplain hseen'
          rw [hwalk]
          refine ⟨?_,?_,?_⟩
          · intro der h
            obtain h|h := hrest.sent der h
            · exact ((hchain der).mp h).imp_right fun h => ⟨id,h⟩
            · exact Or.inr h
          · intro der h
            obtain ⟨ids,top,htop,hcert⟩ := hrest.anchored der h
            exact ⟨id::ids,top,.up hfound hmet hself hnext htop,hcert⟩
          · intro ids top h
            obtain ⟨_,⟨hroot,_⟩|⟨_,next',rest,hleave,rfl,hstairs⟩⟩ := h.first hfound
            · rw [hself] at hroot
              cases hroot
            · obtain rfl := Option.some.inj (hnext.symm.trans hleave)
              obtain ⟨hanchor,hmem⟩ := hrest.climbed rest top hstairs
              refine ⟨hanchor,fun der => ?_⟩
              rw [hmem der,hchain der,List.exists_mem_cons_iff,or_assoc]

end Walk

theorem Stairs.top {d2i : Octets → Option X509Cert} {sameName : Name → Name → Bool} {now : Int}
    {db : Inventory} {met ids : List String} {cur : X509Cert} {n : Nat} {top : Row}
    (h : Stairs d2i sameName now db met cur n ids top) : Registered db top ∧ selfSigned d2i top=true := by
  induction h with
  | root hf _ hself => exact ⟨registered_of_generation (findIssuer_mem hf),hself⟩
  | up _ _ _ _ _ ih => exact ih

/-- The chain of a leaf is complete exactly when there are stairs from the leaf to a root, and a path from
the leaf to that root leads through the CAs on the stairs. -/
theorem issuer_chain_complete_iff (d2i : Octets → Option X509Cert) (sameName : Name → Name → Bool)
    (issued : X509Cert → X509Cert → Bool) (now : Int) (db : Inventory) (hreg : Registry d2i now db)
    (leaf : X509Cert) : Complete d2i sameName now db issued leaf ↔
    leaf.selfSigned=false ∧ ∃ ids root,Stairs d2i sameName now db [] leaf 8 ids root ∧
      ∃ path,path.length≤7 ∧ PathTo d2i issued leaf path root ∧
        ∀ g∈path,selfSigned d2i g=false ∧ ∃ id∈ids,g∈generations db id := by
  have hnone : SeenOf db [] [] := by simp [SeenOf]
  simp only [Complete,buildIssuerChain]
  cases hleaf : leaf.selfSigned with
  | true => simp [walk,hleaf]
  | false =>
    have hwalk : Walked d2i sameName now db [] leaf 8 [] (walk d2i sameName now db 8 leaf [] []) :=
      hreg.walked 8 [] hleaf hnone
    constructor
    · intro h
      obtain ⟨_,path,root,hlen,hpath,hmem,hroot,_,hanchor⟩ := h
      obtain ⟨ids,top,htop,hcert⟩ := hwalk.anchored root.cert hanchor
      obtain rfl := hreg.distinct top root htop.top.1 hroot hcert
      refine ⟨rfl,ids,top,htop,path,hlen,hpath,fun g hg => ?_⟩
      obtain ⟨hgreg,hplain,hin⟩ := hmem g hg
      obtain hnil|⟨id,hid,g',hg',_,hsame⟩ := ((hwalk.climbed ids top htop).2 g.cert).mp hin
      · cases hnil
      · obtain rfl := hreg.distinct g' g (registered_of_generation hg') hgreg hsame
        exact ⟨hplain,id,hid,hg'⟩
    · intro h
      obtain ⟨_,ids,root,htop,path,hlen,hpath,hmem⟩ := h
      obtain ⟨hanchor,hchain⟩ := hwalk.climbed ids root htop
      refine ⟨fun der hder => ?_,path,root,hlen,hpath,fun g hg => ?_,htop.top.1,htop.top.2,hanchor⟩
      · obtain hnil|⟨id,g,_,hplain,hcert⟩ := hwalk.sent der hder
        · cases hnil
        · rw [← hcert]
          exact hplain
      · obtain ⟨hplain,id,hid,hgen⟩ := hmem g hg
        exact ⟨registered_of_generation hgen,hplain,(hchain g.cert).mpr (Or.inr ⟨id,hid,g,hgen,hplain,rfl⟩)⟩

/-- The certificate for the name and key `s` and `k`, under the name and key `i` and `j`. -/
def certFor (s k i j : UInt8) : X509Cert :=
  ⟨[⟨commonName,⟨.utf8,[s]⟩⟩],[⟨commonName,⟨.utf8,[i]⟩⟩],1,[k],some [k],some [j],true,s = i ∧ k = j⟩

/-- Four octets stand for a certificate. -/
def readCert : Octets → Option X509Cert
  | [s,k,i,j] => some (certFor s k i j)
  | _ => none

/-- The names agree, and the key identifiers that tell the keys apart. -/
def issuedBy (c issuer : X509Cert) : Bool := c.issuer = issuer.subject ∧ c.akid = issuer.skid

def equalNames (a b : Name) : Bool := a = b

def generationRow (n : Int) (id : String) (der : Octets) : Row where
  status := some 0
  revocationReason := some 0
  revocationDate := some 0
  notAfter := some 5000
  serial := id++toString n
  notBefore := some n
  owner := ""
  cert := der
  caInstanceId := some id
  sHash := none
  iHash := none
  isCa := true
  id := some id
  caEnabled := some true
  privateKey := ""
  certId := none
  insSeq := some n

/-- A root; a subordinate CA that it certified; and the certificate of the next key of that CA, which
its first key signed. -/
def rekeyedRows : List Row :=
  [generationRow 1 "root" [1,1,1,1],generationRow 2 "sub" [2,2,1,1],generationRow 3 "sub" [2,3,2,2]]

theorem rekeyedRows_distinct : (rekeyedRows.map Row.serial).Nodup := by decide

def rekeyed : Inventory := ⟨rekeyedRows,rekeyedRows_distinct⟩

/-- A root, and the certificate of its next key, which its first key signed. -/
def bridgedRows : List Row := [generationRow 1 "root" [1,1,1,1],generationRow 2 "root" [1,2,1,1]]

theorem bridgedRows_distinct : (bridgedRows.map Row.serial).Nodup := by decide

def bridged : Inventory := ⟨bridgedRows,bridgedRows_distinct⟩

theorem registry_of_rows {db : Inventory} (h : ∀ r∈db.rows,r.id≠some "" ∧ live 1000 r=true ∧ r.cert≠[] ∧
    (readCert r.cert).isSome=true ∧ ∀ r'∈db.rows,r.cert=r'.cert → r=r') : Registry readCert 1000 db where
  named := fun r hr => (h r hr.1).1
  valid := fun r hr => (h r hr.1).2.1
  cert := fun r hr => (h r hr.1).2.2.1
  parses := fun r hr => (h r hr.1).2.2.2.1
  distinct := fun r r' hr hr' => (h r hr.1).2.2.2.2 r' hr'.1

/-- A leaf of the new key of the subordinate CA. -/
theorem issuer_chain_complete_rekeyed : Registry readCert 1000 rekeyed ∧
    Complete readCert equalNames 1000 rekeyed issuedBy (certFor 9 9 2 3) := by
  have hreg : Registry readCert 1000 rekeyed := registry_of_rows (by decide)
  have hfirst : findIssuer readCert equalNames 1000 rekeyed (certFor 9 9 2 3)=
      some ("sub",generationRow 3 "sub" [2,3,2,2]) := by decide
  have hsecond : findIssuer readCert equalNames 1000 rekeyed (certFor 2 2 1 1)=
      some ("root",generationRow 1 "root" [1,1,1,1]) := by decide
  have hleave : readCert (leaveBy readCert 1000 rekeyed "sub" (generationRow 3 "sub" [2,3,2,2])).cert=
      some (certFor 2 2 1 1) := by decide
  refine ⟨hreg,(issuer_chain_complete_iff readCert equalNames issuedBy 1000 rekeyed hreg _).mpr
    ⟨by decide,["sub","root"],generationRow 1 "root" [1,1,1,1],?_,
      [generationRow 3 "sub" [2,3,2,2],generationRow 2 "sub" [2,2,1,1]],by decide,?_,by decide⟩⟩
  · exact .up hfirst (by decide) (by decide) hleave (.root hsecond (by decide) (by decide))
  · exact ⟨certFor 2 3 2 2,rfl,by decide,certFor 2 2 1 1,rfl,by decide,rfl⟩

/-- A leaf of the old key of the subordinate CA: the walk goes on from the certificate of the new key,
whose issuer it has sent. A leaf of the new key of a root: the old root counts as seen once the CA is
met. Neither gets an anchor. -/
theorem issuer_chain_misses_root :
    (Registry readCert 1000 rekeyed ∧
      PathTo readCert issuedBy (certFor 9 9 2 2) [generationRow 2 "sub" [2,2,1,1]]
        (generationRow 1 "root" [1,1,1,1]) ∧
      ¬Complete readCert equalNames 1000 rekeyed issuedBy (certFor 9 9 2 2)) ∧
    Registry readCert 1000 bridged ∧
      PathTo readCert issuedBy (certFor 9 9 1 2) [generationRow 2 "root" [1,2,1,1]]
        (generationRow 1 "root" [1,1,1,1]) ∧
      ¬Complete readCert equalNames 1000 bridged issuedBy (certFor 9 9 1 2) := by
  have hrekeyed : (buildIssuerChain readCert equalNames 1000 rekeyed (certFor 9 9 2 2)).2=none := by decide
  have hbridged : (buildIssuerChain readCert equalNames 1000 bridged (certFor 9 9 1 2)).2=none := by decide
  refine ⟨⟨registry_of_rows (by decide),⟨certFor 2 2 1 1,rfl,by decide,rfl⟩,?_⟩,
    registry_of_rows (by decide),⟨certFor 1 2 1 1,rfl,by decide,rfl⟩,?_⟩
  · intro h
    obtain ⟨_,_,_,_,_,_,_,_,hanchor⟩ := h
    rw [hrekeyed] at hanchor
    cases hanchor
  · intro h
    obtain ⟨_,_,_,_,_,_,_,_,hanchor⟩ := h
    rw [hbridged] at hanchor
    cases hanchor

end FastPki.Ca

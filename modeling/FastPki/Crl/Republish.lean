import FastPki.Crl.Publish
import FastPki.Framework.Digest
import FastPki.X509.Name

namespace FastPki.Crl
open Certs Tls X509

/-- An entry of a parsed CRL, with the reason of its CRLReason extension if it has one. -/
@[ext] structure ListedEntry where
  serial : Int
  reason : Option Int
  deriving DecidableEq

/-- What `d2i_X509_CRL` makes of octets. -/
structure ParsedCrl where
  entries : List ListedEntry
  thisUpdate : Int
  nextUpdate : Option Int
  crlNumber : Option Int
  deriving DecidableEq

/-- A row of `crls` with its octets. -/
structure CrlRow where
  der : Octets
  crlNumber : Int
  thisUpdate : Int
  nextUpdate : Int
  importedBy : String
  deriving DecidableEq

section Code

variable (d2i : Octets → Option ParsedCrl)

def ListedEntry.text (e : ListedEntry) : String :=
  bnBn2hex e.serial++":"++(e.reason.map toString).getD ""++","

/-- `crl_revocation_fingerprint` of these entries. -/
def entriesText (es : List ListedEntry) : String := String.join (es.map ListedEntry.text)

/-- `d2i_X509_CRL` where there are octets. -/
def parse (der : Octets) : Option ParsedCrl := if der = [] then none else d2i der

/-- Empty for octets that do not parse. -/
def revocationFingerprint (der : Octets) : String :=
  ((parse d2i der).map fun crl => entriesText crl.entries).getD ""

def sameContent (stored der : Octets) : Bool :=
  revocationFingerprint d2i stored ≠ "" ∧
    revocationFingerprint d2i stored = revocationFingerprint d2i der

def CrlRow.stillFresh (row : CrlRow) (now : Int) : Bool :=
  row.nextUpdate > 0 ∧ row.thisUpdate > 0 ∧
    now < row.thisUpdate+(row.nextUpdate-row.thisUpdate).tdiv 2

/-- Whether the row is written anew. -/
def writes (stored : Option CrlRow) (der : Octets) (now : Int) : Bool :=
  match stored with
  | some row => row.der = [] || !(sameContent d2i row.der der && row.stillFresh now)
  | none => true

/-- `publish_generated_crl` for a CA at this time: the row it writes, if it writes one. -/
def publishGeneratedCrl (datacenterId : String) (stored : Option CrlRow) (caId : String)
    (der : Octets) (now : Int) : Option CrlRow :=
  if caId = "" ∨ der = [] then none
  else if !writes d2i stored der now then none
  else (d2i der).map fun crl =>
    ⟨der,crl.crlNumber.getD 0,crl.thisUpdate,crl.nextUpdate.getD 0,
      if datacenterId = "" then "generated" else "generated:"++datacenterId⟩

end Code

section Text

/-- What stands before the first separator is read back. -/
theorem append_cons_inj {α : Type} {a b x y : List α} {c : α} (ha : c∉a) (hb : c∉b)
    (h : a++c::x=b++c::y) : a=b ∧ x=y := by
  induction a generalizing b with
  | nil =>
    cases b with
    | nil => exact ⟨rfl,(List.cons.inj h).2⟩
    | cons d b => exact absurd (List.cons.inj h).1 fun hd => hb (by simp [hd])
  | cons d a ih =>
    cases b with
    | nil => exact absurd (List.cons.inj h).1.symm fun hd => ha (by simp [hd])
    | cons e b =>
      obtain ⟨rfl,htail⟩ := List.cons.inj h
      obtain ⟨rfl,hrest⟩ := ih (fun hm => ha (List.mem_cons_of_mem _ hm))
        (fun hm => hb (List.mem_cons_of_mem _ hm)) htail
      exact ⟨rfl,hrest⟩

theorem bnBn2hex_injective {m n : Int} (h : bnBn2hex m=bnBn2hex n) : m=n := by
  apply serialHex_injective
  rw [serialHex,serialHex,h]

/-- A number is printed in digits and a sign. -/
theorem notMem_bnBn2hex {c : Char} (hlower : c.toLower=c) (hdigit : hexDigit c=none)
    (hsign : c≠ '-') (n : Int) : c∉(bnBn2hex n).toList := by
  intro hc
  have hmem : c∈(bnBn2hex n).toList.map Char.toLower := List.mem_map.mpr ⟨c,hc,hlower⟩
  obtain ⟨l,_,hhex,_,hlist⟩ := bnBn2hex_toList n
  have hl : c∉l := fun hm => by simpa [hdigit] using hhex c hm
  rw [hlist] at hmem
  split_ifs at hmem
  · rcases List.mem_cons.mp hmem with rfl|hm
    · exact hsign rfl
    · exact hl hm
  · exact hl hmem

theorem notMem_toString {c : Char} (hdigit : c.isDigit=false) (hsign : c≠ '-') (n : Int) :
    c∉(toString n).toList := by
  have hnat : ∀ m : Nat,c∉(Nat.repr m).toList := by
    intro m hc
    rw [Nat.toList_repr] at hc
    have hd := Nat.isDigit_of_mem_toDigits (by decide) (by decide) hc
    rw [hdigit] at hd
    cases hd
  intro hc
  cases n with
  | ofNat m => exact hnat m hc
  | negSucc m =>
    change c∈("-"++Nat.repr (m+1)).toList at hc
    rw [String.toList_append] at hc
    rcases List.mem_append.mp hc with hm|hm
    · exact hsign (by simpa using hm)
    · exact hnat _ hm

theorem reasonText_injective {r s : Option Int}
    (h : (r.map toString).getD ""=(s.map toString).getD "") : r=s := by
  have hne : ∀ n : Int,toString n≠"" := by
    intro n hn
    have hback : Int.repr n="" := hn
    cases n with
    | ofNat m =>
      have hlist := congrArg String.toList hback
      change (Nat.repr m).toList=[] at hlist
      rw [Nat.toList_repr] at hlist
      exact Nat.toDigits_ne_nil hlist
    | negSucc m =>
      have hlist := congrArg String.toList hback
      change ("-"++Nat.repr (m+1)).toList=[] at hlist
      rw [String.toList_append] at hlist
      exact absurd (List.append_eq_nil_iff.mp hlist).1 (by decide)
  cases r with
  | none =>
    cases s with
    | none => rfl
    | some n => exact absurd h.symm (hne n)
  | some m =>
    cases s with
    | none => exact absurd h (hne m)
    | some n => rw [Int.repr_injective h]

theorem text_toList (e : ListedEntry) : e.text.toList=
    (bnBn2hex e.serial).toList++ ':'::(((e.reason.map toString).getD "").toList++[',']) := by
  simp [ListedEntry.text]

/-- An entry is read back from the front of what follows it. -/
theorem text_append_inj {d e : ListedEntry} {x y : List Char}
    (h : d.text.toList++x=e.text.toList++y) : d=e ∧ x=y := by
  simp only [text_toList,List.append_assoc,List.cons_append,List.nil_append] at h
  have hcolon : ∀ n,':'∉(bnBn2hex n).toList :=
    notMem_bnBn2hex (by decide) (by decide) (by decide)
  obtain ⟨hserial,h⟩ := append_cons_inj (hcolon _) (hcolon _) h
  have hcomma : ∀ r : Option Int,','∉((r.map toString).getD "").toList := by
    intro r
    cases r with
    | none => simp
    | some n => exact notMem_toString (by decide) (by decide) n
  obtain ⟨hreason,hrest⟩ := append_cons_inj (hcomma _) (hcomma _) h
  refine ⟨?_,hrest⟩
  apply ListedEntry.ext
  · exact bnBn2hex_injective (String.toList_inj.mp hserial)
  · exact reasonText_injective (String.toList_inj.mp hreason)

theorem entriesText_toList (es : List ListedEntry) :
    (entriesText es).toList=es.flatMap fun e => e.text.toList := by
  rw [entriesText,String.toList_join,List.flatMap_map]

/-- The fingerprint is the sequence of the entries. -/
theorem entriesText_injective {ds es : List ListedEntry} (h : entriesText ds=entriesText es) :
    ds=es := by
  have hlist := congrArg String.toList h
  rw [entriesText_toList,entriesText_toList] at hlist
  have hne : ∀ (e : ListedEntry) (x : List Char),e.text.toList++x≠[] := by
    intro e x
    rw [text_toList]
    simp
  clear h
  induction ds generalizing es with
  | nil =>
    cases es with
    | nil => rfl
    | cons e es => exact absurd hlist.symm (hne e _)
  | cons d ds ih =>
    cases es with
    | nil => exact absurd hlist (hne d _)
    | cons e es =>
      rw [List.flatMap_cons,List.flatMap_cons] at hlist
      obtain ⟨rfl,hrest⟩ := text_append_inj hlist
      rw [ih hrest]

theorem entriesText_eq_empty_iff {es : List ListedEntry} : entriesText es="" ↔ es=[] := by
  constructor
  · intro h
    exact entriesText_injective (h.trans rfl)
  · rintro rfl
    rfl

end Text

section Publish

/-- What the two CRLs say: a reason that is not given is unspecified. -/
def ListedEntry.says (e : ListedEntry) : Int × Int := (e.serial,e.reason.getD 0)

/-- Both list the same serials with the same reasons. -/
def SameEntries (old new : ParsedCrl) : Prop :=
  ∀ p,p∈old.entries.map ListedEntry.says ↔ p∈new.entries.map ListedEntry.says

/-- The same entries stand in both: the stored CRL is in force and before the middle of its
validity, and the new one lists nothing else. -/
structure Unchanged (d2i : Octets → Option ParsedCrl) (row : CrlRow) (der : Octets) (now : Int)
    (old new : ParsedCrl) : Prop where
  stored : parse d2i row.der=some old
  fresh : row.stillFresh now=true
  generated : parse d2i der=some new
  same : SameEntries old new

theorem parse_eq_some_iff {d2i : Octets → Option ParsedCrl} {der : Octets} {crl : ParsedCrl} :
    parse d2i der=some crl ↔ der≠[] ∧ d2i der=some crl := by
  rw [parse]
  split_ifs with hempty
  · simp [hempty]
  · simp [hempty]

/-- Nothing is written where the fingerprints agree and are not empty. -/
theorem publish_eq_none_iff {d2i : Octets → Option ParsedCrl} {row : CrlRow} {der : Octets}
    {now : Int} {old new : ParsedCrl} (hold : parse d2i row.der=some old)
    (hfresh : row.stillFresh now=true) (hnew : parse d2i der=some new) (datacenterId caId : String) :
    publishGeneratedCrl d2i datacenterId (some row) caId der now=none ↔
      caId="" ∨ (entriesText old.entries≠"" ∧ entriesText old.entries=entriesText new.entries) := by
  obtain ⟨hder,hd2i⟩ := parse_eq_some_iff.mp hnew
  obtain ⟨hrow,_⟩ := parse_eq_some_iff.mp hold
  have hprint : ∀ (z : Octets) (crl : ParsedCrl),parse d2i z=some crl →
      revocationFingerprint d2i z=entriesText crl.entries := by
    intro z crl hz
    rw [revocationFingerprint,hz]
    rfl
  have hwrites : writes d2i (some row) der now=false ↔
      entriesText old.entries≠"" ∧ entriesText old.entries=entriesText new.entries := by
    rw [writes,sameContent,hprint _ _ hold,hprint _ _ hnew,hfresh]
    simp [hrow]
  rw [publishGeneratedCrl,hd2i]
  by_cases hca : caId=""
  · simp [hca]
  · rw [if_neg (by simp [hca,hder])]
    by_cases hw : writes d2i (some row) der now=false
    · rw [if_pos (by simp [hw])]
      exact iff_of_true rfl (Or.inr (hwrites.mp hw))
    · rw [if_neg (by simpa using hw)]
      refine iff_of_false (by simp) ?_
      rintro (h|h)
      · exact hca h
      · exact hw (hwrites.mpr h)

/-- Where nothing changed, nothing is written exactly for CRLs that list something, in the same order
and with the same extensions. -/
theorem unchanged_crl_kept_iff (d2i : Octets → Option ParsedCrl) (datacenterId caId : String)
    (row : CrlRow) (der : Octets) (now : Int) (old new : ParsedCrl)
    (h : Unchanged d2i row der now old new) :
    publishGeneratedCrl d2i datacenterId (some row) caId der now=none ↔
      caId="" ∨ (old.entries≠[] ∧ old.entries=new.entries) := by
  rw [publish_eq_none_iff h.stored h.fresh h.generated]
  refine or_congr Iff.rfl (and_congr entriesText_eq_empty_iff.not ?_)
  constructor
  · exact entriesText_injective
  · intro heq
    rw [heq]

end Publish

section Generated

def Entry.listed (e : Entry) : ListedEntry :=
  ⟨e.serial,if e.reason = 0 then none else some e.reason⟩

/-- What is read back from a CRL that was generated. -/
def CrlDoc.parsed (crl : CrlDoc) : ParsedCrl :=
  ⟨crl.entries.map Entry.listed,crl.thisUpdate,some crl.nextUpdate,some crl.number⟩

/-- For generated CRLs the decision is the one of the concurrent model. -/
theorem writes_eq_replaces {d2i : Octets → Option ParsedCrl} {row : CrlRow} {der : Octets}
    {old new : CrlDoc} (hold : parse d2i row.der=some old.parsed)
    (hnew : parse d2i der=some new.parsed) (now : Int) :
    writes d2i (some row) der now=
      replaces (some ⟨some old,row.crlNumber,row.thisUpdate,row.nextUpdate,row.importedBy⟩) new
        now := by
  have hprint : ∀ (z : Octets) (crl : CrlDoc),parse d2i z=some crl.parsed →
      revocationFingerprint d2i z=crlRevocationFingerprint crl := by
    intro z crl hz
    rw [revocationFingerprint,hz]
    simp only [Option.map_some,Option.getD_some,entriesText,CrlDoc.parsed,List.map_map,
      crlRevocationFingerprint]
    congr 1
    refine List.map_congr_left fun e _ => ?_
    simp only [Function.comp_apply,ListedEntry.text,Entry.listed]
    split_ifs
    · rfl
    · rfl
  obtain ⟨hrow,_⟩ := parse_eq_some_iff.mp hold
  rw [writes,sameContent,hprint _ _ hold,hprint _ _ hnew,replaces]
  simp [hrow,CrlRow.stillFresh]

def noCerts : Inventory := ⟨[],List.nodup_nil⟩

/-- The CRLs of a CA with nothing revoked, at 1000000 and 300 seconds later. -/
def quietD2i : Octets → Option ParsedCrl
  | [0x30,0x00] => some (generateCrl 7 noCerts "sub" 1000000 0).parsed
  | [0x30,0x01] => some (generateCrl 7 noCerts "sub" 1000300 0).parsed
  | _ => none

def quietRow : CrlRow := ⟨[0x30,0x00],1000000,999700,1604800,"generated"⟩

/-- The stored empty CRL is replaced by an empty one. -/
theorem quiet_ca_rewritten :
    Unchanged quietD2i quietRow [0x30,0x01] 1000300 (generateCrl 7 noCerts "sub" 1000000 0).parsed
        (generateCrl 7 noCerts "sub" 1000300 0).parsed ∧
      publishGeneratedCrl quietD2i "" (some quietRow) "sub" [0x30,0x01] 1000300=
        some ⟨[0x30,0x01],1000300,1000000,1605100,"generated"⟩ := by
  refine ⟨⟨rfl,by decide,rfl,fun p => Iff.rfl⟩,by decide⟩

/-- The CRLs of a CA that has revoked one certificate. -/
def oneRevoked : Inventory := (oneLeaf.revokeCert (serialHex 31) 1 999000).1

def busyD2i : Octets → Option ParsedCrl
  | [0x30,0x00] => some (generateCrl 7 oneRevoked "sub" 1000000 0).parsed
  | [0x30,0x01] => some (generateCrl 7 oneRevoked "sub" 1000300 0).parsed
  | _ => none

theorem unchanged_crl_kept_one :
    Unchanged busyD2i quietRow [0x30,0x01] 1000300
        (generateCrl 7 oneRevoked "sub" 1000000 0).parsed
        (generateCrl 7 oneRevoked "sub" 1000300 0).parsed ∧
      publishGeneratedCrl busyD2i "" (some quietRow) "sub" [0x30,0x01] 1000300=none := by
  have h : Unchanged busyD2i quietRow [0x30,0x01] 1000300
      (generateCrl 7 oneRevoked "sub" 1000000 0).parsed
      (generateCrl 7 oneRevoked "sub" 1000300 0).parsed :=
    ⟨rfl,by decide,rfl,fun p => Iff.rfl⟩
  refine ⟨h,(unchanged_crl_kept_iff busyD2i "" "sub" quietRow _ _ _ _ h).mpr (Or.inr ⟨?_,rfl⟩)⟩
  decide

end Generated

end FastPki.Crl

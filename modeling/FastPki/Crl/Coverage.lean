import FastPki.Crl.Publish

namespace FastPki.Crl
open X509 Certs

/-- `issuer` is who signed each certificate of the table, by the id of a registered CA, and the
columns tell so: CAs of different ids have different subjects, a leaf carries the id of its
issuer, and a CA row the subject hash of its issuer. -/
structure Issuance (db : Inventory) (issuer : Row → Option String) : Prop where
  subjects : ∀ x y h,h∈caSubjects db x → h∈caSubjects db y → x=y
  leaf : ∀ row∈db.rows,row.isCa=false → row.caInstanceId=issuer row
  ca : ∀ row∈db.rows,row.isCa=true → ∀ y,issuer row=some y → ∃ h∈caSubjects db y,row.iHash=some h
  foreign : ∀ row∈db.rows,row.isCa=true → issuer row=none → ∀ y,∀ h∈caSubjects db y,row.iHash≠some h

/-- The same, row by row, where every issuer is registered. -/
theorem Issuance.of_rows {db : Inventory} {issuer : Row → Option String}
    (hsubjects : ∀ p∈db.rows,∀ q∈db.rows,p.isCa=true → q.isCa=true → p.id.isSome → q.id.isSome →
      p.sHash.isSome → p.sHash=q.sHash → p.id=q.id)
    (hleaf : ∀ row∈db.rows,row.isCa=false → row.caInstanceId=issuer row)
    (hca : ∀ row∈db.rows,row.isCa=true → row.iHash.isSome ∧ (issuer row).isSome ∧
      ∃ p∈db.rows,p.isCa=true ∧ p.id=issuer row ∧ p.sHash=row.iHash) : Issuance db issuer where
  subjects x y h hx hy := by
    obtain ⟨p,hp,hpca,hpid,hph⟩ := mem_caSubjects.mp hx
    obtain ⟨q,hq,hqca,hqid,hqh⟩ := mem_caSubjects.mp hy
    have hid := hsubjects p hp q hq hpca hqca (by simp [hpid]) (by simp [hqid]) (by simp [hph])
      (hph.trans hqh.symm)
    rw [hpid,hqid] at hid
    exact Option.some.inj hid
  leaf := hleaf
  ca row hrow hisCa y hy := by
    obtain ⟨hhash,_,p,hp,hpca,hpid,hph⟩ := hca row hrow hisCa
    obtain ⟨h,hh⟩ := Option.isSome_iff_exists.mp hhash
    exact ⟨h,mem_caSubjects.mpr ⟨p,hp,hpca,hpid.trans hy,hph.trans hh⟩,hh⟩
  foreign row hrow hisCa hnone := by
    have hsome := (hca row hrow hisCa).2.1
    rw [hnone] at hsome
    cases hsome

/-- No row of this CA is issued by a CA registered under another id. -/
def Root (db : Inventory) (issuer : Row → Option String) (y : String) : Prop :=
  ∀ row∈db.rows,row.isCa=true → row.id=some y → ∀ z,issuer row=some z → z=y

section Issuance

variable {db : Inventory} {issuer : Row → Option String} (h : Issuance db issuer)
include h

theorem Issuance.issuer_of_hash {row : Row} (hrow : row∈db.rows) (hca : row.isCa=true) {x : String}
    {hash : Octets} (hmem : hash∈caSubjects db x) (hi : row.iHash=some hash) :
    issuer row=some x := by
  cases hiss : issuer row with
  | none => exact absurd hi (h.foreign row hrow hca hiss x hash hmem)
  | some y =>
    obtain ⟨hash',hmem',hi'⟩ := h.ca row hrow hca y hiss
    obtain rfl := Option.some.inj (hi.symm.trans hi')
    rw [h.subjects x y hash hmem hmem']

theorem Issuance.hasParent {x : String} (hroot : ¬Root db issuer x) : hasParent db x=true := by
  simp only [Root,not_forall] at hroot
  obtain ⟨g,hg,hca,hid,z,hz,hne⟩ := hroot
  obtain ⟨hash,hmem,hi⟩ := h.ca g hg hca z hz
  exact hasParent_iff.mpr ⟨z,hash,hne,hmem,g,hg,hid,hca,hi⟩

/-- The membership rule of `crl_rows` finds the issuer of every row but those of a root. -/
theorem Issuance.covered_iff_issuer {row : Row} (hrow : row∈db.rows)
    (hroot : ∀ y,row.id=some y → ¬Root db issuer y) (x : String) :
    covered db x row=true ↔ issuer row=some x := by
  rw [covered_iff]
  cases hca : row.isCa with
  | false => simp [h.leaf row hrow hca]
  | true =>
    simp only [Bool.true_eq_false,false_and,true_and,false_or]
    constructor
    · intro hcov
      obtain ⟨⟨hash,hmem,hi⟩,_⟩ := hcov
      exact h.issuer_of_hash hrow hca hmem hi
    · intro hiss
      refine ⟨h.ca row hrow hca x hiss,?_⟩
      by_cases hid : row.id=some x
      · exact Or.inr (h.hasParent (hroot x hid))
      · exact Or.inl hid

end Issuance

/-- A revoked certificate, unless it carries the id of a root, is on the CRL of the CA that issued
it and on no other. -/
theorem revoked_listed_iff_issuer (db : Inventory) (issuer : Row → Option String)
    (h : Issuance db issuer) (row : Row) (hrow : row∈db.rows) (hrev : row.status=some (-1))
    (hroot : ∀ y,row.id=some y → ¬Root db issuer y) (x : String) :
    (∃ rc∈getRevokedCerts db x,rc.serialHex=row.serial) ↔ issuer row=some x := by
  rw [← h.covered_iff_issuer hrow hroot x]
  constructor
  · intro hlisted
    obtain ⟨rc,hrc,hserial⟩ := hlisted
    obtain ⟨row',hrow',_,hcov,rfl⟩ := mem_crlRows.mp hrc
    rwa [← db.eq_of_key hrow' hrow hserial]
  · intro hcov
    refine ⟨_,mem_crlRows.mpr ⟨row,hrow,?_,hcov,rfl⟩,rfl⟩
    simp [revoked,hrev]

/-- A CA certificate of this serial number, under the id of its CA, with the octets that stand
for the hashes of its subject and of its issuer. -/
def caRow (n : Int) (id : Option String) (subject issuer : Octets) : Row :=
  { leafRow n with
    caInstanceId := id
    sHash := some subject
    iHash := some issuer
    isCa := true
    id := id }

def revokedRow (row : Row) : Row :=
  { row with toCertRow := ⟨some (-1),some 4,some 800,row.notAfter⟩ }

/-- A root; a subordinate CA with a revoked self-issued rollover; a revoked certificate of that
subordinate for a foreign CA; and a leaf. -/
def hierarchyRows : List Row :=
  [caRow 1 (some "root") [1] [1],caRow 2 (some "sub") [2] [1],
    revokedRow (caRow 3 (some "sub") [2] [2]),revokedRow (caRow 4 none [9] [2]),leafRow 31]

theorem hierarchyRows_distinct : (hierarchyRows.map Row.serial).Nodup := by decide

def hierarchy : Inventory := ⟨hierarchyRows,hierarchyRows_distinct⟩

def hierarchyIssuer (row : Row) : Option String :=
  if row.isCa then if row.iHash = some [1] then some "root" else some "sub" else row.caInstanceId

theorem hierarchy_issuance : Issuance hierarchy hierarchyIssuer :=
  Issuance.of_rows (by decide) (by decide) (by decide)

theorem revoked_listed_iff_issuer_rollover : Issuance hierarchy hierarchyIssuer ∧
    ((∃ rc∈getRevokedCerts hierarchy "sub",rc.serialHex="3") ↔
      hierarchyIssuer (revokedRow (caRow 3 (some "sub") [2] [2]))=some "sub") := by
  have hroot : ∀ y,some "sub"=some y → ¬Root hierarchy hierarchyIssuer y := by
    intro y hy hroot
    obtain rfl := Option.some.inj hy
    have hsub := hroot (caRow 2 (some "sub") [2] [1]) (by decide) rfl rfl "root" (by decide)
    exact absurd hsub (by decide)
  exact ⟨hierarchy_issuance,revoked_listed_iff_issuer hierarchy hierarchyIssuer hierarchy_issuance
    (revokedRow (caRow 3 (some "sub") [2] [2])) (by decide) rfl hroot "sub"⟩

end FastPki.Crl

import FastPki.Profile.Evaluate

namespace FastPki.Profile

/-- What a profile permits or not. -/
inductive Item where
  | keyUsage (name : String)
  | extKeyUsage (name : String)
  | sanType (name : String)
  | wildcard
  | validity (days : Int)
  | ca (pathLen : Nat)
  deriving DecidableEq

/-- A cap that admits `v`, where the value `none_` stands for no cap. -/
def Covers (none_ : Int) (cap v : Int) : Prop := cap=none_ ∨ v≤cap

/-- A purpose is compared in its canonical spelling, and a star stands for all of them. -/
def Permits (ssl : Openssl) (p : CertProfile) : Item → Prop
  | .keyUsage k => k∈p.allowedKu
  | .extKeyUsage e =>
    "*"∈p.allowedEku ∨ canonicalEku ssl e∈p.allowedEku.image (canonicalEku ssl)
  | .sanType t => t∈p.allowedSanTypes
  | .wildcard => p.allowWildcard=true
  | .validity v => Covers 0 p.maxValidityDays v
  | .ca k => p.allowCa=true ∧ Covers (-1) p.maxPathLen k

theorem mem_foldl_union (f : CertProfile → Finset String) (members : List CertProfile)
    (s : Finset String) (x : String) :
    x∈members.foldl (fun s p => s ∪ f p) s ↔ x∈s ∨ ∃ p∈members,x∈f p := by
  induction members generalizing s with
  | nil => simp
  | cons p members ih =>
    rw [List.foldl_cons,ih,Finset.mem_union,List.exists_mem_cons_iff,or_assoc]

/-- The widest cap admits what one of the caps admits. -/
theorem covers_widest_iff (none_ first v : Int) (caps : List Int) :
    Covers none_ (widest first none_ caps) v ↔
      Covers none_ first v ∨ ∃ c∈caps,Covers none_ c v := by
  induction caps generalizing first with
  | nil => simp [widest]
  | cons c caps ih =>
    have hstep : widest first none_ (c::caps)=
        widest (if c=none_ ∨ first=none_ then none_ else max first c) none_ caps := rfl
    rw [hstep,ih,List.exists_mem_cons_iff,← or_assoc]
    apply or_congr_left
    simp only [Covers]
    split_ifs with hnone
    · obtain hc|hf := hnone
      · simp [hc]
      · simp [hf]
    · obtain ⟨hc,hf⟩ := not_or.mp hnone
      have hmax : max first c≠none_ := by
        obtain h|h := max_choice first c
        · rwa [h]
        · rwa [h]
      simp [hc,hf,hmax]

section Merge

variable (ssl : Openssl) (first : CertProfile) (rest : List CertProfile) (primary : Option CertProfile)

theorem covers_widest_members (f : CertProfile → Int) (none_ v : Int) :
    Covers none_ (widest (f first) none_ ((first::rest).map f)) v ↔
      ∃ p∈first::rest,Covers none_ (f p) v := by
  have hmap : (∃ c∈(first::rest).map f,Covers none_ c v) ↔ ∃ p∈first::rest,Covers none_ (f p) v := by
    simp only [List.mem_map,exists_exists_and_eq_and]
  rw [covers_widest_iff,hmap]
  exact or_iff_right_of_imp fun h => ⟨first,List.mem_cons_self,h⟩

/-- The key usages, purposes, SAN types, wildcards and validities that one of the profiles permits. -/
theorem permits_merge_iff {item : Item} (hitem : ∀ k,item≠.ca k) :
    Permits ssl (mergeProfiles first rest primary) item ↔ ∃ p∈first::rest,Permits ssl p item := by
  cases item with
  | keyUsage k => simp [Permits,mergeProfiles,mem_foldl_union]
  | extKeyUsage e =>
    simp only [Permits,mergeProfiles,Finset.mem_image,mem_foldl_union,Finset.notMem_empty,false_or]
    constructor
    · intro h
      obtain ⟨p,hp,hstar⟩|⟨a,⟨p,hp,ha⟩,hsame⟩ := h
      · exact ⟨p,hp,Or.inl hstar⟩
      · exact ⟨p,hp,Or.inr ⟨a,ha,hsame⟩⟩
    · intro h
      obtain ⟨p,hp,hstar|⟨a,ha,hsame⟩⟩ := h
      · exact Or.inl ⟨p,hp,hstar⟩
      · exact Or.inr ⟨a,⟨p,hp,ha⟩,hsame⟩
  | sanType t => simp [Permits,mergeProfiles,mem_foldl_union]
  | wildcard => simp [Permits,mergeProfiles]
  | validity v => exact covers_widest_members first rest (fun p => p.maxValidityDays) 0 v
  | ca k => exact absurd rfl (hitem k)

/-- Whether CAs are allowed and how deep they may be is decided apart. -/
theorem permits_merge_ca_iff (k : Nat) :
    Permits ssl (mergeProfiles first rest primary) (.ca k) ↔
      (∃ p∈first::rest,p.allowCa=true) ∧ ∃ p∈first::rest,Covers (-1) p.maxPathLen k := by
  have hcap := covers_widest_members first rest (fun p => p.maxPathLen) (-1) k
  have hallow : (mergeProfiles first rest primary).allowCa=true ↔ ∃ p∈first::rest,p.allowCa=true := by
    simp [mergeProfiles]
  exact and_congr hallow hcap

/-- A path longer than every cap of these profiles. -/
theorem exists_beyond (members : List CertProfile) : ∃ k : Nat,∀ p∈members,p.maxPathLen<k := by
  induction members with
  | nil => exact ⟨0,by simp⟩
  | cons p members ih =>
    obtain ⟨k,hk⟩ := ih
    refine ⟨max k (p.maxPathLen.toNat+1),fun q hq => ?_⟩
    obtain rfl|hq := List.mem_cons.mp hq
    · omega
    · have hlt := hk q hq
      omega

/-- Where every path that a profile covers is covered by one that allows CAs, such a one is as wide
as the profile. -/
theorem exists_wider_ca {members : List CertProfile}
    (h : ∀ p∈members,∀ k : Nat,Covers (-1) p.maxPathLen k →
      ∃ q∈members,q.allowCa=true ∧ Covers (-1) q.maxPathLen k)
    {p : CertProfile} (hp : p∈members) (hlow : -1≤p.maxPathLen) :
    ∃ q∈members,q.allowCa=true ∧
      (q.maxPathLen=-1 ∨ p.maxPathLen≠-1 ∧ p.maxPathLen≤q.maxPathLen) := by
  by_cases huncapped : p.maxPathLen=-1
  · -- a path that only a profile without a cap admits
    obtain ⟨k,hk⟩ := exists_beyond members
    obtain ⟨q,hq,hallow,hcover⟩ := h p hp k (Or.inl huncapped)
    have hlt := hk q hq
    exact ⟨q,hq,hallow,Or.inl (hcover.resolve_right (by omega))⟩
  · obtain ⟨k,hk⟩ := Int.eq_ofNat_of_zero_le (show 0≤p.maxPathLen by omega)
    obtain ⟨q,hq,hallow,hcover⟩ := h p hp k (Or.inr (by omega))
    refine ⟨q,hq,hallow,hcover.imp_right fun hle => ⟨huncapped,?_⟩⟩
    rw [hk]
    exact hle

/-- A wider profile covers what the other one does. -/
theorem covers_of_wider {cap wide : Int} {k : Nat} (hcover : Covers (-1) cap k)
    (hwide : wide=-1 ∨ cap≠-1 ∧ cap≤wide) : Covers (-1) wide k := by
  obtain hnone|⟨hcap,hle⟩ := hwide
  · exact Or.inl hnone
  · exact Or.inr ((hcover.resolve_left hcap).trans hle)

/-- The merged profile permits what one of the profiles permits, exactly when none of them allows
CAs, or the path length of each is within that of one which allows them. -/
theorem merge_permits_some_member_iff :
    (∀ item,Permits ssl (mergeProfiles first rest primary) item ↔
        ∃ p∈first::rest,Permits ssl p item) ↔
      (∀ p∈first::rest,p.allowCa=false) ∨
        ∀ p∈first::rest,-1≤p.maxPathLen → ∃ q∈first::rest,q.allowCa=true ∧
          (q.maxPathLen=-1 ∨ p.maxPathLen≠-1 ∧ p.maxPathLen≤q.maxPathLen) := by
  constructor
  · intro h
    by_cases hnone : ∀ p∈first::rest,p.allowCa=false
    · exact Or.inl hnone
    have hsome : ∃ p∈first::rest,p.allowCa=true := by
      by_contra hno
      exact hnone fun p hp => Bool.not_eq_true _ ▸ fun hallow => hno ⟨p,hp,hallow⟩
    have hca : ∀ p∈first::rest,∀ k : Nat,Covers (-1) p.maxPathLen k →
        ∃ q∈first::rest,q.allowCa=true ∧ Covers (-1) q.maxPathLen k := by
      intro p hp k hk
      exact (h (.ca k)).mp ((permits_merge_ca_iff ssl first rest primary k).mpr ⟨hsome,p,hp,hk⟩)
    exact Or.inr fun p hp hlow => exists_wider_ca hca hp hlow
  · intro h item
    by_cases hitem : ∃ k,item=.ca k
    · obtain ⟨k,rfl⟩ := hitem
      rw [permits_merge_ca_iff]
      constructor
      · intro hmerged
        obtain ⟨⟨r,hr,hallow⟩,p,hp,hcover⟩ := hmerged
        obtain hnone|hall := h
        · rw [hnone r hr] at hallow
          cases hallow
        · have hlow : -1≤p.maxPathLen := by
            obtain hnone|hle := hcover
            · omega
            · omega
          obtain ⟨q,hq,hqa,hwide⟩ := hall p hp hlow
          exact ⟨q,hq,hqa,covers_of_wider hcover hwide⟩
      · intro hmember
        obtain ⟨p,hp,hallow,hcover⟩ := hmember
        exact ⟨⟨p,hp,hallow⟩,p,hp,hcover⟩
    · exact permits_merge_iff ssl first rest primary fun k hk => hitem ⟨k,hk⟩

end Merge

/-- CAs that issue no CA themselves. -/
def issuingCaProfile : CertProfile :=
  { CertProfile.init with name := "issuing-ca", allowCa := true, maxPathLen := 0 }

def webProfile : CertProfile := { CertProfile.init with name := "web" }

/-- Neither profile permits a CA with CAs below it, and the two merged do. -/
theorem merge_permits_deeper_ca :
    Permits noObjects (mergeProfiles issuingCaProfile [webProfile] none) (.ca 1) ∧
      ∀ p∈[issuingCaProfile,webProfile],¬Permits noObjects p (.ca 1) := by
  refine ⟨⟨rfl,Or.inl rfl⟩,fun p hp => ?_⟩
  obtain rfl|hp := List.mem_cons.mp hp
  · simp [Permits,Covers,issuingCaProfile]
  · obtain rfl := List.mem_singleton.mp hp
    simp [Permits,webProfile,CertProfile.init]

end FastPki.Profile

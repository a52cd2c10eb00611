import FastPki.Policy.Issuance

namespace FastPki.Policy

open FastPki.X509

def underscore : UInt8 := 0x5f

/-- Letters, digits, hyphens and underscores, the octets of a label. -/
def isLabelOctet (c : UInt8) : Bool := isAlnum c || c = hyphen || c = underscore

/-- A label of a host name. -/
structure Label (l : Octets) : Prop where
  pos : 1 ≤ l.length
  short : l.length ≤ 63
  octets : ∀ c∈l,isLabelOctet c=true
  first : l.head?≠some hyphen
  last : l.getLast?≠some hyphen

/-- One or more labels with a dot between two, behind a wildcard or not, in at most 253 octets. -/
def DnsName (n : Octets) : Prop :=
  (∃ wildcard labels,(wildcard=[] ∨ wildcard=[asterisk,dot]) ∧ labels≠[] ∧ (∀ l∈labels,Label l) ∧
    n=wildcard++List.intercalate [dot] labels) ∧ n.length ≤ 253 ∧ n.getLast?≠some dot

/-- What a label may begin with. -/
structure Started (l : Octets) : Prop where
  short : l.length ≤ 63
  octets : ∀ c∈l,isLabelOctet c=true
  first : l.head?≠some hyphen

/-- What may follow the octets `p` of a label: the rest of it and labels, each behind a dot. -/
def Follows (p rest : Octets) : Prop :=
  ∃ u,∃ labels : List Octets,rest=u++labels.flatMap (dot::·) ∧ Label (p++u) ∧ ∀ l∈labels,Label l

theorem label_iff {l : Octets} : Label l ↔ Started l ∧ l≠[] ∧ l.getLast?≠some hyphen := by
  constructor
  · intro h
    have hne : l≠[] := List.length_pos_iff.mp h.pos
    exact ⟨⟨h.short,h.octets,h.first⟩,hne,h.last⟩
  · intro h
    have hpos : 1 ≤ l.length := List.length_pos_iff.mpr h.2.1
    exact ⟨hpos,h.1.short,h.1.octets,h.1.first,h.2.2⟩

theorem started_nil : Started [] :=
  ⟨Nat.zero_le 63,fun _ hc => absurd hc List.not_mem_nil,by simp⟩

theorem started_of_append {p u : Octets} (h : Started (p++u)) : Started p := by
  have hshort := h.short
  rw [List.length_append] at hshort
  refine ⟨by omega,fun c hc => h.octets c (List.mem_append_left u hc),?_⟩
  cases p with
  | nil => simp
  | cons a p => exact h.first

/-- One more octet: it is one of a label, it is no hyphen at the front, and there is room for it. -/
theorem started_append_singleton {p : Octets} (hp : Started p) {c : UInt8} :
    Started (p++[c]) ↔
      isLabelOctet c=true ∧ ¬(c=hyphen ∧ p.length=0) ∧ p.length+1 ≤ 63 := by
  constructor
  · intro h
    have hshort := h.short
    rw [List.length_append,List.length_singleton] at hshort
    refine ⟨h.octets c (by simp),?_,hshort⟩
    intro hfirst
    rw [List.length_eq_zero_iff] at hfirst
    apply h.first
    rw [hfirst.2,hfirst.1]
    rfl
  · intro h
    refine ⟨by simpa using h.2.2,?_,?_⟩
    · intro d hd
      rcases List.mem_append.mp hd with hd|hd
      · exact hp.octets d hd
      · rw [List.mem_singleton.mp hd]
        exact h.1
    · cases p with
      | nil =>
        intro hhead
        have hc : c=hyphen := by simpa using hhead
        exact h.2.1 ⟨hc,rfl⟩
      | cons a p => exact hp.first

theorem not_isLabelOctet_dot : isLabelOctet dot=false := by decide

theorem follows_nil {p : Octets} : Follows p [] ↔ Label p := by
  constructor
  · intro h
    obtain ⟨u,labels,hrest,hlabel,_⟩ := h
    have hu : u=[] := (List.append_eq_nil_iff.mp hrest.symm).1
    rw [hu,List.append_nil] at hlabel
    exact hlabel
  · intro h
    refine ⟨[],[],rfl,?_,fun l hl => absurd hl List.not_mem_nil⟩
    rw [List.append_nil]
    exact h

theorem follows_dot {p rest : Octets} : Follows p (dot::rest) ↔ Label p ∧ Follows [] rest := by
  constructor
  · intro h
    obtain ⟨u,labels,hrest,hlabel,hall⟩ := h
    cases u with
    | cons c u =>
      -- a dot is no octet of a label
      have hc : dot=c := (List.cons.inj hrest).1
      have hdot := hlabel.octets c (by simp)
      rw [← hc,not_isLabelOctet_dot] at hdot
      cases hdot
    | nil =>
      rw [List.append_nil] at hlabel
      cases labels with
      | nil => cases hrest
      | cons l labels =>
        have htail : rest=l++labels.flatMap (dot::·) := (List.cons.inj hrest).2
        exact ⟨hlabel,l,labels,htail,hall l List.mem_cons_self,
          fun m hm => hall m (List.mem_cons_of_mem l hm)⟩
  · intro h
    obtain ⟨hp,l,labels,hrest,hl,hall⟩ := h
    refine ⟨[],l::labels,?_,?_,List.forall_mem_cons.mpr ⟨hl,hall⟩⟩
    · rw [hrest]
      rfl
    · rw [List.append_nil]
      exact hp

theorem follows_cons {p rest : Octets} {c : UInt8} (hc : c≠dot) :
    Follows p (c::rest) ↔ Follows (p++[c]) rest := by
  constructor
  · intro h
    obtain ⟨u,labels,hrest,hlabel,hall⟩ := h
    cases u with
    | nil =>
      cases labels with
      | nil => cases hrest
      | cons l labels => exact absurd (List.cons.inj hrest).1 hc
    | cons d u =>
      obtain ⟨hd,htail⟩ := List.cons.inj hrest
      rw [← hd,List.append_cons] at hlabel
      exact ⟨u,labels,htail,hlabel,hall⟩
  · intro h
    obtain ⟨u,labels,hrest,hlabel,hall⟩ := h
    refine ⟨c::u,labels,?_,?_,hall⟩
    · rw [hrest]
      rfl
    · rw [List.append_cons]
      exact hlabel

theorem started_of_follows {p rest : Octets} (h : Follows p rest) : Started p := by
  obtain ⟨u,labels,_,hlabel,_⟩ := h
  exact started_of_append (label_iff.mp hlabel).1

/-- The two tests of the scan where a label ends. -/
theorem label_iff_of_started {p : Octets} (hp : Started p) :
    (decide (p.length≠0) && decide (p.getLast?.getD dot≠hyphen))=true ↔ Label p := by
  have hlast : p.getLast?.getD dot=hyphen ↔ p.getLast?=some hyphen := by
    cases p.getLast? with
    | none => decide
    | some c => simp
  rw [Bool.and_eq_true,decide_eq_true_eq,decide_eq_true_eq,label_iff]
  constructor
  · intro h
    exact ⟨hp,fun hnil => h.1 (List.length_eq_zero_iff.mpr hnil),fun hl => h.2 (hlast.mpr hl)⟩
  · intro h
    exact ⟨fun hzero => h.2.1 (List.length_eq_zero_iff.mp hzero),fun hl => h.2.2 (hlast.mp hl)⟩

/-- The scan takes an octet into the label at hand when the label may begin so. -/
theorem labelsOk_cons {p rest : Octets} {c : UInt8} (hp : Started p) (hdot : c≠dot) :
    labelsOk (c::rest) p.length (p.getLast?.getD dot)=true ↔
      Started (p++[c]) ∧ labelsOk rest (p.length+1) c=true := by
  have hldh : (isAlnum c || decide (c=hyphen) || decide (c=0x5f))=isLabelOctet c := rfl
  rw [started_append_singleton hp,labelsOk,if_neg hdot,hldh]
  split_ifs with hoctet hfirst hroom
  · have hbad : isLabelOctet c=false := by simpa using hoctet
    simp [hbad]
  · have hfront : c=hyphen ∧ p.length=0 := by simpa using hfirst
    simp [hfront]
  · have hfull : ¬p.length+1 ≤ 63 := by omega
    simp [hfull]
  · have hgood : isLabelOctet c=true := by simpa using hoctet
    have hfront : ¬(c=hyphen ∧ p.length=0) := by simpa using hfirst
    have hshort : p.length+1 ≤ 63 := by omega
    exact ⟨fun h => ⟨⟨hgood,hfront,hshort⟩,h⟩,fun h => h.2⟩

/-- The scan within a label accepts what may follow it. -/
theorem labelsOk_iff {p : Octets} (hp : Started p) (rest : Octets) :
    labelsOk rest p.length (p.getLast?.getD dot)=true ↔ Follows p rest := by
  -- by induction on what is left, for every beginning of a label
  induction rest generalizing p with
  | nil =>
    rw [labelsOk,follows_nil]
    exact label_iff_of_started hp
  | cons c rest ih =>
    by_cases hdot : c=dot
    · have hrest : labelsOk rest 0 dot=true ↔ Follows [] rest := ih started_nil
      rw [labelsOk,if_pos hdot,hdot,Bool.and_eq_true,label_iff_of_started hp,hrest,follows_dot]
    · rw [labelsOk_cons hp hdot,follows_cons hdot]
      constructor
      · intro h
        apply (ih h.1).mp
        rw [List.length_append,List.getLast?_concat]
        exact h.2
      · intro h
        have hnext := (ih (started_of_follows h)).mpr h
        rw [List.length_append,List.getLast?_concat] at hnext
        exact ⟨started_of_follows h,hnext⟩

theorem flatMap_dot_eq (l : Octets) (labels : List Octets) :
    l++labels.flatMap (dot::·)=List.intercalate [dot] (l::labels) := by
  induction labels generalizing l with
  | nil => simp
  | cons m labels ih =>
    rw [List.flatMap_cons,List.cons_append,ih m]
    simp [List.intercalate]

/-- The labels from the front of the name or from behind its wildcard on. -/
theorem labelsOk_zero_iff {rest : Octets} :
    labelsOk rest 0 dot=true ↔
      ∃ labels,labels≠[] ∧ (∀ l∈labels,Label l) ∧ rest=List.intercalate [dot] labels := by
  have hscan : labelsOk rest 0 dot=true ↔ Follows [] rest := labelsOk_iff started_nil rest
  rw [hscan]
  constructor
  · intro h
    obtain ⟨l,labels,hrest,hl,hall⟩ := h
    rw [List.nil_append] at hl
    rw [flatMap_dot_eq] at hrest
    exact ⟨l::labels,List.cons_ne_nil l labels,List.forall_mem_cons.mpr ⟨hl,hall⟩,hrest⟩
  · intro h
    obtain ⟨labels,hne,hall,hrest⟩ := h
    cases labels with
    | nil => exact absurd rfl hne
    | cons l labels =>
      rw [← flatMap_dot_eq] at hrest
      obtain ⟨hl,hall⟩ := List.forall_mem_cons.mp hall
      exact ⟨l,labels,hrest,hl,hall⟩

/-- One octet of the scan, wherever it is in a label. -/
theorem labelsOk_of_cons {c prev : UInt8} {rest : Octets} {label : Nat}
    (h : labelsOk (c::rest) label prev=true) :
    (c=dot ∨ isLabelOctet c=true) ∧ ∃ k,labelsOk rest k c=true ∧ (c=dot → k=0) := by
  have hldh : (isAlnum c || decide (c=hyphen) || decide (c=0x5f))=isLabelOctet c := rfl
  rw [labelsOk,hldh] at h
  split_ifs at h with hdot hoctet
  · rw [Bool.and_eq_true] at h
    exact ⟨Or.inl hdot,0,h.2,fun _ => rfl⟩
  · have hgood : isLabelOctet c=true := by simpa using hoctet
    exact ⟨Or.inr hgood,label+1,h,fun hc => absurd hc hdot⟩

/-- A dot at the end leaves an empty label behind it. -/
theorem getLast?_ne_dot_of_labelsOk {rest : Octets} {label : Nat} {prev : UInt8}
    (h : labelsOk rest label prev=true) : rest.getLast?≠some dot := by
  induction rest generalizing label prev with
  | nil => simp
  | cons c rest ih =>
    obtain ⟨_,k,hk,hzero⟩ := labelsOk_of_cons h
    cases rest with
    | nil =>
      intro hlast
      have hdot : c=dot := by simpa using hlast
      rw [hzero hdot,labelsOk] at hk
      cases hk
    | cons d rest =>
      rw [List.getLast?_cons_cons]
      exact ih hk

theorem ne_asterisk_of_labelsOk {c : UInt8} {rest : Octets} (h : labelsOk (c::rest) 0 dot=true) :
    c≠asterisk := by
  intro hc
  rw [hc] at h
  cases h

/-- With a wildcard the labels are behind it; without one they are the name. -/
theorem dnsNameOk_eq_true_iff {n : Octets} :
    dnsNameOk n=true ↔ n.length ≤ 253 ∧ ∃ wildcard rest,(wildcard=[] ∨ wildcard=[asterisk,dot]) ∧
      n=wildcard++rest ∧ labelsOk rest 0 dot=true := by
  constructor
  · intro h
    rw [dnsNameOk] at h
    split_ifs at h with hlen hstar
    · obtain ⟨rest,hn⟩ := List.isPrefixOf_iff_prefix.mp hstar
      rw [← hn] at h
      exact ⟨by omega,[asterisk,dot],rest,Or.inr rfl,hn.symm,h⟩
    · exact ⟨by omega,[],n,Or.inl rfl,rfl,h⟩
  · intro h
    obtain ⟨hlen,wildcard,rest,hwild,hn,hrest⟩ := h
    have hne : rest≠[] := by
      intro hnil
      rw [hnil] at hrest
      cases hrest
    have hlong : ¬(n=[] ∨ n.length > 253) := by
      rw [hn,List.append_eq_nil_iff]
      rw [hn] at hlen
      intro hbad
      rcases hbad with hnil|hlong
      · exact hne hnil.2
      · omega
    rw [dnsNameOk,if_neg hlong,hn]
    rcases hwild with hwild|hwild
    · -- labels do not begin with an asterisk, so the name is not read as a wildcard
      have hstar : [asterisk,dot].isPrefixOf rest=false := by
        cases rest with
        | nil => rfl
        | cons c rest =>
          have hc := ne_asterisk_of_labelsOk hrest
          simp [List.isPrefixOf,hc.symm]
      rw [hwild,List.nil_append,hstar]
      exact hrest
    · rw [hwild]
      exact hrest

/-- The scan accepts the names of the grammar and no others, whatever the octets are. -/
theorem dnsNameOk_iff_dnsName (n : Octets) : dnsNameOk n=true ↔ DnsName n := by
  rw [dnsNameOk_eq_true_iff]
  constructor
  · intro h
    obtain ⟨hlen,wildcard,rest,hwild,hn,hrest⟩ := h
    obtain ⟨labels,hne,hall,hlabels⟩ := labelsOk_zero_iff.mp hrest
    have hlast := getLast?_ne_dot_of_labelsOk hrest
    refine ⟨⟨wildcard,labels,hwild,hne,hall,?_⟩,hlen,?_⟩
    · rw [hn,hlabels]
    · cases rest with
      | nil => cases hrest
      | cons c rest =>
        rw [hn,List.getLast?_append_of_ne_nil wildcard (List.cons_ne_nil c rest)]
        exact hlast
  · intro h
    obtain ⟨⟨wildcard,labels,hwild,hne,hall,hn⟩,hlen,_⟩ := h
    exact ⟨hlen,wildcard,List.intercalate [dot] labels,hwild,hn,
      labelsOk_zero_iff.mpr ⟨labels,hne,hall,rfl⟩⟩

end FastPki.Policy

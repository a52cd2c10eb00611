import FastPki.Acme.Http01

namespace FastPki.Acme.Http01

open X509 Net Ascii

def Followable (u : Http01Url) : Prop :=
  (u.scheme=octets "http" ∨ u.scheme=octets "https") ∧ (u.port=80 ∨ u.port=443)

/-- Outside every block of the table. -/
def Outside (a : Addr) : Prop :=
  ∀ r∈kHttp01Refused,∃ k,readBlock r.cidr=some k ∧ ¬k.Contains a

/-- A connection by the rules. A mapped address counts as its IPv4 address. -/
def Dial.Allowed (d : Dial) : Prop :=
  Followable d.url ∧ ∃ a,parseLiteral d.addr=some a ∧ Outside a.unmap

section Urls

variable {scheme rest loc : Octets} {base u : Http01Url}

theorem parseAuthority_followable (h : parseAuthority scheme rest=.ok u) : Followable u := by
  simp only [parseAuthority,bind_eq_ok_iff,refuseIf_eq_ok_iff] at h
  obtain ⟨_,hscheme,_,_,parts,_,_,_,_,_,_,hport,hu⟩ := h
  obtain rfl := Except.ok.inj hu
  exact ⟨by tauto,by tauto⟩

/-- A relative redirect keeps what the URL before it was checked for. -/
theorem http01Parse_followable (hbase : Followable base) (h : http01Parse loc (some base)=.ok u) :
    Followable u := by
  rw [http01Parse.eq_def] at h
  split at h
  · exact parseAuthority_followable h
  · next heq =>
    obtain rfl := Option.some.inj heq
    obtain rfl := Except.ok.inj h
    exact hbase
  · split at h
    · cases h
    · exact parseAuthority_followable h

end Urls

section Addresses

variable {σ : Type*} {net : Network σ} {host ip : Octets} {ai : List Addr} {s : Sorted}

/-- A text that came from an address of the answer and was not refused. -/
def Passed (net : Network σ) (ip : Octets) : Prop :=
  (∃ a,net.inetNtop a=some ip) ∧ refusedBy ip=none

theorem sortAddress_passed {a : Addr} (hs : ∀ ip∈s.out,Passed net ip) :
    ∀ ip∈(sortAddress net host s a).out,Passed net ip := by
  intro ip hip
  rw [sortAddress] at hip
  cases htext : net.inetNtop a with
  | none =>
    rw [htext] at hip
    exact hs ip hip
  | some text =>
    rw [htext] at hip
    cases href : refusedBy text with
    | some hit =>
      simp only [href] at hip
      split_ifs at hip
      all_goals exact hs ip hip
    | none =>
      simp only [href] at hip
      split_ifs at hip
      · exact hs ip hip
      · rcases List.mem_append.mp hip with hip|hip
        · exact hs ip hip
        · rw [List.mem_singleton.mp hip]
          exact ⟨⟨a,htext⟩,href⟩

theorem foldl_sortAddress_passed (hs : ∀ ip∈s.out,Passed net ip) :
    ∀ ip∈(ai.foldl (sortAddress net host) s).out,Passed net ip := by
  induction ai generalizing s with
  | nil => exact hs
  | cons a ai ih => exact ih (sortAddress_passed hs)

theorem http01Addresses_passed {answer : Option (List Addr)} {addrs : List Octets}
    (h : http01Addresses net host answer=.ok addrs) : ∀ ip∈addrs,Passed net ip := by
  rw [http01Addresses.eq_def] at h
  split at h
  · cases h
  · cases h
  · simp only at h
    split_ifs at h
    obtain rfl := Except.ok.inj h
    apply foldl_sortAddress_passed
    intro ip hip
    cases hip

end Addresses

section Blocks

/-- The base of a CIDR is written as what it is. -/
def plainBase (cidr : Octets) : Bool :=
  (splitCidr (trim cidr)).any fun parts => (parseLiteral parts.1).any fun base => !base.mapped

theorem not_mapped_of_plainBase {cidr : Octets} (h : plainBase cidr=true) :
    ¬MappedWithLength cidr := by
  rintro ⟨net,len,base,hsplit,hbase,hm,-⟩
  simp [plainBase,hsplit,hbase,hm] at h

/-- The table itself is read as it is written. -/
theorem kHttp01Refused_read :
    kHttp01Refused.all (fun r => plainBase r.cidr && (readBlock r.cidr).isSome)=true := by
  decide +kernel

theorem outside_of_not_refused {ip : Octets} {a : Addr} (hread : parseAddr ip=some a)
    (h : refusedBy ip=none) : Outside a := by
  intro r hr
  have htable := List.all_eq_true.mp kHttp01Refused_read r hr
  rw [Bool.and_eq_true,Option.isSome_iff_exists] at htable
  obtain ⟨hplain,k,hk⟩ := htable
  refine ⟨k,hk,fun hin => ?_⟩
  have hno : ¬ipInCidr ip r.cidr=true := List.find?_eq_none.mp h r hr
  exact hno ((ipInCidr_iff_inRange (not_mapped_of_plainBase hplain) ip).mpr ⟨k,a,hk,hread,hin⟩)

end Blocks

section Rounds

variable {σ : Type*} {net : Network σ} {expected : Octets} {h : Hop σ} {url : Http01Url}

/-- `inet_ntop` writes what `inet_pton` reads back. -/
def Network.Faithful (net : Network σ) : Prop :=
  ∀ a t,net.inetNtop a=some t → ReadsBack a t

theorem Passed.allowed (hnet : net.Faithful) {ip : Octets} (hp : Passed net ip)
    (hurl : Followable url) : Dial.Allowed ⟨url,ip⟩ := by
  obtain ⟨⟨a,ha⟩,href⟩ := hp
  have hread : parseLiteral ip=some a := (hnet a ip ha).parseLiteral
  refine ⟨hurl,a,hread,outside_of_not_refused ?_ href⟩
  rw [parseAddr,hread,Option.map_some]

theorem mem_dialEach {w : σ} {addrs : List Octets} {d : Dial}
    (hd : d∈(dialEach net url w addrs).2) : d.url=url ∧ d.addr∈addrs := by
  induction addrs generalizing w with
  | nil => cases hd
  | cons addr addrs ih =>
    rw [dialEach] at hd
    split at hd
    · rw [List.mem_singleton.mp hd]
      exact ⟨rfl,List.mem_cons_self⟩
    · rcases List.mem_cons.mp hd with rfl|hd
      · exact ⟨rfl,List.mem_cons_self⟩
      · obtain ⟨hurl,haddr⟩ := ih hd
        exact ⟨hurl,List.mem_cons_of_mem _ haddr⟩

theorem judge_next {r : Response} {hop : Nat} {next : Http01Url}
    (hj : judge expected hop url r=.inl next) :
    hop<kHttp01MaxRedirects ∧ http01Parse r.location (some url)=.ok next := by
  rw [judge] at hj
  split_ifs at hj with hred hmax hloc
  · split at hj
    · cases hj
    · next hparse =>
      obtain rfl := Sum.inl.inj hj
      exact ⟨by omega,hparse⟩

/-- What holds before every round. -/
structure Hop.Kept (h : Hop σ) : Prop where
  le : h.hop≤kHttp01MaxRedirects
  urls : h.urls.length=h.hop
  url : Followable h.url
  dials : ∀ d∈h.dials,d.Allowed ∧ d.url∈h.urls

/-- What holds in the end. -/
structure Fetched.Allowed (r : Fetched) : Prop where
  urls : r.urls.length≤kHttp01MaxRedirects+1
  dials : ∀ d∈r.dials,d.Allowed ∧ d.url∈r.urls

/-- What a round can do: it ends before it has dialled, or it dials addresses that passed and then
ends or follows a redirect. -/
theorem fetchRound_cases (net : Network σ) (expected : Octets) (h : Hop σ) :
    (∃ result,fetchRound net expected h=.inr ⟨result,h.dials,h.urls⟩) ∨
    ∃ opened,(∀ d∈opened,d.url=h.url ∧ Passed net d.addr) ∧
      ((∃ result,fetchRound net expected h=.inr ⟨result,h.dials++opened,h.urls++[h.url]⟩) ∨
        ∃ w next loc,h.hop<kHttp01MaxRedirects ∧ http01Parse loc (some h.url)=.ok next ∧
          fetchRound net expected h=.inl ⟨w,h.hop+1,next,h.dials++opened,h.urls++[h.url]⟩) := by
  simp only [fetchRound]
  split
  · exact Or.inl ⟨_,rfl⟩
  · next addrs haddrs =>
    generalize (net.getaddrinfo h.world (cString h.url.host) h.url.port).2=w
    refine Or.inr ⟨(dialEach net h.url w addrs).2,fun d hd => ?_,?_⟩
    · obtain ⟨hurl,haddr⟩ := mem_dialEach hd
      exact ⟨hurl,http01Addresses_passed haddrs d.addr haddr⟩
    · split
      · exact Or.inl ⟨_,rfl⟩
      · next r hr =>
        cases hj : judge expected h.hop h.url r with
        | inl next =>
          obtain ⟨hlt,hparse⟩ := judge_next hj
          exact Or.inr ⟨_,next,r.location,hlt,hparse,rfl⟩
        | inr result => exact Or.inl ⟨result,rfl⟩

/-- The connections of a round join those before it. -/
theorem Hop.Kept.append (hnet : net.Faithful) (hk : h.Kept) {opened : List Dial}
    (hopened : ∀ d∈opened,d.url=h.url ∧ Passed net d.addr) :
    ∀ d∈h.dials++opened,d.Allowed ∧ d.url∈h.urls++[h.url] := by
  intro d hd
  rcases List.mem_append.mp hd with hd|hd
  · obtain ⟨hallowed,hurl⟩ := hk.dials d hd
    exact ⟨hallowed,List.mem_append_left _ hurl⟩
  · obtain ⟨hurl,hpassed⟩ := hopened d hd
    obtain ⟨durl,daddr⟩ := d
    obtain rfl : durl=h.url := hurl
    exact ⟨hpassed.allowed hnet hk.url,List.mem_append_right _ List.mem_cons_self⟩

theorem Hop.Kept.length_urls (hk : h.Kept) : (h.urls++[h.url]).length=h.hop+1 := by
  rw [List.length_append,hk.urls]
  rfl

theorem fetchRound_kept (hnet : net.Faithful) (hk : h.Kept) {t : Hop σ}
    (ht : fetchRound net expected h=.inl t) :
    t.Kept ∧ kHttp01MaxRedirects-t.hop<kHttp01MaxRedirects-h.hop := by
  rcases fetchRound_cases net expected h with ⟨_,hr⟩|⟨opened,hopened,⟨_,hr⟩|hnext⟩
  · cases hr.symm.trans ht
  · cases hr.symm.trans ht
  · obtain ⟨w,next,loc,hlt,hparse,hr⟩ := hnext
    obtain rfl := Sum.inl.inj (hr.symm.trans ht)
    refine ⟨⟨hlt,hk.length_urls,http01Parse_followable hk.url hparse,hk.append hnet hopened⟩,?_⟩
    show kHttp01MaxRedirects-(h.hop+1)<kHttp01MaxRedirects-h.hop
    omega

theorem fetchRound_returns (hnet : net.Faithful) (hk : h.Kept) {r : Fetched}
    (hret : fetchRound net expected h=.inr r) : r.Allowed := by
  have hle := hk.le
  rcases fetchRound_cases net expected h with ⟨_,hr⟩|⟨opened,hopened,⟨_,hr⟩|hnext⟩
  · obtain rfl := Sum.inr.inj (hr.symm.trans hret)
    refine ⟨?_,hk.dials⟩
    show h.urls.length≤kHttp01MaxRedirects+1
    rw [hk.urls]
    omega
  · obtain rfl := Sum.inr.inj (hr.symm.trans hret)
    refine ⟨?_,hk.append hnet hopened⟩
    show (h.urls++[h.url]).length≤kHttp01MaxRedirects+1
    rw [hk.length_urls]
    omega
  · obtain ⟨w,next,loc,-,-,hr⟩ := hnext
    cases hr.symm.trans hret

theorem fetchStart_kept (w : σ) (host token : Octets) : (fetchStart w host token).Kept := by
  refine ⟨Nat.zero_le _,rfl,⟨Or.inl rfl,Or.inl rfl⟩,fun d hd => ?_⟩
  cases hd

end Rounds

/-- Whatever the resolver and the servers answer, the fetch ends within eleven rounds, and each of
its connections is one that the rules allow. -/
theorem http01_never_dials_refused {σ : Type*} (net : Network σ) (hnet : net.Faithful) (w : σ)
    (host token expected : Octets) :
    ∃ r,rounds (fetchRound net expected) (kHttp01MaxRedirects+1) (fetchStart w host token)=.inr r ∧
      r.urls.length≤kHttp01MaxRedirects+1 ∧ ∀ d∈r.dials,d.Allowed ∧ d.url∈r.urls := by
  obtain ⟨r,hr,hallowed⟩ := rounds_returns
    (fun s t (hs : Hop.Kept s) ht => fetchRound_kept hnet hs ht)
    (fun s r hs hr => fetchRound_returns hnet hs hr) (fetchStart_kept w host token)
    (Nat.lt_succ_self _ : kHttp01MaxRedirects-0<kHttp01MaxRedirects+1)
  exact ⟨r,hr,hallowed.urls,hallowed.dials⟩

section Quads

def quadDigit (n : Nat) : UInt8 := UInt8.ofNat (0x30+n)

def quadPart (c : UInt8) : Octets :=
  let n := c.toNat
  if n < 10 then [quadDigit n]
  else if n < 100 then [quadDigit (n/10),quadDigit (n%10)]
  else [quadDigit (n/100),quadDigit (n/10%10),quadDigit (n%10)]

theorem quadPart_digits (c : UInt8) :
    quadOctet (quadPart c)=some c ∧ (quadPart c).all isDigit=true := by
  have htable : ∀ n < 256,quadOctet (quadPart (UInt8.ofNat n))=some (UInt8.ofNat n) ∧
      (quadPart (UInt8.ofNat n)).all isDigit=true := by
    decide +kernel
  have hc := htable c.toNat c.toNat_lt
  rwa [UInt8.ofNat_toNat] at hc

/-- `inet_ntop` for the addresses of IPv4. -/
def quadText (a : Addr) : Option Octets :=
  match a.b with
  | [p,q,r,s] => some (quadPart p++dot::(quadPart q++dot::(quadPart r++dot::quadPart s)))
  | _ => none

theorem notMem_quadPart {c d : UInt8} (hd : isDigit d=false) : d∉quadPart c := by
  intro hmem
  rw [List.all_eq_true.mp (quadPart_digits c).2 d hmem] at hd
  cases hd

theorem quadText_readsBack {a : Addr} {t : Octets} (h : quadText a=some t) : ReadsBack a t := by
  obtain ⟨b,hb⟩ := a
  rw [quadText.eq_def] at h
  split at h
  · next p q r s heq =>
    obtain rfl : b=[p,q,r,s] := heq
    obtain rfl := Option.some.inj h
    have hdot (c : UInt8) : dot∉quadPart c := notMem_quadPart (by decide)
    refine ⟨fun c hc => ?_,fun _ => ⟨?_,?_⟩,fun hlen => absurd hlen (by simp)⟩
    · simp only [List.mem_append,List.mem_cons] at hc
      have hpart (e : UInt8) (he : c∈quadPart e) :
          ((Hex.value c).isSome || decide (c = colon) || decide (c = dot))=true := by
        have hdigit := List.all_eq_true.mp (quadPart_digits e).2 c he
        simp [Hex.value,hdigit]
      rcases hc with hc|rfl|hc|rfl|hc|rfl|hc
      · exact hpart p hc
      · decide
      · exact hpart q hc
      · decide
      · exact hpart r hc
      · decide
      · exact hpart s hc
    · simp [notMem_quadPart (by decide : isDigit colon=false),(by decide : colon≠dot)]
    · rw [inetPton4,List.splitOn_append_cons_self_of_not_mem (hdot p),
        List.splitOn_append_cons_self_of_not_mem (hdot q),
        List.splitOn_append_cons_self_of_not_mem (hdot r),List.splitOn_eq_singleton (hdot s)]
      simp [(quadPart_digits _).1]
  · cases h

end Quads

/-- A name with a metadata endpoint among its addresses, and a server that redirects for ever. -/
def redirecting : Network Unit where
  getaddrinfo _ _ _ :=
    (some [⟨[169,254,169,254],Or.inl rfl⟩,⟨[192,0,2,7],Or.inl rfl⟩],())
  inetNtop := quadText
  get _ _ := (some ⟨302,octets "https://example.com/x",[]⟩,())

theorem http01_redirecting_ends :
    ∃ r,rounds (fetchRound redirecting (octets "k")) (kHttp01MaxRedirects+1)
        (fetchStart () (octets "example.com") (octets "t"))=.inr r ∧
      r.urls.length≤kHttp01MaxRedirects+1 ∧ ∀ d∈r.dials,d.Allowed ∧ d.url∈r.urls :=
  http01_never_dials_refused redirecting (fun _ _ h => quadText_readsBack h) ()
    (octets "example.com") (octets "t") (octets "k")

end FastPki.Acme.Http01

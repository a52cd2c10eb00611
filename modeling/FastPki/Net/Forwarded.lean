import FastPki.Net.Address

namespace FastPki.Net

open X509

def isTrustedProxy (trusted : List Octets) (peer : Octets) : Bool :=
  trusted.any fun c => ipInCidr peer c

/-- The addresses of a forwarded-for header; empty ones are left out. -/
def hopsOf (xff : Octets) : List Octets := ((xff.splitOn comma).map trim).filter (· ≠ [])

/-- An entry that is no address is not recorded. -/
def recorded (peer hop : Octets) : Octets := if (parseAddr hop).isSome then hop else peer

def realClientIp (trusted : List Octets) (peer xff : Octets) : Octets :=
  if trusted = [] then peer
  else if !isTrustedProxy trusted peer then peer
  else if xff = [] then peer
  else
    match hopsOf xff with
    | [] => peer
    | front::hops =>
      -- right to left, past the trusted proxies
      match (front::hops).reverse.find? (!isTrustedProxy trusted ·) with
      | some hop => recorded peer hop
      | none => recorded peer front

/-- A hop that is no address, or that is none of our proxies. -/
def untrusted (trusted : List Octets) (hop : Octets) : Bool :=
  (parseAddr hop).isNone || !isTrustedProxy trusted hop

/-- The end of a list from its rightmost untrusted hop on; the whole of a list without one. -/
def fromRightmostUntrusted (trusted : List Octets) : List Octets → List Octets
  | [] => []
  | hop::hops =>
    if hops.any (untrusted trusted) then fromRightmostUntrusted trusted hops else hop::hops

section Walk

variable {trusted : List Octets} {peer xff : Octets}

/-- What does not parse is inside no CIDR. -/
theorem ipInCidr_of_unparsed {ip : Octets} (h : parseAddr ip=none) (cidr : Octets) :
    ipInCidr ip cidr=false := by
  rw [ipInCidr]
  split_ifs
  · rfl
  · cases splitCidr (trim cidr) with
    | none => rfl
    | some parts => simp [h]

theorem untrusted_eq : untrusted trusted=(!isTrustedProxy trusted ·) := by
  funext hop
  rw [untrusted]
  cases h : parseAddr hop with
  | none =>
    have hno : isTrustedProxy trusted hop=false := by
      rw [isTrustedProxy,List.any_eq_false]
      intro c _
      rw [ipInCidr_of_unparsed h]
      simp
    simp [hno]
  | some a => simp

theorem find?_reverse_of_any {p : Octets → Bool} {hop : Octets} {hops : List Octets}
    (h : hops.any p=true) : (hop::hops).reverse.find? p=hops.reverse.find? p := by
  rw [List.reverse_cons,List.find?_append]
  have hsome : (hops.reverse.find? p).isSome=true := by
    rw [List.find?_isSome]
    simpa using h
  exact Option.or_of_isSome hsome

/-- The walk stops where the end of the list begins. -/
theorem walk_eq_head (hops : List Octets) :
    (hops.reverse.find? (!isTrustedProxy trusted ·)).or hops.head?=
      (fromRightmostUntrusted trusted hops).head? := by
  induction hops with
  | nil => rfl
  | cons hop hops ih =>
    rw [fromRightmostUntrusted,untrusted_eq]
    by_cases h : hops.any (!isTrustedProxy trusted ·)=true
    · rw [if_pos h,find?_reverse_of_any h,← ih]
      have hsome : (hops.reverse.find? (!isTrustedProxy trusted ·)).isSome=true := by
        rw [List.find?_isSome]
        simpa using h
      rw [Option.or_of_isSome hsome,Option.or_of_isSome hsome]
    · have hnone : hops.reverse.find? (!isTrustedProxy trusted ·)=none := by
        rw [List.find?_eq_none]
        simpa using h
      rw [if_neg h,List.reverse_cons,List.find?_append,hnone,Option.none_or,List.head?_cons]
      cases hhop : isTrustedProxy trusted hop with
      | false => simp [hhop]
      | true => simp [hhop]

theorem realClientIp_untrusted (h : isTrustedProxy trusted peer=false) :
    realClientIp trusted peer xff=peer := by
  by_cases hne : trusted=[]
  · rw [realClientIp,if_pos hne]
  · rw [realClientIp,if_neg hne,if_pos (by simp [h])]

/-- Of the header only the end from its rightmost untrusted hop is read. -/
theorem realClientIp_trusted (h : isTrustedProxy trusted peer=true) :
    realClientIp trusted peer xff=
      ((fromRightmostUntrusted trusted (hopsOf xff)).head?.map (recorded peer)).getD peer := by
  have hne : trusted≠[] := by
    rintro rfl
    cases h
  rw [realClientIp,if_neg hne,if_neg (by simp [h]),← walk_eq_head]
  by_cases hxff : xff=[]
  · rw [if_pos hxff,hxff]
    rfl
  · rw [if_neg hxff]
    cases hopsOf xff with
    | nil => rfl
    | cons front hops =>
      dsimp only
      cases (front::hops).reverse.find? (!isTrustedProxy trusted ·) with
      | none => rfl
      | some hop => rfl

end Walk

/-- What a client writes before the rightmost untrusted hop makes no difference, and behind a peer
that is no proxy of ours nothing does. -/
theorem spoofed_header_changes_nothing (trusted : List Octets) (peer : Octets) :
    (∀ x y,fromRightmostUntrusted trusted (hopsOf x)=fromRightmostUntrusted trusted (hopsOf y) →
      realClientIp trusted peer x=realClientIp trusted peer y) ∧
    (isTrustedProxy trusted peer=false → ∀ x,realClientIp trusted peer x=peer) := by
  refine ⟨fun x y hxy => ?_,fun h x => realClientIp_untrusted h⟩
  cases h : isTrustedProxy trusted peer with
  | false => rw [realClientIp_untrusted h,realClientIp_untrusted h]
  | true => rw [realClientIp_trusted h,realClientIp_trusted h,hxy]

theorem spoofed_front_ignored :
    realClientIp [octets "10.0.0.0/8"] (octets "10.0.0.1") (octets "1.2.3.4, 203.0.113.9,10.0.0.7")=
      realClientIp [octets "10.0.0.0/8"] (octets "10.0.0.1") (octets "203.0.113.9 , 10.0.0.7") ∧
    realClientIp [octets "10.0.0.0/8"] (octets "198.51.100.4") (octets "10.0.0.7")=
      octets "198.51.100.4" :=
  ⟨(spoofed_header_changes_nothing [octets "10.0.0.0/8"] (octets "10.0.0.1")).1 _ _
      (by decide),
    (spoofed_header_changes_nothing [octets "10.0.0.0/8"] (octets "198.51.100.4")).2
      (by decide) _⟩

end FastPki.Net

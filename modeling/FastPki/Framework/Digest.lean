import Mathlib

namespace FastPki

/-- A number in decimal, as octets. -/
def decimal (n : Nat) : List UInt8 := (toString n).toUTF8.data.toList

/-- A field behind its own length, `<len>:<octets>`. -/
def netstring (v : List UInt8) : List UInt8 := decimal v.length++0x3a::v

def netstrings (vs : List (List UInt8)) : List UInt8 := vs.flatMap netstring

theorem toUTF8_injective {s t : String} (h : s.toUTF8.data.toList=t.toUTF8.data.toList) : s=t := by
  have hdata : s.toByteArray.data=t.toByteArray.data := Array.toList_inj.mp h
  exact String.toByteArray_inj.mp (ByteArray.ext hdata)

theorem toUTF8_eq_flatMap (s : String) :
    s.toUTF8.data.toList=s.toList.flatMap String.utf8EncodeChar := by
  rw [String.toUTF8_eq_toByteArray,← String.utf8Encode_toList]
  induction s.toList with
  | nil => simp
  | cons c cs ih =>
    rw [List.utf8Encode_cons,ByteArray.data_append,Array.toList_append,ih,
      List.utf8Encode_singleton,List.data_toByteArray,List.flatMap_cons]

theorem decimal_injective {m n : Nat} (h : decimal m=decimal n) : m=n :=
  Nat.repr_injective (toUTF8_injective h)

/-- The length ends at the first colon. -/
theorem colon_notMem_decimal (n : Nat) : 0x3a∉decimal n := by
  intro hmem
  rw [decimal,toUTF8_eq_flatMap,List.mem_flatMap] at hmem
  obtain ⟨c,hc,hcolon⟩ := hmem
  have hdigit : c.isDigit=true := by
    change c∈(Nat.repr n).toList at hc
    rw [Nat.toList_repr] at hc
    exact Nat.isDigit_of_mem_toDigits (by decide) (by decide) hc
  have hlow : 48≤c.val.toNat ∧ c.val.toNat≤57 := by
    simpa [Char.isDigit,UInt32.le_iff_toNat_le] using hdigit
  have hsmall : c.val.toNat≤127 := by omega
  simp only [String.utf8EncodeChar,hsmall,if_true,List.mem_singleton] at hcolon
  have hval := congrArg UInt8.toNat hcolon
  simp only [UInt8.reduceToNat,UInt8.toNat_ofNat'] at hval
  omega

/-- A field is read back from the front of whatever follows it. -/
theorem netstring_append_inj {v w x y : List UInt8} (h : netstring v++x=netstring w++y) :
    v=w ∧ x=y := by
  simp only [netstring,List.append_assoc,List.cons_append] at h
  have hlen : decimal v.length=decimal w.length := by
    have hfront := congrArg (List.takeWhile (· ≠ 0x3a)) h
    have hread : ∀ (n : Nat) (z : List UInt8),
        (decimal n++0x3a::z).takeWhile (· ≠ 0x3a)=decimal n := by
      intro n z
      rw [List.takeWhile_append_of_pos]
      · simp
      · intro b hb
        simpa using ne_of_mem_of_not_mem hb (colon_notMem_decimal n)
    rwa [hread,hread] at hfront
  rw [hlen] at h
  have hrest := List.append_cancel_left h
  rw [List.cons.injEq] at hrest
  exact List.append_inj hrest.2 (decimal_injective hlen)

/-- A fixed number of fields is read back, and so is what follows them. -/
theorem netstrings_append_inj {vs ws : List (List UInt8)} {x y : List UInt8}
    (hlen : vs.length=ws.length) (h : netstrings vs++x=netstrings ws++y) : vs=ws ∧ x=y := by
  induction vs generalizing ws with
  | nil =>
    obtain rfl : ws=[] := List.length_eq_zero_iff.mp hlen.symm
    exact ⟨rfl,h⟩
  | cons v vs ih =>
    cases ws with
    | nil => cases hlen
    | cons w ws =>
      simp only [netstrings,List.flatMap_cons,List.append_assoc] at h
      obtain ⟨rfl,htail⟩ := netstring_append_inj h
      obtain ⟨rfl,hend⟩ := ih (Nat.succ.inj hlen) htail
      exact ⟨rfl,hend⟩

section Chain

variable {ε η : Type*} {link : η → ε → η} {genesis : η}

/-- The head of a chain in which each entry is digested together with the head before it. -/
def chainHead (link : η → ε → η) (genesis : η) (entries : List ε) : η := entries.foldl link genesis

@[simp] theorem chainHead_concat (entries : List ε) (e : ε) :
    chainHead link genesis (entries++[e])=link (chainHead link genesis entries) e := by
  simp [chainHead]

/-- Where a link gives its entry and its predecessor away and is never the genesis value, the head
gives away the whole chain. -/
theorem chainHead_injective (hinj : ∀ g h d e,link g d=link h e → g=h ∧ d=e)
    (hfresh : ∀ h e,link h e≠genesis) {as bs : List ε}
    (h : chainHead link genesis as=chainHead link genesis bs) : as=bs := by
  -- backwards from the head; the chains end together, because no link is the genesis value
  induction as using List.reverseRecOn generalizing bs with
  | nil =>
    induction bs using List.reverseRecOn with
    | nil => rfl
    | append_singleton bs e _ =>
      rw [chainHead_concat] at h
      exact absurd h.symm (hfresh _ e)
  | append_singleton as d ih =>
    induction bs using List.reverseRecOn with
    | nil =>
      rw [chainHead_concat] at h
      exact absurd h (hfresh _ d)
    | append_singleton bs e _ =>
      rw [chainHead_concat,chainHead_concat] at h
      obtain ⟨hprev,rfl⟩ := hinj _ _ _ _ h
      rw [ih hprev]

end Chain

end FastPki

import FastPki.Framework.Percent
import FastPki.Framework.Substring
import FastPki.X509.Name
import Mathlib.Data.List.DropRight

namespace FastPki.Pkcs11

open X509

/-! Keys of a token by their URI, which may hold the PIN of the token. -/

def scheme : Octets := octets "pkcs11:"
def pinValue : Octets := octets "pin-value="
def pinSource : Octets := octets "pin-source="
def redacted : Octets := octets "(redacted)"

def question : UInt8 := 0x3f
def ampersand : UInt8 := 0x26
def semicolon : UInt8 := 0x3b

/-- The value of an attribute of the path. -/
def pkcs11UriAttr (uri name : Octets) : Octets :=
  if scheme.isPrefixOf uri then
    let path := (uri.drop scheme.length).takeWhile (· ≠ question)
    let want := name++[0x3d]
    match (path.splitOn semicolon).find? want.isPrefixOf with
    | none => []
    | some a => Percent.decode (a.drop want.length)
  else []

/-- The URI as it may be shown. -/
def pkcs11UriRedacted (uri : Octets) : Octets :=
  match splitFirst pinValue uri with
  | none => uri
  | some (pre,rest) =>
    pre++pinValue++redacted++(rest.drop pinValue.length).dropWhile fun c =>
      c ≠ semicolon && c ≠ question && c ≠ ampersand

/-- The PIN in the attributes of the query, or else the last file they name. -/
def readQuery (src : Octets) : List Octets → Option Octets × Octets
  | [] => (none,src)
  | a::rest =>
    if pinValue.isPrefixOf a then (some (Percent.decode (a.drop pinValue.length)),src)
    else readQuery (if pinSource.isPrefixOf a then Percent.decode (a.drop pinSource.length)
      else src) rest

/-- `firstLine` is the first line of a file that can be opened. -/
def pkcs11ResolvePin (firstLine : Octets → Option Octets) (uri pinFile : Octets) : Octets :=
  let query := if scheme.isPrefixOf uri then (uri.dropWhile (· ≠ question)).drop 1 else []
  match readQuery [] (query.splitOn ampersand) with
  | (some pin,_) => pin
  | (none,src) =>
    let p := if src ≠ [] then src else pinFile
    if p = [] then []
    else ((firstLine p).getD []).rdropWhile fun c => c = 0x0d || c = 0x0a || c = 0x20

section Redaction

/-- A URI up to an attribute of its query. -/
def before (path : Octets) (attrs : List Octets) : Octets :=
  scheme++path++question::attrs.flatMap (·++[ampersand])

/-- The attributes behind one. -/
def behind (attrs : List Octets) : Octets := attrs.flatMap (ampersand::·)

/-- A pattern cannot reach over a symbol it does not have. -/
theorem firstAfter_of_not_infix {a : UInt8} {pat p r : Octets} (ha : a∉pat) (hr : pat<+:r)
    (h : ¬pat<:+:p++[a]) : FirstAfter pat (p++[a]) r := by
  refine ⟨hr,fun q hq hpre => h ?_⟩
  rw [List.length_append,List.length_singleton] at hq
  rw [List.append_assoc,List.singleton_append,
    List.drop_append_of_le_length (Nat.lt_succ_iff.mp hq),prefix_append_cons_iff ha] at hpre
  exact hpre.isInfix.trans ((List.drop_suffix q p).isInfix.trans (List.prefix_append p [a]).isInfix)

theorem splitOn_attrs {attrs : List Octets} (h : ∀ a∈attrs,ampersand∉a) (s : Octets) :
    (attrs.flatMap (·++[ampersand])++s).splitOn ampersand=attrs++s.splitOn ampersand := by
  induction attrs with
  | nil => rfl
  | cons a attrs ih =>
    have hrest : ∀ b∈attrs,ampersand∉b := fun b hb => h b (List.mem_cons_of_mem a hb)
    rw [List.flatMap_cons,List.append_assoc,List.append_assoc,List.singleton_append,
      List.splitOn_append_cons_self_of_not_mem (h a List.mem_cons_self),ih hrest,List.cons_append]

theorem splitOn_behind {attrs : List Octets} (h : ∀ a∈attrs,ampersand∉a) {s : Octets}
    (hs : ampersand∉s) : (s++behind attrs).splitOn ampersand=s::attrs := by
  induction attrs generalizing s with
  | nil => rw [behind,List.flatMap_nil,List.append_nil,List.splitOn_eq_singleton hs]
  | cons a attrs ih =>
    have hrest : ∀ b∈attrs,ampersand∉b := fun b hb => h b (List.mem_cons_of_mem a hb)
    have hcons : behind (a::attrs)=ampersand::(a++behind attrs) := by simp [behind]
    rw [hcons,List.splitOn_append_cons_self_of_not_mem hs,ih hrest (h a List.mem_cons_self)]

theorem readQuery_pin {attrs : List Octets} (h : ∀ a∈attrs,¬pinValue<+:a) (src r : Octets)
    (rest : List Octets) :
    (readQuery src (attrs++(pinValue++r)::rest)).1=some (Percent.decode r) := by
  induction attrs generalizing src with
  | nil =>
    have hpre : pinValue.isPrefixOf (pinValue++r)=true :=
      List.isPrefixOf_iff_prefix.mpr (List.prefix_append _ _)
    rw [List.nil_append,readQuery,if_pos hpre,List.drop_left]
  | cons a attrs ih =>
    have hno : ¬pinValue.isPrefixOf a=true := by
      rw [List.isPrefixOf_iff_prefix]
      exact h a List.mem_cons_self
    rw [List.cons_append,readQuery,if_neg hno]
    exact ih (fun b hb => h b (List.mem_cons_of_mem a hb)) _

theorem before_eq (path : Octets) (attrs : List Octets) :
    ∃ p a,before path attrs=p++[a] ∧ a∉pinValue := by
  obtain rfl|⟨init,last,rfl⟩ := List.eq_nil_or_concat attrs
  · exact ⟨scheme++path,question,by simp [before],by decide⟩
  · exact ⟨scheme++path++question::(init.flatMap (·++[ampersand])++last),ampersand,
      by simp [before],by decide⟩

theorem infix_before {path a : Octets} {attrs : List Octets} (h : a∈attrs) :
    a<:+:before path attrs := by
  obtain ⟨l,r,rfl⟩ := List.append_of_mem h
  refine ⟨scheme++path++question::l.flatMap (·++[ampersand]),
    ampersand::r.flatMap (·++[ampersand]),?_⟩
  simp [before]

theorem query_of_uri {path : Octets} (h : question∉path) (attrs : List Octets) (s : Octets) :
    ((before path attrs++s).dropWhile (· ≠ question)).drop 1=
      attrs.flatMap (·++[ampersand])++s := by
  have hpath : ∀ c∈scheme++path,decide (c≠question)=true := by
    intro c hc
    rw [decide_eq_true_iff]
    rintro rfl
    obtain hscheme|hmem := List.mem_append.mp hc
    · exact absurd hscheme (by decide)
    · exact h hmem
  rw [before,List.append_assoc,List.cons_append,List.dropWhile_append_of_pos hpath,
    List.dropWhile_cons_of_neg (by simp)]
  rfl

/-- The attributes of the path do not depend on the query. -/
theorem pkcs11UriAttr_before {path : Octets} (h : question∉path) (attrs : List Octets)
    (s name : Octets) : pkcs11UriAttr (before path attrs++s) name=pkcs11UriAttr (scheme++path) name := by
  have hfull : ∀ t,scheme.isPrefixOf (scheme++t)=true := fun t =>
    List.isPrefixOf_iff_prefix.mpr (List.prefix_append _ _)
  have hpath : ∀ c∈path,decide (c≠question)=true := by
    intro c hc
    rw [decide_eq_true_iff]
    rintro rfl
    exact h hc
  have hpart : before path attrs++s=scheme++(path++question::(attrs.flatMap (·++[ampersand])++s)) := by
    simp [before]
  have hlong : (path++question::(attrs.flatMap (·++[ampersand])++s)).takeWhile (· ≠ question)=path := by
    rw [List.takeWhile_append_of_pos hpath,List.takeWhile_cons_of_neg (by simp),List.append_nil]
  have hshort : path.takeWhile (· ≠ question)=path := List.takeWhile_eq_self_iff.mpr hpath
  rw [hpart,pkcs11UriAttr,pkcs11UriAttr,if_pos (hfull _),if_pos (hfull _),List.drop_left,
    List.drop_left,hlong,hshort]

/-- What is left of the value behind the first separator in it. -/
theorem dropWhile_value {r : Octets} (h : ampersand∉r) (attrs : List Octets) :
    (r++behind attrs).dropWhile
        (fun c => c ≠ semicolon && c ≠ question && c ≠ ampersand)=
      r.dropWhile (fun c => c ≠ semicolon && c ≠ question)++behind attrs := by
  induction r with
  | nil =>
    cases attrs with
    | nil => rfl
    | cons a attrs => rfl
  | cons c r ih =>
    have hc : c≠ampersand := fun heq => h (heq ▸ List.mem_cons_self)
    have hr : ampersand∉r := fun hmem => h (List.mem_cons_of_mem c hmem)
    by_cases hsep : (c ≠ semicolon && c ≠ question)=true
    · rw [List.cons_append,List.dropWhile_cons_of_pos (by simpa [hc] using hsep),ih hr,
        List.dropWhile_cons_of_pos (by simpa using hsep)]
    · rw [List.cons_append,List.dropWhile_cons_of_neg (by simpa [hc] using hsep),
        List.dropWhile_cons_of_neg (by simpa using hsep),List.cons_append]

/-- A URI that gives the PIN in its query. It is read back, decoded; the text to show names the same
key, has the rest of the URI as it is, and of the PIN what is behind a semicolon or a question mark in
it, so that it hides the PIN exactly where it has neither. -/
theorem pkcs11_pin_redacted (firstLine : Octets → Option Octets) (pinFile path r : Octets)
    (attrs others : List Octets) (hpath : question∉path) (hattrs : ∀ a∈attrs,ampersand∉a)
    (hr : ampersand∉r) (hothers : ∀ a∈others,ampersand∉a)
    (hfirst : ¬pinValue<:+:before path attrs) :
    let uri := before path attrs++(pinValue++r++behind others)
    pkcs11ResolvePin firstLine uri pinFile=Percent.decode r ∧
    pkcs11UriRedacted uri=before path attrs++pinValue++redacted++
      (r.dropWhile (fun c => c ≠ semicolon && c ≠ question)++behind others) ∧
    (∀ name,pkcs11UriAttr (pkcs11UriRedacted uri) name=pkcs11UriAttr uri name) ∧
    (pkcs11UriRedacted uri=before path attrs++pinValue++redacted++behind others ↔
      semicolon∉r ∧ question∉r) := by
  intro uri
  obtain ⟨p,a,hbefore,ha⟩ := before_eq path attrs
  have hprefix : pinValue<+:pinValue++r++behind others := by
    rw [List.append_assoc]
    exact List.prefix_append _ _
  have hsplit : splitFirst pinValue uri=some (before path attrs,pinValue++r++behind others) := by
    apply splitFirst_append
    rw [hbefore] at hfirst ⊢
    exact firstAfter_of_not_infix ha hprefix hfirst
  have hshown : pkcs11UriRedacted uri=before path attrs++pinValue++redacted++
      (r.dropWhile (fun c => c ≠ semicolon && c ≠ question)++behind others) := by
    rw [pkcs11UriRedacted,hsplit]
    simp only
    rw [List.append_assoc pinValue,List.drop_left,dropWhile_value hr]
  refine ⟨?_,hshown,fun name => ?_,?_⟩
  · have hscheme : scheme.isPrefixOf uri=true := by
      rw [List.isPrefixOf_iff_prefix]
      exact ⟨path++question::attrs.flatMap (·++[ampersand])++(pinValue++r++behind others),
        by simp [uri,before]⟩
    have hvalue : ampersand∉pinValue++r := fun hmem =>
      (List.mem_append.mp hmem).elim (fun h => absurd h (by decide)) hr
    have hnone : ∀ a∈attrs,¬pinValue<+:a := fun a hmem hpre =>
      hfirst (hpre.isInfix.trans (infix_before hmem))
    have hread := readQuery_pin hnone [] r others
    simp only [pkcs11ResolvePin,hscheme,if_true]
    rw [query_of_uri hpath,splitOn_attrs hattrs,splitOn_behind hothers hvalue]
    split
    · next pin src heq =>
      rw [heq] at hread
      exact Option.some.inj hread
    · next src heq =>
      rw [heq] at hread
      cases hread
  · rw [hshown,List.append_assoc,List.append_assoc,pkcs11UriAttr_before hpath,
      pkcs11UriAttr_before hpath]
  · rw [hshown,List.append_cancel_left_eq,List.append_left_eq_self,List.dropWhile_eq_nil_iff]
    constructor
    · intro hall
      exact ⟨fun hmem => absurd (hall semicolon hmem) (by decide),
        fun hmem => absurd (hall question hmem) (by decide)⟩
    · rintro ⟨hsemi,hquestion⟩ c hc
      have h1 : c≠semicolon := fun heq => hsemi (heq ▸ hc)
      have h2 : c≠question := fun heq => hquestion (heq ▸ hc)
      simp [h1,h2]

/-- A PIN with a semicolon in it is shown in part. -/
theorem pkcs11_pin_redacted_part :
    let uri := octets "pkcs11:token=ca?pin-value=12;34"
    pkcs11ResolvePin (fun _ => none) uri []=octets "12;34" ∧
      pkcs11UriRedacted uri=octets "pkcs11:token=ca?pin-value=(redacted);34" := by
  have h := pkcs11_pin_redacted (fun _ => none) [] (octets "token=ca") (octets "12;34") [] []
    (by decide) nofun (by decide) nofun (by decide)
  have huri : before (octets "token=ca") []++(pinValue++octets "12;34"++behind [])=
      octets "pkcs11:token=ca?pin-value=12;34" := by decide +kernel
  rw [huri] at h
  exact ⟨h.1.trans (by decide +kernel),h.2.1.trans (by decide +kernel)⟩

end Redaction

end FastPki.Pkcs11

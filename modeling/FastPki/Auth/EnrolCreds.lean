import FastPki.Framework.Base64
import FastPki.Framework.Run
import FastPki.Jws.Base64url
import FastPki.Rbac.Grants
import Mathlib.Data.List.TakeWhile
import Mathlib.Logic.Function.Basic

namespace FastPki.Auth.EnrolCreds

open Rbac (RoleGrant cStr permissionVerb)
open X509 (Octets octets asText octets_asText)

/-- The values of `keys.protocol`. -/
inductive KeyProto where
  | cmp | eab | scep
  deriving DecidableEq

structure EnrolmentCreds where
  kid : String
  cmpSecret : String := ""
  eabHmac : String := ""
  scepSecret : String := ""
  deriving DecidableEq

def EnrolmentCreds.secret (c : EnrolmentCreds) : KeyProto → String
  | .cmp => c.cmpSecret
  | .eab => c.eabHmac
  | .scep => c.scepSecret

def EnrolmentCreds.put (c : EnrolmentCreds) (s : String) : KeyProto → EnrolmentCreds
  | .cmp => { c with cmpSecret := s }
  | .eab => { c with eabHmac := s }
  | .scep => { c with scepSecret := s }

/-- The order in which the credentials are minted. -/
def KeyProto.rank : KeyProto → Nat
  | .cmp => 0
  | .eab => 1
  | .scep => 2

def KeyProto.next : KeyProto → Option KeyProto
  | .cmp => some .eab
  | .eab => some .scep
  | .scep => none

/-- The text of 32 octets of `RAND_bytes`. -/
def randomSecret (buf : Vector UInt8 32) : String := asText (Jws.base64urlEncode buf.toList)

/-- The table `keys`, one row for each kid and protocol. -/
abbrev Keys := String → KeyProto → Option String

def getSharedSecret (keys : Keys) (kid : String) (p : KeyProto) : Option String := keys (cStr kid) p

def upsertSharedSecret (keys : Keys) (kid : String) (p : KeyProto) (key : String) : Keys :=
  fun k q => if k = cStr kid ∧ q = p then some (cStr key) else keys k q

/-- `grants` is what `list_role_grants` answers; `none` where it throws. -/
def roleEnrols (grants : String → Option (List RoleGrant)) (role : String) : Bool :=
  if role = "" then false
  else match grants role with
    | some gs => gs.any fun g => g.permission = "*:*" || permissionVerb g.permission = "enrol"
    | none => false

def anyRoleEnrols (grants : String → Option (List RoleGrant)) (roles : List String) : Bool :=
  roles.any (roleEnrols grants)

/-- Where a call of `ensure_enrolment_creds` stands: before its gate, before one of its statements,
or returned with the credentials, returned with nothing, or thrown. -/
inductive Stage where
  | gate
  | select (p : KeyProto)
  | upsert (p : KeyProto)
  | returned
  | nothing
  | threw
  deriving DecidableEq

structure Call where
  username : String
  roles : List String
  creds : EnrolmentCreds
  stage : Stage
  deriving DecidableEq

/-- The call has its secret for `p` and has left that protocol behind. -/
def Stage.settled : Stage → KeyProto → Bool
  | .select q,p => p.rank < q.rank
  | .upsert q,p => p.rank < q.rank
  | .returned,_ => true
  | _,_ => false

def Stage.finished : Stage → Bool
  | .returned => true
  | .nothing => true
  | .threw => true
  | _ => false

/-- On to the next protocol. -/
def Stage.after (p : KeyProto) : Stage :=
  match p.next with
  | some q => .select q
  | none => .returned

/-- What the statement at hand meets. `drawn` is what `RAND_bytes` gives if a secret is minted;
a statement that fails may have been carried out all the same. -/
inductive Event where
  | gate (grants : String → Option (List RoleGrant))
  | select (drawn : Option (Vector UInt8 32))
  | upsert
  | fail (applied : Bool)

structure Site where
  keys : Keys
  calls : Nat → Option Call

inductive Act where
  | call (i : Nat) (username : String) (roles : List String)
  | run (i : Nat) (e : Event)

def Call.gate (c : Call) (grants : String → Option (List RoleGrant)) : Call :=
  if c.username = "" || !anyRoleEnrols grants c.roles then { c with stage := .nothing }
  else { c with creds := { kid := c.username },stage := .select .cmp }

def Call.mint (c : Call) (p : KeyProto) (drawn : Option (Vector UInt8 32)) : Call :=
  match drawn with
  | some buf => { c with creds := c.creds.put (randomSecret buf) p,stage := .upsert p }
  | none => { c with stage := .threw }

/-- A secret that is there is taken; a missing or an empty one is minted. -/
def Call.select (c : Call) (p : KeyProto) (stored : Option String)
    (drawn : Option (Vector UInt8 32)) : Call :=
  match stored with
  | some s => if s ≠ "" then { c with creds := c.creds.put s p,stage := .after p }
      else c.mint p drawn
  | none => c.mint p drawn

/-- One statement of one call, with what it leaves of the table. -/
def Call.step (keys : Keys) (c : Call) : Event → Keys × Call
  | .gate grants => if c.stage = .gate then (keys,c.gate grants) else (keys,c)
  | .select drawn => match c.stage with
    | .select p => (keys,c.select p (getSharedSecret keys c.creds.kid p) drawn)
    | _ => (keys,c)
  | .upsert => match c.stage with
    | .upsert p => (upsertSharedSecret keys c.creds.kid p (c.creds.secret p),
        { c with stage := .after p })
    | _ => (keys,c)
  | .fail applied => match c.stage with
    | .select _ => (keys,{ c with stage := .threw })
    | .upsert p =>
      (if applied then upsertSharedSecret keys c.creds.kid p (c.creds.secret p) else keys,
        { c with stage := .threw })
    | _ => (keys,c)

def Site.step (s : Site) : Act → Site
  | .call i username roles => match s.calls i with
    | some _ => s
    | none => { s with calls := Function.update s.calls i (some
        { username := username,roles := roles,creds := { kid := "" },stage := .gate }) }
  | .run i e => match s.calls i with
    | some c => ⟨(c.step s.keys e).1,Function.update s.calls i (some (c.step s.keys e).2)⟩
    | none => s

/-- No call has begun. -/
def Site.fresh (keys : Keys) : Site := ⟨keys,fun _ => none⟩

/-- Every call has returned or thrown. -/
def Site.Finished (s : Site) : Prop := ∀ i c,s.calls i=some c → c.stage.finished=true

/-- The secrets that calls have returned are the stored ones. -/
def Site.HandedOut (s : Site) : Prop :=
  ∀ i c,s.calls i=some c → c.stage=.returned →
    ∀ p,getSharedSecret s.keys c.creds.kid p=some (c.creds.secret p)

/-- The statement, where it writes a secret, writes one that is missing or empty. -/
def Call.findsNone (keys : Keys) (c : Call) : Event → Bool
  | .upsert | .fail true => match c.stage with
    | .upsert p => (getSharedSecret keys c.creds.kid p).getD "" = ""
    | _ => true
  | _ => true

def Site.findsNone (s : Site) : Act → Bool
  | .call _ _ _ => true
  | .run i e => match s.calls i with
    | some c => c.findsNone s.keys e
    | none => true

@[simp] theorem EnrolmentCreds.kid_put (c : EnrolmentCreds) (s : String) (p : KeyProto) :
    (c.put s p).kid=c.kid := by
  cases p <;> rfl

@[simp] theorem EnrolmentCreds.secret_put_self (c : EnrolmentCreds) (s : String) (p : KeyProto) :
    (c.put s p).secret p=s := by
  cases p <;> rfl

theorem EnrolmentCreds.secret_put_of_ne (c : EnrolmentCreds) (s : String) {p q : KeyProto}
    (h : q≠p) : (c.put s p).secret q=c.secret q := by
  cases p <;> cases q <;> first | rfl | exact absurd rfl h

theorem settled_after {p q : KeyProto} (h : (Stage.after p).settled q=true) :
    q=p ∨ q.rank < p.rank := by
  cases p <;> cases q <;> simp_all [Stage.after,KeyProto.next,Stage.settled,KeyProto.rank]

theorem ne_of_rank_lt {p q : KeyProto} (h : q.rank < p.rank) : q≠p := by
  intro heq
  rw [heq] at h
  omega

/-- As octets the text is what the encoder wrote. -/
theorem octets_randomSecret (buf : Vector UInt8 32) :
    octets (randomSecret buf)=Jws.base64urlEncode buf.toList := by
  apply octets_asText
  intro c hc
  exact Jws.ascii_of_isUrlSafe (Jws.isUrlSafe_base64urlEncode c hc)

/-- A reader that decodes a minted secret, as ACME does for the key of its HMAC, has the random octets. -/
theorem decode_randomSecret (buf : Vector UInt8 32) :
    Jws.base64urlDecode (octets (randomSecret buf))=.ok buf.toList := by
  rw [octets_randomSecret]
  exact Jws.decode_encode buf.toList

theorem randomSecret_ne_empty (buf : Vector UInt8 32) : randomSecret buf≠"" := by
  intro hempty
  have hdecode := decode_randomSecret buf
  rw [hempty] at hdecode
  have hnil : buf.toList=[] := (Except.ok.inj hdecode).symm
  have hlength : buf.toList.length=32 := buf.length_toList
  rw [hnil] at hlength
  cases hlength

/-- The alphabet has no NUL, so that all of a minted secret is stored. -/
theorem cStr_randomSecret (buf : Vector UInt8 32) : cStr (randomSecret buf)=randomSecret buf := by
  have hall : ∀ c∈(randomSecret buf).toList,decide (c ≠ '\x00')=true := by
    intro c hc
    rw [randomSecret,asText,String.toList_ofList,List.mem_map] at hc
    obtain ⟨b,hb,rfl⟩ := hc
    have hsafe := Jws.isUrlSafe_base64urlEncode b hb
    refine decide_eq_true fun heq => ?_
    have hval := congrArg (fun c : Char => c.val.toNat) heq
    have hlt := b.toNat_lt
    rw [val_ofNat (by omega)] at hval
    have hzero : b=0 := UInt8.toNat_inj.mp hval
    rw [hzero] at hsafe
    exact absurd hsafe (by decide)
  have hwhole : (randomSecret buf).toList.takeWhile (· ≠ '\x00')=(randomSecret buf).toList :=
    List.takeWhile_eq_self_iff.mpr hall
  rw [cStr,hwhole,String.ofList_toList]

theorem getSharedSecret_upsert (keys : Keys) (kid key other : String) (p q : KeyProto) :
    getSharedSecret (upsertSharedSecret keys kid p key) other q=
      if cStr other=cStr kid ∧ q=p then some (cStr key) else getSharedSecret keys other q := rfl

/-- What a call holds: a settled secret is stored and a minted one can be. -/
structure Call.Ok (keys : Keys) (c : Call) : Prop where
  settled : ∀ p,c.stage.settled p=true →
    getSharedSecret keys c.creds.kid p=some (c.creds.secret p) ∧ c.creds.secret p≠""
  minted : ∀ p,c.stage=.upsert p →
    c.creds.secret p≠"" ∧ cStr (c.creds.secret p)=c.creds.secret p

/-- A write over a missing secret is not over one that a call has settled on. -/
theorem Call.Ok.upsert {keys : Keys} {c : Call} (h : c.Ok keys) {kid : String} {p : KeyProto}
    (key : String)
    (hnone : (getSharedSecret keys kid p).getD ""="") :
    c.Ok (upsertSharedSecret keys kid p key) := by
  refine ⟨?_,h.minted⟩
  intro q hq
  obtain ⟨hstored,hne⟩ := h.settled q hq
  refine ⟨?_,hne⟩
  rw [getSharedSecret_upsert,if_neg]
  · exact hstored
  · intro hsame
    have hread : getSharedSecret keys kid p=some (c.creds.secret q) := by
      rw [← hstored,getSharedSecret,getSharedSecret,hsame.1,hsame.2]
    rw [hread] at hnone
    exact hne hnone

/-- A call that has ended without credentials, or not begun, holds nothing. -/
theorem Call.ok_of_stage (keys : Keys) {c : Call}
    (h : c.stage=.gate ∨ c.stage=.nothing ∨ c.stage=.threw) : c.Ok keys := by
  constructor
  · intro p hp
    rcases h with h | h | h <;> rw [h] at hp <;> cases hp
  · intro p hp
    rcases h with h | h | h <;> rw [h] at hp <;> cases hp

theorem Call.ok_gate (keys : Keys) (c : Call) (grants : String → Option (List RoleGrant)) :
    (c.gate grants).Ok keys := by
  unfold Call.gate
  split_ifs
  · exact ok_of_stage keys (Or.inr (Or.inl rfl))
  · constructor
    · intro p hp
      have hrank : p.rank < KeyProto.cmp.rank := of_decide_eq_true hp
      simp [KeyProto.rank] at hrank
    · intro p hp
      cases hp

theorem Call.Ok.settle {keys : Keys} {c : Call} {p : KeyProto} {s : String}
    (h : ∀ q,q.rank < p.rank →
      getSharedSecret keys c.creds.kid q=some (c.creds.secret q) ∧ c.creds.secret q≠"")
    (hstored : getSharedSecret keys c.creds.kid p=some s) (hne : s≠"") :
    ({ c with creds := c.creds.put s p,stage := .after p } : Call).Ok keys := by
  constructor
  · intro q hq
    rcases settled_after hq with heq | hlt
    · subst heq
      simpa using ⟨hstored,hne⟩
    · simpa [EnrolmentCreds.secret_put_of_ne c.creds s (ne_of_rank_lt hlt)] using h q hlt
  · intro q hq
    cases p <;> cases hq

theorem Call.Ok.mint {keys : Keys} {c : Call} {p : KeyProto} (drawn : Option (Vector UInt8 32))
    (h : ∀ q,q.rank < p.rank →
      getSharedSecret keys c.creds.kid q=some (c.creds.secret q) ∧ c.creds.secret q≠"") :
    (c.mint p drawn).Ok keys := by
  cases drawn with
  | none => exact ok_of_stage keys (Or.inr (Or.inr rfl))
  | some buf =>
    constructor
    · intro q hq
      have hlt : q.rank < p.rank := of_decide_eq_true hq
      simpa [Call.mint,EnrolmentCreds.secret_put_of_ne c.creds _ (ne_of_rank_lt hlt)] using h q hlt
    · intro q hq
      have heq : p=q := Stage.upsert.inj hq
      subst heq
      simpa [Call.mint] using ⟨randomSecret_ne_empty buf,cStr_randomSecret buf⟩

theorem Call.Ok.select {keys : Keys} {c : Call} (h : c.Ok keys) {p : KeyProto}
    (hstage : c.stage=.select p) (drawn : Option (Vector UInt8 32)) :
    (c.select p (getSharedSecret keys c.creds.kid p) drawn).Ok keys := by
  have hbefore : ∀ q,q.rank < p.rank →
      getSharedSecret keys c.creds.kid q=some (c.creds.secret q) ∧ c.creds.secret q≠"" := by
    intro q hq
    apply h.settled q
    rw [hstage]
    exact decide_eq_true hq
  cases hstored : getSharedSecret keys c.creds.kid p with
  | none => exact Call.Ok.mint drawn hbefore
  | some s =>
    simp only [Call.select]
    split_ifs with hne
    · exact Call.Ok.settle hbefore hstored hne
    · exact Call.Ok.mint drawn hbefore

/-- The minted secret is stored, and the call is past its protocol. -/
theorem Call.Ok.stored {keys : Keys} {c : Call} (h : c.Ok keys) {p : KeyProto}
    (hstage : c.stage=.upsert p)
    (hnone : (getSharedSecret keys c.creds.kid p).getD ""="") :
    ({ c with stage := .after p } : Call).Ok
      (upsertSharedSecret keys c.creds.kid p (c.creds.secret p)) := by
  have hkept := h.upsert (c.creds.secret p) hnone
  obtain ⟨hne,hcstr⟩ := h.minted p hstage
  constructor
  · intro q hq
    rcases settled_after hq with heq | hlt
    · subst heq
      refine ⟨?_,hne⟩
      rw [getSharedSecret_upsert,if_pos ⟨rfl,rfl⟩,hcstr]
    · apply hkept.settled q
      rw [hstage]
      exact decide_eq_true hlt
  · intro q hq
    cases p <;> cases hq

def Site.Ok (s : Site) : Prop := ∀ i c,s.calls i=some c → c.Ok s.keys

/-- A statement of one call keeps what that call holds and what every other call does. -/
theorem Call.step_ok {keys : Keys} {c d : Call} (hc : c.Ok keys) (hd : d.Ok keys) (e : Event)
    (hnone : c.findsNone keys e=true) :
    (c.step keys e).2.Ok (c.step keys e).1 ∧ d.Ok (c.step keys e).1 := by
  cases e with
  | gate grants =>
    simp only [Call.step]
    split_ifs
    · exact ⟨ok_gate keys c grants,hd⟩
    · exact ⟨hc,hd⟩
  | select drawn =>
    simp only [Call.step]
    split
    · next p hstage => exact ⟨hc.select hstage drawn,hd⟩
    · exact ⟨hc,hd⟩
  | upsert =>
    simp only [Call.step]
    split
    · next p hstage =>
      simp only [Call.findsNone,hstage,decide_eq_true_eq] at hnone
      exact ⟨hc.stored hstage hnone,hd.upsert _ hnone⟩
    · exact ⟨hc,hd⟩
  | fail applied =>
    simp only [Call.step]
    split
    · exact ⟨ok_of_stage _ (Or.inr (Or.inr rfl)),hd⟩
    · next p hstage =>
      refine ⟨ok_of_stage _ (Or.inr (Or.inr rfl)),?_⟩
      cases applied with
      | false => exact hd
      | true =>
        simp only [Call.findsNone,hstage,decide_eq_true_eq] at hnone
        exact hd.upsert _ hnone
    · exact ⟨hc,hd⟩

def Act.caller : Act → Nat
  | .call i _ _ => i
  | .run i _ => i

theorem calls_step_of_ne (s : Site) {a : Act} {i : Nat} (h : a.caller≠i) :
    (s.step a).calls i=s.calls i := by
  cases a with
  | call j username roles =>
    simp only [Site.step]
    split
    · rfl
    · exact Function.update_of_ne (Ne.symm h) _ _
  | run j e =>
    simp only [Site.step]
    split
    · exact Function.update_of_ne (Ne.symm h) _ _
    · rfl

theorem calls_run_of_ne {i : Nat} (as : List Act) (h : ∀ a∈as,a.caller≠i) (s : Site) :
    (run Site.step s as).calls i=s.calls i := by
  induction as generalizing s with
  | nil => rfl
  | cons a as ih =>
    rw [run_cons,ih (fun b hb => h b (List.mem_cons_of_mem _ hb))]
    exact calls_step_of_ne s (h a List.mem_cons_self)

theorem Site.step_ok {s : Site} {a : Act} (h : s.Ok) (ha : s.findsNone a=true) : (s.step a).Ok := by
  cases a with
  | call i username roles =>
    simp only [Site.step]
    split
    · exact h
    · intro j c hj
      by_cases hij : j=i
      · subst hij
        simp only [Function.update_self,Option.some.injEq] at hj
        rw [← hj]
        exact Call.ok_of_stage _ (Or.inl rfl)
      · simp only [Function.update_of_ne hij] at hj
        exact h j c hj
  | run i e =>
    simp only [Site.step]
    split
    · next c hi =>
      simp only [Site.findsNone,hi] at ha
      intro j d hj
      by_cases hij : j=i
      · subst hij
        simp only [Function.update_self,Option.some.injEq] at hj
        rw [← hj]
        exact (Call.step_ok (h j c hi) (h j c hi) e ha).1
      · simp only [Function.update_of_ne hij] at hj
        exact (Call.step_ok (h i c hi) (h j d hj) e ha).2
    · exact h

/-- In a run whose writes all find the secret missing, what calls return is what is stored. -/
theorem returned_secrets_stored (keys : Keys) (as : List Act)
    (h : Along Site.step (·.findsNone ·) (Site.fresh keys) as) :
    (run Site.step (Site.fresh keys) as).HandedOut := by
  have hfresh : (Site.fresh keys).Ok := by
    intro i c hi
    cases hi
  have hok : (run Site.step (Site.fresh keys) as).Ok :=
    Along.invariant (fun s a hs ha => Site.step_ok hs ha) h hfresh
  intro i c hi hreturned p
  have hsettled : c.stage.settled p=true := by
    rw [hreturned]
    rfl
  exact ((hok i c hi).settled p hsettled).1

/-- The console role that enrols. -/
def requesterGrants : String → Option (List RoleGrant) := fun r =>
  some [⟨r,"cmp:enrol","*"⟩]

/-- 32 times the same octet. -/
def drawn (b : UInt8) : Option (Vector UInt8 32) := some (Vector.replicate 32 b)

/-- One call from its start to its end. -/
def alone (i : Nat) (b : UInt8) : List Act :=
  [.call i "alice" ["requester"],.run i (.gate requesterGrants),
    .run i (.select (drawn b)),.run i .upsert,.run i (.select (drawn b)),.run i .upsert,
    .run i (.select (drawn b)),.run i .upsert]

theorem returned_secrets_stored_in_turn :
    Along Site.step (·.findsNone ·) (Site.fresh fun _ _ => none) (alone 0 0++alone 1 1) ∧
    (run Site.step (Site.fresh fun _ _ => none) (alone 0 0++alone 1 1)).HandedOut := by
  have halong : Along Site.step (·.findsNone ·) (Site.fresh fun _ _ => none) (alone 0 0++alone 1 1) := by
    decide +kernel
  exact ⟨halong,returned_secrets_stored _ _ halong⟩

/-- The second call reads before the first one has written. -/
def crossed : List Act :=
  [.call 0 "alice" ["requester"],.run 0 (.gate requesterGrants),.run 0 (.select (drawn 0)),
    .call 1 "alice" ["requester"],.run 1 (.gate requesterGrants),.run 1 (.select (drawn 1)),
    .run 0 .upsert,.run 0 (.select (drawn 0)),.run 0 .upsert,.run 0 (.select (drawn 0)),
    .run 0 .upsert,.run 1 .upsert,.run 1 (.select (drawn 1)),.run 1 (.select (drawn 1))]

/-- Both calls have finished, and the CMP secret the first one returned is stored no more. -/
theorem crossed_calls_lose_secret :
    (run Site.step (Site.fresh fun _ _ => none) crossed).Finished ∧
    ¬(run Site.step (Site.fresh fun _ _ => none) crossed).HandedOut := by
  have hfirst : ((run Site.step (Site.fresh fun _ _ => none) crossed).calls 0).map
      (fun c => (c.stage,c.creds.kid,c.creds.cmpSecret))=
        some (.returned,"alice",randomSecret (Vector.replicate 32 0)) := by
    decide +kernel
  have hsecond : ((run Site.step (Site.fresh fun _ _ => none) crossed).calls 1).map (·.stage)=
      some .returned := by
    decide +kernel
  have hstored : getSharedSecret (run Site.step (Site.fresh fun _ _ => none) crossed).keys "alice"
      .cmp≠some (randomSecret (Vector.replicate 32 0)) := by
    decide +kernel
  constructor
  · intro i c hi
    match i with
    | 0 =>
      rw [hi] at hfirst
      simp only [Option.map_some,Option.some.injEq,Prod.mk.injEq] at hfirst
      rw [hfirst.1]
      rfl
    | 1 =>
      rw [hi] at hsecond
      simp only [Option.map_some,Option.some.injEq] at hsecond
      rw [hsecond]
      rfl
    | j+2 =>
      rw [calls_run_of_ne crossed (by simp [crossed,Act.caller])] at hi
      cases hi
  · intro h
    cases hc : (run Site.step (Site.fresh fun _ _ => none) crossed).calls 0 with
    | none =>
      rw [hc] at hfirst
      cases hfirst
    | some c =>
      rw [hc] at hfirst
      simp only [Option.map_some,Option.some.injEq,Prod.mk.injEq] at hfirst
      have hsame := h 0 c hc hfirst.1 .cmp
      rw [hfirst.2.1] at hsame
      simp only [EnrolmentCreds.secret,hfirst.2.2] at hsame
      exact hstored hsame

end FastPki.Auth.EnrolCreds

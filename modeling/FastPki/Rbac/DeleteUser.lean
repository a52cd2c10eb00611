import FastPki.Rbac.Lockout

namespace FastPki.Rbac.Users

/-- A row of `web_sessions`. -/
structure SessionRow where
  tokenHash : String
  username : String
  deriving DecidableEq

structure PinRow where
  subject : String
  hash : String
  deriving DecidableEq

structure PasskeyRow where
  credentialId : String
  subject : String
  deriving DecidableEq

/-- A row of `keys`: an enrolment secret of a user. -/
structure KeyRow where
  kid : String
  protocol : String
  key : String
  deriving DecidableEq

/-- The accounts, and what hangs on their names. -/
structure Directory where
  users : UsersDb
  sessions : List SessionRow
  pins : List PinRow
  passkeys : List PasskeyRow
  keys : List KeyRow
  deriving DecidableEq

/-- How far the deletions get whose failure is logged and not answered: of the secrets, of the role
bindings, and of the PIN and the passkeys, the first so many are carried out. -/
structure Faults where
  creds : Nat
  bindings : Nat
  waysIn : Nat
  deriving DecidableEq

/-- The protocols of `drop_enrolment_creds`. -/
def keyProtocols : List String := ["cmp","eab","scep"]

section Delete

variable (low hash : String → String)

/-- The bindings that the handler deletes: it folds the names itself, and compares the whole of them. -/
def boundTo (bs : List SubjectRole) (u : String) : List SubjectRole :=
  bs.filter fun b => b.selectorType = "user" ∧ lower b.selectorValue = lower u

/-- `DELETE /api/users`. `low` is the `lower` of the database, which reads the name up to its first
NUL, and `hash` that of the session tokens. -/
def deleteAccount (env : RoleEnv) (d : Directory) (faults : Faults) (c : Requester) (u : String) :
    Except Refusal Directory := do
  refuseIf (env.webAllowRevoke = false) writesDisabled
  refuseIf (managesUsers env.toEnv d.users c = false) ⟨403,"user:manage required"⟩
  refuseIf (u = "") ⟨400,"missing username"⟩
  refuseIf (u = c.user) ⟨400,"cannot delete your own account"⟩
  refuseIf (¬∃ a∈d.users.webUsers,low a.username = low (cStr u)) ⟨404,"no such DB user"⟩
  return {
    users := { d.users with
      webUsers := d.users.webUsers.filter fun a => low a.username ≠ low (cStr u)
      subjectRoles := d.users.subjectRoles.filter fun b =>
        b ∉ (boundTo d.users.subjectRoles u).take faults.bindings }
    sessions := d.sessions.filter fun s => ¬(low s.username = low (cStr u) ∧ s.tokenHash ≠ hash "")
    pins := if faults.waysIn < 1 then d.pins else d.pins.filter fun p => low p.subject ≠ low (cStr u)
    passkeys := if faults.waysIn < 2 then d.passkeys
      else d.passkeys.filter fun p => low p.subject ≠ low (cStr u)
    keys := d.keys.filter fun k =>
      ¬(k.kid = cStr u ∧ k.protocol ∈ keyProtocols.take faults.creds) }

/-- Nothing is left of an account whose name is `u` but for the letter case. -/
structure Gone (d : Directory) (u : String) : Prop where
  account : ∀ a∈d.users.webUsers,low a.username≠low u
  binding : ∀ b∈d.users.subjectRoles,b.selectorType="user" → low b.selectorValue≠low u
  session : ∀ s∈d.sessions,low s.username≠low u
  pin : ∀ p∈d.pins,low p.subject≠low u
  passkey : ∀ p∈d.passkeys,low p.subject≠low u
  key : ∀ k∈d.keys,low k.kid≠low u

/-- Among the accounts deleted is none of the caller's name. -/
def NotOwn (before after : Directory) (c : Requester) : Prop :=
  ∀ a∈before.users.webUsers,a∉after.users.webUsers → low a.username≠low c.user

/-- The request is not for the caller's name in another spelling, each deletion that may fail unseen is
carried out as far as it has rows to delete, the secrets are stored under the very spelling of the
request, the names of the bindings fold alike in the handler, and no session has the empty token. -/
structure Complete (d : Directory) (faults : Faults) (c : Requester) (u : String) : Prop where
  other : low (cStr u)≠low c.user
  binding : ∀ b∈d.users.subjectRoles,b.selectorType="user" → low b.selectorValue=low (cStr u) →
    b∈(boundTo d.users.subjectRoles u).take faults.bindings
  session : ∀ s∈d.sessions,low s.username=low (cStr u) → s.tokenHash≠hash ""
  pin : 1≤faults.waysIn ∨ ∀ p∈d.pins,low p.subject≠low (cStr u)
  passkey : 2≤faults.waysIn ∨ ∀ p∈d.passkeys,low p.subject≠low (cStr u)
  key : ∀ k∈d.keys,low k.kid=low (cStr u) → k.kid=cStr u ∧ k.protocol∈keyProtocols.take faults.creds

end Delete

theorem forall_filter_not_iff {α : Type*} {l : List α} {P Q : α → Prop} [DecidablePred P] :
    (∀ x∈l.filter (fun x => ¬P x),¬Q x) ↔ ∀ x∈l,Q x → P x := by
  simp only [List.mem_filter,decide_eq_true_eq,and_imp]
  constructor
  · intro h x hx hq
    by_contra hp
    exact h x hx hp hq
  · intro h x hx hp hq
    exact hp (h x hx hq)

section Delete

variable {low hash : String → String}

/-- What a request that is answered with success has done. -/
theorem deleteAccount_eq_ok {env : RoleEnv} {d t : Directory} {faults : Faults} {c : Requester}
    {u : String} (h : deleteAccount low hash env d faults c u=.ok t) :
    (∃ a∈d.users.webUsers,low a.username=low (cStr u)) ∧
      t.users.webUsers=d.users.webUsers.filter (fun a => low a.username≠low (cStr u)) ∧
      t.users.subjectRoles=d.users.subjectRoles.filter (fun b =>
        b∉(boundTo d.users.subjectRoles u).take faults.bindings) ∧
      t.sessions=d.sessions.filter (fun s => ¬(low s.username=low (cStr u) ∧ s.tokenHash≠hash "")) ∧
      t.pins=(if faults.waysIn<1 then d.pins else d.pins.filter fun p => low p.subject≠low (cStr u)) ∧
      t.passkeys=(if faults.waysIn<2 then d.passkeys
        else d.passkeys.filter fun p => low p.subject≠low (cStr u)) ∧
      t.keys=d.keys.filter (fun k =>
        ¬(k.kid=cStr u ∧ k.protocol∈keyProtocols.take faults.creds)) := by
  simp only [deleteAccount,bind_eq_ok_iff,refuseIf_eq_ok_iff] at h
  obtain ⟨_,_,_,_,_,_,_,_,_,hexists,hret⟩ := h
  obtain rfl := Except.ok.inj hret
  exact ⟨not_not.mp hexists,rfl,rfl,rfl,rfl,rfl,rfl⟩

/-- A deletion by name leaves nothing where it is carried out or has nothing to delete. -/
theorem forall_unless_skipped_iff {α : Type*} {skipped : Prop} [Decidable skipped] {l : List α}
    {name : α → String} {u : String} :
    (∀ x∈(if skipped then l else l.filter fun x => low (name x)≠low u),low (name x)≠low u) ↔
      ¬skipped ∨ ∀ x∈l,low (name x)≠low u := by
  split_ifs with hskip
  · simp [hskip]
  · simp [hskip]

theorem gone_iff {env : RoleEnv} {d t : Directory} {faults : Faults} {c : Requester} {u : String}
    (h : deleteAccount low hash env d faults c u=.ok t) :
    Gone low t (cStr u) ↔
      (∀ b∈d.users.subjectRoles,b.selectorType="user" → low b.selectorValue=low (cStr u) →
        b∈(boundTo d.users.subjectRoles u).take faults.bindings) ∧
      (∀ s∈d.sessions,low s.username=low (cStr u) → s.tokenHash≠hash "") ∧
      (1≤faults.waysIn ∨ ∀ p∈d.pins,low p.subject≠low (cStr u)) ∧
      (2≤faults.waysIn ∨ ∀ p∈d.passkeys,low p.subject≠low (cStr u)) ∧
      ∀ k∈d.keys,low k.kid=low (cStr u) → k.kid=cStr u ∧ k.protocol∈keyProtocols.take faults.creds := by
  obtain ⟨_,husers,hroles,hsessions,hpins,hpasskeys,hkeys⟩ := deleteAccount_eq_ok h
  have hbinding : (∀ b∈t.users.subjectRoles,b.selectorType="user" → low b.selectorValue≠low (cStr u)) ↔
      ∀ b∈d.users.subjectRoles,b.selectorType="user" → low b.selectorValue=low (cStr u) →
        b∈(boundTo d.users.subjectRoles u).take faults.bindings := by
    rw [hroles]
    simpa only [not_and,and_imp] using forall_filter_not_iff
      (P := fun b => b∈(boundTo d.users.subjectRoles u).take faults.bindings)
      (Q := fun b : SubjectRole => b.selectorType="user" ∧ low b.selectorValue=low (cStr u))
  have hsession : (∀ s∈t.sessions,low s.username≠low (cStr u)) ↔
      ∀ s∈d.sessions,low s.username=low (cStr u) → s.tokenHash≠hash "" := by
    rw [hsessions,forall_filter_not_iff]
    exact forall₃_congr fun s _ hs => and_iff_right hs
  have hkey : (∀ k∈t.keys,low k.kid≠low (cStr u)) ↔
      ∀ k∈d.keys,low k.kid=low (cStr u) → k.kid=cStr u ∧ k.protocol∈keyProtocols.take faults.creds := by
    rw [hkeys,forall_filter_not_iff]
  have hpin : (∀ p∈t.pins,low p.subject≠low (cStr u)) ↔
      1≤faults.waysIn ∨ ∀ p∈d.pins,low p.subject≠low (cStr u) := by
    rw [hpins,forall_unless_skipped_iff,not_lt]
  have hpasskey : (∀ p∈t.passkeys,low p.subject≠low (cStr u)) ↔
      2≤faults.waysIn ∨ ∀ p∈d.passkeys,low p.subject≠low (cStr u) := by
    rw [hpasskeys,forall_unless_skipped_iff,not_lt]
  have haccount : ∀ a∈t.users.webUsers,low a.username≠low (cStr u) := by
    rw [husers]
    simp
  constructor
  · intro hgone
    exact ⟨hbinding.mp hgone.binding,hsession.mp hgone.session,hpin.mp hgone.pin,
      hpasskey.mp hgone.passkey,hkey.mp hgone.key⟩
  · intro hall
    obtain ⟨hb,hs,hp,hk,hkeys'⟩ := hall
    exact ⟨haccount,hbinding.mpr hb,hsession.mpr hs,hpin.mpr hp,hpasskey.mpr hk,hkey.mpr hkeys'⟩

theorem notOwn_iff {env : RoleEnv} {d t : Directory} {faults : Faults} {c : Requester} {u : String}
    (h : deleteAccount low hash env d faults c u=.ok t) :
    NotOwn low d t c ↔ low (cStr u)≠low c.user := by
  obtain ⟨⟨a,ha,hname⟩,husers,_⟩ := deleteAccount_eq_ok h
  rw [NotOwn,husers]
  constructor
  · intro hown
    have hdeleted := hown a ha (by simp [hname])
    rwa [hname] at hdeleted
  · intro hne b hb hgone
    have hsame : low b.username=low (cStr u) := by
      by_contra hkept
      exact hgone (List.mem_filter.mpr ⟨hb,by simpa using hkept⟩)
    rwa [hsame]

end Delete

/-- Where the database folds names as the handler does and every deletion is carried out, the accounts
and their bindings are left as by the handler of the account tables alone. -/
theorem deleteAccount_users {hash : String → String} {env : RoleEnv} {d : Directory} {faults : Faults}
    {c : Requester} {u : String} (hall : d.users.subjectRoles.length≤faults.bindings) :
    (deleteAccount lower hash env d faults c u).map (·.users)=deleteUsers env d.users c u := by
  simp only [deleteAccount,deleteUsers,map_bind_except]
  generalize cStr u=name
  have hexists : (¬∃ a∈d.users.webUsers,lower a.username=lower name) ↔
      getWebUser d.users name=none := by
    rw [getWebUser,lookup,List.find?_eq_none]
    constructor
    · intro h a ha hname
      exact h ⟨a,ha,of_decide_eq_true hname⟩
    · intro h hex
      obtain ⟨a,ha,hname⟩ := hex
      exact h a ha (decide_eq_true hname)
  have hlen : (boundTo d.users.subjectRoles u).length≤faults.bindings :=
    (List.length_filter_le ..).trans hall
  have hroles : d.users.subjectRoles.filter (fun b =>
      b∉(boundTo d.users.subjectRoles u).take faults.bindings)=
      d.users.subjectRoles.filter fun b =>
        ¬(b.selectorType="user" ∧ lower b.selectorValue=lower u) := by
    rw [List.take_of_length_le hlen]
    apply List.filter_congr
    intro b hb
    simp [boundTo,hb]
  simp only [refuseIf_congr hexists,hroles]
  rfl

/-- A deletion that is answered with success has removed the account whole, and it was not the
caller's own, exactly if it was complete. -/
theorem delete_removes_account_whole_iff (low hash : String → String) (env : RoleEnv)
    (d t : Directory) (faults : Faults) (c : Requester) (u : String)
    (h : deleteAccount low hash env d faults c u=.ok t) :
    (Gone low t (cStr u) ∧ NotOwn low d t c) ↔ Complete low hash d faults c u := by
  rw [gone_iff h,notOwn_iff h]
  constructor
  · intro hboth
    obtain ⟨⟨hbinding,hsession,hpin,hpasskey,hkey⟩,hother⟩ := hboth
    exact ⟨hother,hbinding,hsession,hpin,hpasskey,hkey⟩
  · intro hc
    exact ⟨⟨hc.binding,hc.session,hc.pin,hc.passkey,hc.key⟩,hc.other⟩

/-- SHA-256 of the empty token. -/
def emptyTokenHash (_ : String) : String :=
  "e3b0c44298fc1c149afbf4c8996fb92427ae41e4649b934ca495991b7852b855"

def carriedOut : Faults := ⟨3,100,2⟩

def account (username role : String) : Account := ⟨username,role,"$6$h",false,0,"local",""⟩

/-- An administrator, and a user with something in every table. -/
def staffed : Directory where
  users := ⟨[account "admin" "admin",account "alice" "staff"],
    [⟨"admin",none,none,none⟩,⟨"staff",none,none,none⟩],[⟨"admin","*:*",""⟩],
    [⟨"user","alice","staff"⟩]⟩
  sessions := [⟨"ab","Alice"⟩]
  pins := [⟨"alice","$6$p"⟩]
  passkeys := [⟨"id","alice"⟩]
  keys := [⟨"alice","cmp","k1"⟩,⟨"alice","eab","k2"⟩,⟨"alice","scep","k3"⟩]

def admin : Requester := ⟨"admin","admin",[]⟩

/-- The administrator alone. -/
def unstaffed : Directory :=
  ⟨{ staffed.users with webUsers := [account "admin" "admin"], subjectRoles := [] },[],[],[],[]⟩

theorem delete_removes_alice_whole :
    deleteAccount lower emptyTokenHash consoleEnv staffed carriedOut admin "alice"=.ok unstaffed ∧
      Gone lower unstaffed (cStr "alice") ∧ NotOwn lower staffed unstaffed admin := by
  have hok : deleteAccount lower emptyTokenHash consoleEnv staffed carriedOut admin "alice"=
      .ok unstaffed := by decide +kernel
  refine ⟨hok,(delete_removes_account_whole_iff lower emptyTokenHash consoleEnv staffed unstaffed
    carriedOut admin "alice" hok).mpr ?_⟩
  exact ⟨by decide,by decide,by decide,Or.inl (by decide),
    Or.inl (by decide),by decide⟩

/-- Under another spelling of her name the secrets of alice outlive her account, and under another
spelling of his own name the administrator deletes himself. -/
theorem delete_in_another_spelling :
    (∃ t,deleteAccount lower emptyTokenHash consoleEnv staffed carriedOut admin "Alice"=.ok t ∧
      ¬Gone lower t (cStr "Alice")) ∧
    ∃ t,deleteAccount lower emptyTokenHash consoleEnv staffed carriedOut admin "Admin"=.ok t ∧
      ¬NotOwn lower staffed t admin := by
  refine ⟨⟨{ unstaffed with keys := staffed.keys },by decide +kernel,fun h => ?_⟩,
    ⟨{ staffed with users := { staffed.users with webUsers := [account "alice" "staff"] } },
      by decide +kernel,fun h => ?_⟩⟩
  · exact h.key ⟨"alice","cmp","k1"⟩ (by decide) (by decide)
  · exact h (account "admin" "admin") (by decide) (by decide) rfl

end FastPki.Rbac.Users

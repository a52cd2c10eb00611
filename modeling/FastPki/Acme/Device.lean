import FastPki.Certs.Inventory
import FastPki.Framework.Run
import FastPki.Framework.Supersede
import Mathlib.Data.List.Induction

namespace FastPki.Acme.Device

open FastPki.Certs

/-- A row of `acme_device_tickets`: the device that was attested under it, and the certificate that
was issued for its order. -/
structure DeviceTicket where
  ticket : String
  deviceSerial : Option String
  certSerial : Option String
  deriving DecidableEq

abbrev Tickets := Keyed DeviceTicket.ticket

def setDeviceTicketCert (tickets : Tickets) (ticket certSerial : String) : Tickets :=
  tickets.update (fun r => r.ticket = ticket) (fun r => { r with certSerial := some certSerial })
    fun _ => rfl

def deviceCertSerials (tickets : Tickets) (deviceSerial exceptTicket : String) : List String :=
  tickets.rows.filterMap fun r =>
    if r.deviceSerial = some deviceSerial ∧ r.ticket ≠ exceptTicket then
      r.certSerial.filter (· ≠ "")
    else none

/-- Where `handle_finalize` of a ticket's order stands: before the INSERT of its certificate, before
`set_device_ticket_cert`, before `device_cert_serials`, or within the loop over what that has
returned. -/
inductive Stage where
  | idle
  | issuing (row : Row)
  | recording (serial : String)
  | listing (serial : String)
  | revoking (serial : String) (left : List String)
  | done (issued : Option String)
  deriving DecidableEq

/-- The tables and the run of each ticket. `heard` is history: the tickets whose runs had listed when
this one recorded. -/
structure Site where
  certs : Inventory
  tickets : Tickets
  runs : String → Stage
  heard : String → String → Bool

/-- `refuse` is any end of a run before it has issued. -/
inductive Act where
  | finalize (ticket : String) (row : Row)
  | next (ticket : String) (now : Int)
  | refuse (ticket : String)

namespace Stage

def item : Stage → Option String
  | .recording x | .listing x | .revoking x _ => some x
  | .done issued => issued
  | _ => none

def announced : Stage → Bool
  | .listing _ | .revoking _ _ | .done (some _) => true
  | _ => false

def looked : Stage → Bool
  | .revoking _ _ | .done (some _) => true
  | _ => false

def todo : Stage → List String
  | .revoking _ left => left
  | _ => []

end Stage

def Site.goto (s : Site) (ticket : String) (stage : Stage) : Site :=
  { s with runs := Function.update s.runs ticket stage }

section Step

variable (device : String)

def nextStep (s : Site) (ticket : String) (now : Int) : Site :=
  match s.runs ticket with
  | .issuing row =>
    match s.certs.insertCert row with
    | some certs => { s with certs := certs }.goto ticket (.recording row.serial)
    | none => s.goto ticket (.done none)
  | .recording x =>
    { s with
      tickets := setDeviceTicketCert s.tickets ticket x
      heard := Function.update s.heard ticket fun j => (s.runs j).looked }.goto ticket (.listing x)
  | .listing x => s.goto ticket (.revoking x (deviceCertSerials s.tickets device ticket))
  | .revoking x (old::left) =>
    { s with certs := (s.certs.revokeCert old 4 now).1 }.goto ticket (.revoking x left)
  | .revoking x [] => s.goto ticket (.done (some x))
  | _ => s

/-- An order is finalized once, under a ticket of the device, with a live certificate. -/
def step (s : Site) : Act → Site
  | .finalize ticket row =>
    match s.runs ticket,s.tickets.find ticket with
    | .idle,some tk => if tk.deviceSerial = some device ∧ row.serial ≠ "" then
        s.goto ticket (.issuing { row with status := some 0 }) else s
    | _,_ => s
  | .next ticket now => nextStep device s ticket now
  | .refuse ticket =>
    match s.runs ticket with
    | .issuing _ => s.goto ticket (.done none)
    | _ => s

end Step

/-- The tables before the runs: a certificate that a ticket records is stored. -/
structure Records where
  certs : Inventory
  tickets : Tickets
  stored : ∀ tk∈tickets.rows,∀ x∈tk.certSerial,(certs.find x).isSome

def start (r : Records) : Site := ⟨r.certs,r.tickets,fun _ => .idle,fun _ _ => false⟩

def Revoked (certs : Inventory) (serial : String) : Prop :=
  ∃ row,certs.find serial=some row ∧ row.status=some (-1)

/-- The runs as parties that supersede each other's certificates. -/
def abs (s : Site) : Supersede.State String String where
  item := fun i => (s.runs i).item
  announced := fun i => (s.runs i).announced
  looked := fun i => (s.runs i).looked
  todo := fun i => (s.runs i).todo
  struck := { x | Revoked s.certs x }
  heard := s.heard

theorem view_goto {α : Type*} (f : Stage → α) (s : Site) (i : String) (st : Stage) :
    (fun k => f ((s.goto i st).runs k))=Function.update (fun k => f (s.runs k)) i (f st) :=
  Function.comp_update ..

theorem view_goto_of_eq {α : Type*} {f : Stage → α} {s : Site} {i : String} {st : Stage}
    (h : f st=f (s.runs i)) : (fun k => f ((s.goto i st).runs k))=fun k => f (s.runs k) := by
  rw [view_goto,h]
  exact Function.update_eq_self i fun k => f (s.runs k)

/-- What a run knows of the tables. -/
structure Known (device : String) (s : Site) : Prop where
  item : ∀ i,∀ x∈(s.runs i).item,(s.certs.find x).isSome ∧ x≠""
  todo : ∀ i,∀ x∈(s.runs i).todo,(s.certs.find x).isSome
  issuing : ∀ i row,s.runs i=.issuing row → row.serial≠"" ∧ row.status=some 0
  ticket : ∀ i,s.runs i≠.idle →
    ∃ tk,s.tickets.find i=some tk ∧ tk.deviceSerial=some device
  recorded : ∀ i,(s.runs i).announced=true →
    ∃ tk,s.tickets.find i=some tk ∧ tk.deviceSerial=some device ∧ tk.certSerial=(s.runs i).item
  cert : ∀ tk∈s.tickets.rows,∀ x∈tk.certSerial,(s.certs.find x).isSome ∧
    ∀ i,(s.runs i).item=some x → tk.ticket=i ∧ (s.runs i).announced=true

theorem mem_deviceCertSerials {tickets : Tickets} {device ticket x : String} :
    x∈deviceCertSerials tickets device ticket ↔ ∃ r∈tickets.rows,r.deviceSerial=some device ∧
      r.ticket≠ticket ∧ r.certSerial=some x ∧ x≠"" := by
  rw [deviceCertSerials,List.mem_filterMap]
  constructor
  · intro h
    obtain ⟨r,hr,hx⟩ := h
    split_ifs at hx with hc
    obtain ⟨hsome,hne⟩ := Option.filter_eq_some_iff.mp hx
    exact ⟨r,hr,hc.1,hc.2,hsome,by simpa using hne⟩
  · intro h
    obtain ⟨r,hr,hdev,hticket,hsome,hne⟩ := h
    refine ⟨r,hr,?_⟩
    rw [if_pos ⟨hdev,hticket⟩,hsome,Option.filter_some,if_pos]
    simpa using hne

section Known

variable {device : String} {s : Site} {i : String}

/-- A run moves on over the same tables. -/
theorem Known.goto (h : Known device s) {st : Stage}
    (hitem : ∀ x∈st.item,(s.certs.find x).isSome ∧ x≠"")
    (htodo : ∀ x∈st.todo,(s.certs.find x).isSome)
    (hissuing : ∀ row,st=.issuing row → row.serial≠"" ∧ row.status=some 0)
    (hticket : ∃ tk,s.tickets.find i=some tk ∧ tk.deviceSerial=some device)
    (hrecorded : st.announced=true →
      ∃ tk,s.tickets.find i=some tk ∧ tk.deviceSerial=some device ∧ tk.certSerial=st.item)
    (hcert : ∀ tk∈s.tickets.rows,∀ x∈tk.certSerial,st.item=some x →
      tk.ticket=i ∧ st.announced=true) : Known device (s.goto i st) where
  item := by
    intro k x hx
    by_cases hk : k=i
    · exact hitem x (by simpa [Site.goto,hk] using hx)
    · exact h.item k x (by simpa [Site.goto,hk] using hx)
  todo := by
    intro k x hx
    by_cases hk : k=i
    · exact htodo x (by simpa [Site.goto,hk] using hx)
    · exact h.todo k x (by simpa [Site.goto,hk] using hx)
  issuing := by
    intro k row hrow
    by_cases hk : k=i
    · exact hissuing row (by simpa [Site.goto,hk] using hrow)
    · exact h.issuing k row (by simpa [Site.goto,hk] using hrow)
  ticket := by
    intro k hrun
    by_cases hk : k=i
    · subst hk
      exact hticket
    · exact h.ticket k (by simpa [Site.goto,hk] using hrun)
  recorded := by
    intro k hann
    by_cases hk : k=i
    · subst hk
      simp only [Site.goto,Function.update_self] at hann ⊢
      exact hrecorded hann
    · simp only [Site.goto,Function.update_of_ne hk] at hann ⊢
      exact h.recorded k hann
  cert := by
    intro tk htk x hx
    refine ⟨(h.cert tk htk x hx).1,fun k hk => ?_⟩
    by_cases hki : k=i
    · subst hki
      simp only [Site.goto,Function.update_self] at hk ⊢
      exact hcert tk htk x hx hk
    · simp only [Site.goto,Function.update_of_ne hki] at hk ⊢
      exact (h.cert tk htk x hx).2 k hk

/-- A run that has recorded its certificate moves on with it. -/
theorem Known.after (h : Known device s) {st : Stage} {x : String}
    (hold : (s.runs i).item=some x ∧ (s.runs i).announced=true)
    (hnew : st.item=some x ∧ st.announced=true) (htodo : ∀ y∈st.todo,(s.certs.find y).isSome) :
    Known device (s.goto i st) := by
  have hbegun : s.runs i≠.idle := by
    intro hidle
    rw [hidle] at hold
    cases hold.1
  refine h.goto ?_ htodo ?_ (h.ticket i hbegun) ?_ ?_
  · rw [hnew.1,← hold.1]
    exact h.item i
  · rintro row rfl
    cases hnew.1
  · intro _
    rw [hnew.1,← hold.1]
    exact h.recorded i hold.2
  · intro tk htk y hy hsame
    rw [hnew.1,← hold.1] at hsame
    exact ⟨((h.cert tk htk y hy).2 i hsame).1,hnew.2⟩

/-- Certificates are added and revoked, and none is removed. -/
theorem Known.withCerts (h : Known device s) {certs : Inventory}
    (hkeep : ∀ x,(s.certs.find x).isSome → (certs.find x).isSome) :
    Known device { s with certs := certs } where
  item := fun k x hx => ⟨hkeep x (h.item k x hx).1,(h.item k x hx).2⟩
  todo := fun k x hx => hkeep x (h.todo k x hx)
  issuing := h.issuing
  ticket := h.ticket
  recorded := h.recorded
  cert := fun tk htk x hx => ⟨hkeep x (h.cert tk htk x hx).1,(h.cert tk htk x hx).2⟩

/-- The certificate is recorded in the ticket it was issued for. -/
theorem find_setDeviceTicketCert_self {tickets : Tickets} {x : String} {tk : DeviceTicket}
    (h : tickets.find i=some tk) :
    (setDeviceTicketCert tickets i x).find i=some { tk with certSerial := some x } := by
  have hkey : tk.ticket=i := (Keyed.find_eq_some.mp h).2
  rw [setDeviceTicketCert,Keyed.find_update,h]
  simp [hkey]

theorem find_setDeviceTicketCert_of_ne {tickets : Tickets} {k x : String} (hk : k≠i) :
    (setDeviceTicketCert tickets i x).find k=tickets.find k := by
  rw [setDeviceTicketCert,Keyed.find_update]
  cases htk : tickets.find k with
  | none => rfl
  | some tk =>
    have hkey : tk.ticket=k := (Keyed.find_eq_some.mp htk).2
    simp [hkey,hk]

/-- The run that records goes on to list, with the same certificate. -/
theorem item_listing {x : String} (hrun : s.runs i=.recording x) (k : String) :
    (Function.update s.runs i (.listing x) k).item=(s.runs k).item := by
  by_cases hk : k=i
  · simp [hk,hrun,Stage.item]
  · simp [hk]

/-- The certificate of a run is recorded in its ticket. -/
theorem Known.record (h : Known device s) {x : String} (hrun : s.runs i=.recording x)
    (honly : ∀ k,(s.runs k).item=some x → k=i) {heard : String → String → Bool} :
    Known device ({ s with
      tickets := setDeviceTicketCert s.tickets i x
      heard := heard }.goto i (.listing x)) where
  item := by
    intro k y hy
    exact h.item k y (by simpa [Site.goto,item_listing hrun] using hy)
  todo := by
    intro k y hy
    by_cases hk : k=i
    · simp [Site.goto,hk,Stage.todo] at hy
    · exact h.todo k y (by simpa [Site.goto,hk] using hy)
  issuing := by
    intro k row hrow
    by_cases hk : k=i
    · simp [Site.goto,hk] at hrow
    · exact h.issuing k row (by simpa [Site.goto,hk] using hrow)
  ticket := by
    intro k hk
    by_cases hki : k=i
    · subst hki
      obtain ⟨tk,htk,hdev⟩ := h.ticket k (by simp [hrun])
      exact ⟨_,find_setDeviceTicketCert_self htk,hdev⟩
    · obtain ⟨tk,htk,hdev⟩ := h.ticket k (by simpa [Site.goto,hki] using hk)
      exact ⟨tk,(find_setDeviceTicketCert_of_ne hki).trans htk,hdev⟩
  recorded := by
    intro k hk
    by_cases hki : k=i
    · subst hki
      obtain ⟨tk,htk,hdev⟩ := h.ticket k (by simp [hrun])
      refine ⟨_,find_setDeviceTicketCert_self htk,hdev,?_⟩
      simp [Site.goto,Stage.item]
    · obtain ⟨tk,htk,hdev,hcert⟩ := h.recorded k (by simpa [Site.goto,hki] using hk)
      refine ⟨tk,(find_setDeviceTicketCert_of_ne hki).trans htk,hdev,?_⟩
      simpa [Site.goto,hki] using hcert
  cert := by
    intro tk htk y hy
    obtain ⟨r,hr,rfl⟩ := List.mem_map.mp htk
    simp only [decide_eq_true_eq] at hy ⊢
    split_ifs at hy ⊢ with hticket
    · obtain rfl := Option.some.inj hy
      have hown : (s.certs.find x).isSome := (h.item i x (by simp [hrun,Stage.item])).1
      refine ⟨hown,fun k hk => ?_⟩
      simp only [Site.goto,item_listing hrun] at hk
      obtain rfl := honly k hk
      exact ⟨hticket,by simp [Site.goto,Stage.announced]⟩
    · refine ⟨(h.cert r hr y hy).1,fun k hk => ?_⟩
      simp only [Site.goto,item_listing hrun] at hk
      obtain ⟨hkey,hann⟩ := (h.cert r hr y hy).2 k hk
      refine ⟨hkey,?_⟩
      have hki : k≠i := fun hki => hticket (hkey.trans hki)
      simpa [Site.goto,hki] using hann

theorem find_none_of_insertCert {certs certs' : Inventory} {row : Row} {x : String}
    (hins : certs.insertCert row=some certs') (hx : row.serial=x) : certs.find x=none := by
  obtain ⟨hfree,_⟩ := Keyed.insert_eq_some hins
  cases hfind : certs.find x with
  | none => rfl
  | some r =>
    obtain ⟨hmem,hkey⟩ := Keyed.find_eq_some.mp hfind
    exact absurd (hkey.trans hx.symm) (hfree r hmem)

theorem find_revokeCert (certs : Inventory) (serial x : String) (reason now : Int) :
    (certs.revokeCert serial reason now).1.find x=(certs.find x).map fun r =>
      if r.serial=serial ∧ revocable reason r.toCertRow=true then
        { r with status := some (-1)
                 revocationReason := some reason
                 revocationDate := some now }
      else r := by
  rw [Inventory.revokeCert,Inventory.modifySerial,Inventory.find_modify]
  simp only [decide_eq_true_eq]

/-- What is revoked stays so, and the certificate named is revoked where it is stored. -/
theorem revoked_revokeCert_iff {certs : Inventory} {serial x : String} {now : Int}
    (hstored : (certs.find serial).isSome) :
    Revoked (certs.revokeCert serial 4 now).1 x ↔ x=serial ∨ Revoked certs x := by
  simp only [Revoked,find_revokeCert,Option.map_eq_some_iff]
  constructor
  · intro h
    obtain ⟨_,⟨r,hr,rfl⟩,hstatus⟩ := h
    have hkey : r.serial=x := (Keyed.find_eq_some.mp hr).2
    split_ifs at hstatus with hc
    · exact Or.inl (hkey.symm.trans hc.1)
    · exact Or.inr ⟨r,hr,hstatus⟩
  · intro h
    obtain rfl|⟨r,hr,hstatus⟩ := h
    · obtain ⟨r,hr⟩ := Option.isSome_iff_exists.mp hstored
      have hkey : r.serial=x := (Keyed.find_eq_some.mp hr).2
      refine ⟨_,⟨r,hr,rfl⟩,?_⟩
      split_ifs with hc
      · rfl
      · by_contra hlive
        exact hc ⟨hkey,by simp [revocable,hlive]⟩
    · refine ⟨_,⟨r,hr,rfl⟩,?_⟩
      split_ifs
      · rfl
      · exact hstatus

theorem revoked_insertCert_iff {certs certs' : Inventory} {row : Row} {x : String}
    (hins : certs.insertCert row=some certs') (hlive : row.status=some 0) :
    Revoked certs' x ↔ Revoked certs x := by
  have hfind := Keyed.find_insert hins x
  simp only [Revoked,hfind]
  by_cases hx : row.serial=x
  · have hfree : certs.find x=none := find_none_of_insertCert hins hx
    simp [hx,hfree,hlive]
  · simp [hx]

end Known

section Refinement

variable {device : String} {s : Site} {i : String}

/-- The first statements of a run, up to its INSERT, are none of the others' business. -/
theorem abs_goto_early {st : Stage} (hitem : st.item=(s.runs i).item)
    (hannounced : st.announced=(s.runs i).announced) (hlooked : st.looked=(s.runs i).looked)
    (htodo : st.todo=(s.runs i).todo) : abs (s.goto i st)=abs s := by
  simp only [abs]
  rw [view_goto_of_eq hitem,view_goto_of_eq hannounced,view_goto_of_eq hlooked,
    view_goto_of_eq htodo]
  rfl

theorem abs_issue {row : Row} {certs : Inventory} (hrun : s.runs i=.issuing row)
    (hins : s.certs.insertCert row=some certs) (hlive : row.status=some 0) :
    abs ({ s with certs := certs }.goto i (.recording row.serial))=(abs s).issue i row.serial := by
  simp only [abs,Supersede.State.issue]
  rw [view_goto,view_goto_of_eq (by simp [hrun,Stage.announced]),
    view_goto_of_eq (by simp [hrun,Stage.looked]),view_goto_of_eq (by simp [hrun,Stage.todo])]
  congr 1
  ext x
  exact revoked_insertCert_iff hins hlive

theorem abs_announce {x : String} (hrun : s.runs i=.recording x) {tickets : Tickets} :
    abs ({ s with
      tickets := tickets
      heard := Function.update s.heard i fun j => (s.runs j).looked }.goto i (.listing x))=
      (abs s).announce i := by
  simp only [abs,Supersede.State.announce]
  rw [view_goto_of_eq (by simp [hrun,Stage.item]),view_goto,
    view_goto_of_eq (by simp [hrun,Stage.looked]),view_goto_of_eq (by simp [hrun,Stage.todo])]
  rfl

theorem abs_look {x : String} {found : List String} (hrun : s.runs i=.listing x) :
    abs (s.goto i (.revoking x found))=(abs s).look i found := by
  simp only [abs,Supersede.State.look]
  rw [view_goto_of_eq (by simp [hrun,Stage.item]),
    view_goto_of_eq (by simp [hrun,Stage.announced]),view_goto,view_goto]
  rfl

theorem abs_strike {x old : String} {left : List String} {now : Int}
    (hrun : s.runs i=.revoking x (old::left)) (hstored : (s.certs.find old).isSome) :
    abs ({ s with certs := (s.certs.revokeCert old 4 now).1 }.goto i (.revoking x left))=
      (abs s).strike i old left := by
  simp only [abs,Supersede.State.strike]
  rw [view_goto_of_eq (by simp [hrun,Stage.item]),
    view_goto_of_eq (by simp [hrun,Stage.announced]),
    view_goto_of_eq (by simp [hrun,Stage.looked]),view_goto]
  congr 1
  ext y
  simp only [Set.mem_insert_iff,Set.mem_ofPred_eq]
  exact revoked_revokeCert_iff hstored

end Refinement

section Inv

variable {device : String} {s : Site}

def Inv (device : String) (s : Site) : Prop := Known device s ∧ Supersede.Inv (abs s)

theorem inv_issue {i : String} {row : Row} {certs : Inventory} (h : Inv device s)
    (hrun : s.runs i=.issuing row) (hins : s.certs.insertCert row=some certs) :
    Inv device ({ s with certs := certs }.goto i (.recording row.serial)) := by
  obtain ⟨hknown,hinv⟩ := h
  obtain ⟨hne,hlive⟩ := hknown.issuing i row hrun
  have hnone : s.certs.find row.serial=none := find_none_of_insertCert hins rfl
  have hkeep : ∀ x,(s.certs.find x).isSome → (certs.find x).isSome := by
    intro x hx
    rw [Keyed.find_insert hins x]
    split_ifs
    · rfl
    · exact hx
  have hown : (certs.find row.serial).isSome := by
    rw [Keyed.find_insert hins row.serial,if_pos rfl]
    rfl
  constructor
  · refine (hknown.withCerts hkeep).goto ?_ (by simp [Stage.todo]) (by simp)
      (hknown.ticket i (by simp [hrun])) (by simp [Stage.announced]) ?_
    · intro x hx
      obtain rfl := Option.some.inj hx
      exact ⟨hown,hne⟩
    · intro tk htk x hx hsame
      obtain rfl := Option.some.inj hsame
      have hstored := (hknown.cert tk htk row.serial hx).1
      rw [hnone] at hstored
      cases hstored
  · rw [abs_issue hrun hins hlive]
    refine Supersede.inv_issue hinv (by simp [abs,hrun,Stage.item]) ?_ ?_ ?_
    · intro j hj
      have hstored := (hknown.item j row.serial hj).1
      rw [hnone] at hstored
      cases hstored
    · intro j hj
      have hstored := hknown.todo j row.serial hj
      rw [hnone] at hstored
      cases hstored
    · intro hrevoked
      obtain ⟨r,hr,_⟩ := hrevoked
      rw [hnone] at hr
      cases hr

/-- A run ends without a certificate. -/
theorem inv_end {i : String} {row : Row} (h : Inv device s) (hrun : s.runs i=.issuing row) :
    Inv device (s.goto i (.done none)) := by
  constructor
  · exact h.1.goto (by simp [Stage.item]) (by simp [Stage.todo]) (by simp)
      (h.1.ticket i (by simp [hrun])) (by simp [Stage.announced]) (by simp [Stage.item])
  · rw [abs_goto_early (by simp [hrun,Stage.item]) (by simp [hrun,Stage.announced])
      (by simp [hrun,Stage.looked]) (by simp [hrun,Stage.todo])]
    exact h.2

theorem inv_record {i x : String} (h : Inv device s) (hrun : s.runs i=.recording x) :
    Inv device ({ s with
      tickets := setDeviceTicketCert s.tickets i x
      heard := Function.update s.heard i fun j => (s.runs j).looked }.goto i (.listing x)) := by
  obtain ⟨hknown,hinv⟩ := h
  have hitem : (s.runs i).item=some x := by simp [hrun,Stage.item]
  constructor
  · exact hknown.record hrun fun k hk => hinv.distinct k i x hk hitem
  · rw [abs_announce hrun]
    exact Supersede.inv_announce hinv (by simp [abs,hitem]) (by simp [abs,hrun,Stage.announced])

/-- A run lists what the other runs have recorded, and nothing that one of them has not. -/
theorem inv_list {i x : String} (h : Inv device s) (hrun : s.runs i=.listing x) :
    Inv device (s.goto i (.revoking x (deviceCertSerials s.tickets device i))) := by
  obtain ⟨hknown,hinv⟩ := h
  have hitem : (s.runs i).item=some x := by simp [hrun,Stage.item]
  have hann : (s.runs i).announced=true := by simp [hrun,Stage.announced]
  constructor
  · refine hknown.after ⟨hitem,hann⟩ ⟨rfl,rfl⟩ fun y hy => ?_
    obtain ⟨r,hr,_,_,hcert,_⟩ := mem_deviceCertSerials.mp hy
    exact (hknown.cert r hr y hcert).1
  · rw [abs_look hrun]
    refine Supersede.inv_look hinv hann (by simp [abs,hrun,Stage.looked]) ?_ ?_
    · intro j hj hjann y hy
      obtain ⟨tk,htk,hdev,hcert⟩ := hknown.recorded j hjann
      obtain ⟨hmem,hkey⟩ := Keyed.find_eq_some.mp htk
      exact mem_deviceCertSerials.mpr ⟨tk,hmem,hdev,hkey ▸ hj,hcert.trans hy,(hknown.item j y hy).2⟩
    · intro y hy j hj
      obtain ⟨r,hr,_,hticket,hcert,_⟩ := mem_deviceCertSerials.mp hy
      obtain ⟨hkey,hjann⟩ := (hknown.cert r hr y hcert).2 j hj
      exact ⟨hkey ▸ hticket,hjann⟩

theorem inv_revoke {i x old : String} {left : List String} {now : Int} (h : Inv device s)
    (hrun : s.runs i=.revoking x (old::left)) :
    Inv device ({ s with certs := (s.certs.revokeCert old 4 now).1 }.goto i (.revoking x left)) := by
  obtain ⟨hknown,hinv⟩ := h
  have hitem : (s.runs i).item=some x := by simp [hrun,Stage.item]
  have hann : (s.runs i).announced=true := by simp [hrun,Stage.announced]
  have hstored : (s.certs.find old).isSome := hknown.todo i old (by simp [hrun,Stage.todo])
  have hkeep : ∀ y,(s.certs.find y).isSome → ((s.certs.revokeCert old 4 now).1.find y).isSome := by
    intro y hy
    rwa [find_revokeCert,Option.isSome_map]
  have hknown' := hknown.withCerts hkeep
  constructor
  · refine hknown'.after ⟨hitem,hann⟩ ⟨rfl,rfl⟩ fun y hy => hknown'.todo i y ?_
    simp only [hrun,Stage.todo]
    exact List.mem_cons_of_mem _ hy
  · rw [abs_strike hrun hstored]
    exact Supersede.inv_strike hinv (by simp [abs,hrun,Stage.todo])

theorem inv_nextStep {i : String} {now : Int} (h : Inv device s) :
    Inv device (nextStep device s i now) := by
  simp only [nextStep]
  cases hrun : s.runs i with
  | idle => exact h
  | issuing row =>
    dsimp only
    cases hins : s.certs.insertCert row with
    | none => exact inv_end h hrun
    | some certs => exact inv_issue h hrun hins
  | recording x => exact inv_record h hrun
  | listing x => exact inv_list h hrun
  | revoking x left =>
    cases left with
    | nil =>
      have hitem : (s.runs i).item=some x := by simp [hrun,Stage.item]
      have hann : (s.runs i).announced=true := by simp [hrun,Stage.announced]
      constructor
      · exact h.1.after ⟨hitem,hann⟩ ⟨rfl,rfl⟩ (by simp [Stage.todo])
      · rw [abs_goto_early (by simp [hrun,Stage.item]) (by simp [hrun,Stage.announced])
          (by simp [hrun,Stage.looked]) (by simp [hrun,Stage.todo])]
        exact h.2
    | cons old left => exact inv_revoke h hrun
  | done issued => exact h

theorem inv_step (h : Inv device s) (a : Act) : Inv device (step device s a) := by
  cases a with
  | finalize i row =>
    simp only [step]
    cases hrun : s.runs i with
    | idle =>
      cases htk : s.tickets.find i with
      | none => exact h
      | some tk =>
        dsimp only
        split_ifs with hc
        · constructor
          · refine h.1.goto (by simp [Stage.item]) (by simp [Stage.todo]) ?_ ⟨tk,htk,hc.1⟩
              (by simp [Stage.announced]) (by simp [Stage.item])
            intro r hr
            obtain rfl := Stage.issuing.inj hr
            exact ⟨hc.2,rfl⟩
          · rw [abs_goto_early (by simp [hrun,Stage.item]) (by simp [hrun,Stage.announced])
              (by simp [hrun,Stage.looked]) (by simp [hrun,Stage.todo])]
            exact h.2
        · exact h
    | issuing r => exact h
    | recording x => exact h
    | listing x => exact h
    | revoking x left => exact h
    | done issued => exact h
  | next i now => exact inv_nextStep h
  | refuse i =>
    simp only [step]
    split
    · next row hrun => exact inv_end h hrun
    · exact h

theorem inv_start (r : Records) : Inv device (start r) := by
  constructor
  · constructor
    · simp [start,Stage.item]
    · simp [start,Stage.todo]
    · simp [start]
    · simp [start]
    · simp [start,Stage.announced]
    · intro tk htk x hx
      exact ⟨r.stored tk htk x hx,by simp [start,Stage.item]⟩
  · exact Supersede.inv_init { x | Revoked r.certs x }

end Inv

/-- Every run is over that has begun. -/
def Finished (s : Site) : Prop := ∀ i,s.runs i=.idle ∨ ∃ issued,s.runs i=.done issued

/-- The run of one of the tickets recorded its certificate when every other run that issued had listed
already. -/
def RecordedLast (s : Site) : Prop :=
  ∃ i,(s.runs i).item.isSome ∧ ∀ j,(s.runs j).item.isSome → j≠i → s.heard i j=true

/-- Whatever the order of their statements, of the certificates that the runs have issued exactly one
is left exactly if one run recorded after all the others had listed. -/
theorem device_keeps_one_iff (device : String) (r : Records) (as : List Act)
    (hdone : Finished (run (step device) (start r) as)) :
    (∃! x,(∃ i,(run (step device) (start r) as).runs i=.done (some x)) ∧
        ¬Revoked (run (step device) (start r) as).certs x) ↔
      RecordedLast (run (step device) (start r) as) := by
  have hinv : Inv device (run (step device) (start r) as) :=
    run_invariant (I := Inv device) (fun s a h => inv_step h a) (inv_start r) as
  generalize run (step device) (start r) as=s at hdone hinv
  have hitem : ∀ i x,(s.runs i).item=some x ↔ s.runs i=.done (some x) := by
    intro i x
    obtain hidle|⟨issued,hrun⟩ := hdone i
    · simp [hidle,Stage.item]
    · simp [hrun,Stage.item]
  have hsettled : Supersede.Settled (abs s) := by
    intro i hi
    obtain ⟨x,hx⟩ := Option.isSome_iff_exists.mp hi
    have hrun := (hitem i x).mp hx
    simp [abs,hrun,Stage.looked,Stage.todo]
  have hone := Supersede.exactly_one_left_iff hinv.2 hsettled
  simp only [← hitem]
  exact hone

def Act.ticket : Act → String
  | .finalize ticket _ | .next ticket _ | .refuse ticket => ticket

theorem runs_step_of_ne {device : String} {s : Site} {a : Act} {i : String} (h : a.ticket≠i) :
    (step device s a).runs i=s.runs i := by
  have hgoto : ∀ (t : Site) st,(t.goto a.ticket st).runs i=t.runs i := fun t st =>
    Function.update_of_ne (Ne.symm h) ..
  cases a with
  | finalize ticket row =>
    simp only [step]
    split
    · split_ifs
      · exact hgoto s _
      · rfl
    · rfl
  | next ticket now =>
    simp only [step,nextStep]
    split
    · split
      · exact hgoto _ _
      · exact hgoto s _
    · exact hgoto _ _
    · exact hgoto s _
    · exact hgoto _ _
    · exact hgoto s _
    · rfl
  | refuse ticket =>
    simp only [step]
    split
    · exact hgoto s _
    · rfl

/-- A ticket that no action names has no run. -/
theorem runs_of_not_named {device : String} {r : Records} {as : List Act} {i : String}
    (h : ∀ a∈as,a.ticket≠i) : (run (step device) (start r) as).runs i=.idle := by
  induction as using List.reverseRecOn with
  | nil => rfl
  | append_singleton as a ih =>
    rw [run_append,run_cons,run_nil,runs_step_of_ne (h a (by simp))]
    exact ih fun b hb => h b (List.mem_append_left _ hb)

/-- A new certificate of a device. -/
def deviceRow (serial : String) : Row where
  status := some 0
  revocationReason := none
  revocationDate := none
  notAfter := none
  serial := serial
  notBefore := none
  owner := "alice"
  cert := []
  caInstanceId := some "east"
  sHash := none
  iHash := none
  isCa := false
  id := none
  caEnabled := none
  privateKey := ""
  certId := none
  insSeq := none

/-- Two orders of one device, neither of them finalized. -/
def twoTickets : Records where
  certs := ⟨[],by simp⟩
  tickets := ⟨[⟨"t1",some "C02",none⟩,⟨"t2",some "C02",none⟩],by decide⟩
  stored := by simp

/-- The whole run of one order. -/
def alone (ticket serial : String) (revocations : Nat) : List Act :=
  Act.finalize ticket (deviceRow serial)::List.replicate (4+revocations) (Act.next ticket 100)

theorem finished_of_two {as : List Act} (hnamed : ∀ a∈as,a.ticket="t1" ∨ a.ticket="t2")
    {x y : Option String} (hone : (run (step "C02") (start twoTickets) as).runs "t1"=.done x)
    (htwo : (run (step "C02") (start twoTickets) as).runs "t2"=.done y) :
    Finished (run (step "C02") (start twoTickets) as) ∧
      ∀ i,((run (step "C02") (start twoTickets) as).runs i).item.isSome → i="t1" ∨ i="t2" := by
  have hidle : ∀ i,i≠"t1" → i≠"t2" →
      (run (step "C02") (start twoTickets) as).runs i=.idle := by
    intro i hi hi'
    refine runs_of_not_named fun a ha => ?_
    obtain h|h := hnamed a ha
    · exact h ▸ hi.symm
    · exact h ▸ hi'.symm
  constructor
  · intro i
    by_cases hi : i="t1"
    · exact Or.inr ⟨x,hi ▸ hone⟩
    · by_cases hi' : i="t2"
      · exact Or.inr ⟨y,hi' ▸ htwo⟩
      · exact Or.inl (hidle i hi hi')
  · intro i hitem
    by_contra hother
    obtain ⟨hi,hi'⟩ := not_or.mp hother
    rw [hidle i hi hi'] at hitem
    cases hitem

/-- One order after the other: the second certificate is left. -/
theorem device_keeps_one_in_turn :
    Finished (run (step "C02") (start twoTickets) (alone "t1" "a" 0++alone "t2" "b" 1)) ∧
      ∃! x,(∃ i,(run (step "C02") (start twoTickets)
          (alone "t1" "a" 0++alone "t2" "b" 1)).runs i=.done (some x)) ∧
        ¬Revoked (run (step "C02") (start twoTickets)
          (alone "t1" "a" 0++alone "t2" "b" 1)).certs x := by
  have hnamed : ∀ a∈alone "t1" "a" 0++alone "t2" "b" 1,a.ticket="t1" ∨ a.ticket="t2" := by
    simp [alone,Act.ticket]
  have hone : (run (step "C02") (start twoTickets)
      (alone "t1" "a" 0++alone "t2" "b" 1)).runs "t1"=.done (some "a") := by decide
  have htwo : (run (step "C02") (start twoTickets)
      (alone "t1" "a" 0++alone "t2" "b" 1)).runs "t2"=.done (some "b") := by decide
  obtain ⟨hfin,honly⟩ := finished_of_two hnamed hone htwo
  refine ⟨hfin,(device_keeps_one_iff "C02" twoTickets _ hfin).mpr ⟨"t2",?_,fun j hj hne => ?_⟩⟩
  · rw [htwo]
    rfl
  · obtain rfl|rfl := honly j hj
    · decide
    · exact absurd rfl hne

/-- Both record before one of them lists. -/
def crossed : List Act :=
  [.finalize "t1" (deviceRow "a"),.finalize "t2" (deviceRow "b"),.next "t1" 100,.next "t2" 100,
    .next "t1" 100,.next "t2" 100,.next "t1" 100,.next "t2" 100,.next "t1" 100,.next "t2" 100,
    .next "t1" 100,.next "t2" 100]

/-- Each of two runs revokes the certificate of the other, and the device is left with none. -/
theorem device_loses_both :
    Finished (run (step "C02") (start twoTickets) crossed) ∧
      ¬∃! x,(∃ i,(run (step "C02") (start twoTickets) crossed).runs i=.done (some x)) ∧
        ¬Revoked (run (step "C02") (start twoTickets) crossed).certs x := by
  have hnamed : ∀ a∈crossed,a.ticket="t1" ∨ a.ticket="t2" := by simp [crossed,Act.ticket]
  have hone : (run (step "C02") (start twoTickets) crossed).runs "t1"=.done (some "a") := by
    decide
  have htwo : (run (step "C02") (start twoTickets) crossed).runs "t2"=.done (some "b") := by
    decide
  obtain ⟨hfin,honly⟩ := finished_of_two hnamed hone htwo
  refine ⟨hfin,fun hleft => ?_⟩
  obtain ⟨x,⟨⟨i,hi⟩,hlive⟩,_⟩ := hleft
  have hrevoked : ∀ x∈["a","b"],
      ((run (step "C02") (start twoTickets) crossed).certs.find x).map (·.status)=
        some (some (-1)) := by
    decide
  apply hlive
  have hx : x∈["a","b"] := by
    obtain rfl|rfl := honly i (by simp [hi,Stage.item])
    · rw [hone] at hi
      obtain rfl := Option.some.inj (Stage.done.inj hi)
      simp
    · rw [htwo] at hi
      obtain rfl := Option.some.inj (Stage.done.inj hi)
      simp
  obtain ⟨row,hrow,hstatus⟩ := Option.map_eq_some_iff.mp (hrevoked x hx)
  exact ⟨row,hrow,hstatus⟩

end FastPki.Acme.Device

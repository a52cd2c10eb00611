import FastPki.Acme.Threads

namespace FastPki.Acme

open FastPki.X509 FastPki.Certs FastPki.Issue

/-- The thread has inserted a certificate for this order and is about to save the order. -/
def saving (orderId : String) : Thread → Bool
  | .finalizeSave o _ => o.id = orderId
  | _ => false

def issuedFor (orderId : String) (st : State) : List (String × String) :=
  st.issued.filter (·.1 = orderId)

/-- The stored order has its certificate. -/
def completed (orderId : String) (db : Db) : Bool := (getOrder db orderId).any (·.status = 3)

/-- Each certificate of the order belongs to a finalize that still has to save it, or is the one
of the stored order; and there is one at most. -/
structure Counted (orderId : String) (st : State) : Prop where
  account : (issuedFor orderId st).length=
    st.threads.countP (saving orderId)+(if completed orderId st.db then 1 else 0)
  atMost : (issuedFor orderId st).length≤1

/-- A finalize inserts while the stored order is ready and no other finalize of it is between
insert and save; a verifier saves no order that has its certificate; and new-order is about
another order. -/
def Alone (orderId : String) (st : State) : Action → Prop
  | .request _ _ _ => True
  | .run inp i =>
    match st.threads[i]? with
    | some (.finalizeInsert o _ _) => o.id=orderId →
      (∃ s,getOrder st.db orderId=some s ∧ s.status=1) ∧ ∀ t∈st.threads,saving orderId t=false
    | some (.verify .order _ _ (some o)) => o.id=orderId →
      ∀ s,getOrder st.db orderId=some s → s.status≠3
    | some (.newOrderSave _ _ _) => inp.newId≠orderId
    | some (.newOrder .next o [] true) => o.id≠orderId
    | _ => True

/-- What one statement means for this order: its row is kept, or it is completed by the thread
that was to save it, or it is saved by a verifier, or a certificate is inserted for it. -/
inductive Touches (orderId : String) (st : State) (t : Thread) (e : Effect) : Prop where
  | kept (order : getOrder e.db orderId=getOrder st.db orderId) (before : saving orderId t=false)
    (after : saving orderId e.thread=false)
    (issued : (insertedFor t e.thread).filter (·.1 = orderId)=[])
  | inserted (order : getOrder e.db orderId=getOrder st.db orderId)
    (before : saving orderId t=false) (after : saving orderId e.thread=true)
    (serial : String) (issued : (insertedFor t e.thread).filter (·.1 = orderId)=[(orderId,serial)])
    (ready : completed orderId st.db=false) (alone : ∀ t∈st.threads,saving orderId t=false)
  | saved (order : completed orderId e.db=true) (before : saving orderId t=true)
    (after : saving orderId e.thread=false)
    (issued : (insertedFor t e.thread).filter (·.1 = orderId)=[])
  | readied (order : completed orderId e.db=false) (was : completed orderId st.db=false)
    (before : saving orderId t=false) (after : saving orderId e.thread=false)
    (issued : (insertedFor t e.thread).filter (·.1 = orderId)=[])

theorem getOrder_saveOrder_self (db : Db) (o : AcmeOrder) :
    getOrder (saveOrder db o) o.id=some o := lookup_upsert_self o db.orders

theorem getOrder_saveOrder_of_ne {db : Db} {o : AcmeOrder} {id : String} (h : o.id≠id) :
    getOrder (saveOrder db o) id=getOrder db id := lookup_upsert_of_ne db.orders h

theorem getOrder_congr {db db' : Db} (h : db'.orders=db.orders) (id : String) :
    getOrder db' id=getOrder db id := by
  rw [getOrder,h]
  rfl

theorem newOrderStep_touches {orderId : String} {st : State} (inp : Input) {stage : NewOrderStage}
    {o : AcmeOrder} {todo : List Identifier} {allValid : Bool}
    (hother : stage=.next → todo=[] → allValid=true → o.id≠orderId) :
    Touches orderId st (.newOrder stage o todo allValid)
      (newOrderStep inp st.db stage o todo allValid) := by
  refine .kept (newOrderStep_getOrder inp st.db hother) rfl ?_ rfl
  obtain hthread|⟨later,left,valid,hthread⟩ := newOrderStep_thread inp st.db stage o todo allValid
  · rw [hthread]
    rfl
  · rw [hthread]
    rfl

theorem verifyStep_touches {orderId : String} {st : State} (inp : Input) {stage : VerifyStage}
    {c : AcmeChallenge} {a : AcmeAuthz} {o : Option AcmeOrder}
    (hopen : ∀ order,stage=.order → o=some order → order.id=orderId →
      ∀ s,getOrder st.db orderId=some s → s.status≠3) :
    Touches orderId st (.verify stage c a o) (verifyStep inp st.db stage c a o) := by
  have hafter : saving orderId (verifyStep inp st.db stage c a o).thread=false := by
    obtain hthread|⟨later,b,hthread⟩ := verifyStep_thread inp st.db stage c a o
    · rw [hthread]
      rfl
    · rw [hthread]
      rfl
  by_cases hstage : stage=.order
  · subst hstage
    cases o with
    | none => exact .kept rfl rfl rfl rfl
    | some order =>
      by_cases hid : order.id=orderId
      · subst hid
        refine .readied ?_ ?_ rfl rfl rfl
        · have hself : getOrder (verifyStep inp st.db .order c a (some order)).db order.id=
              some { order with status := 1 } := getOrder_saveOrder_self st.db _
          rw [completed,hself]
          rfl
        · cases hs : getOrder st.db order.id with
          | none => simp [completed,hs]
          | some s => simpa [completed,hs] using hopen order rfl rfl rfl s hs
      · exact .kept (getOrder_saveOrder_of_ne hid) rfl rfl rfl
  · exact .kept (getOrder_congr (verifyStep_orders inp st.db c a o hstage) orderId) rfl hafter rfl

theorem finalizeInsertStep_touches {orderId : String} {st : State} {o : AcmeOrder} {ca : String}
    {f : Finalized}
    (halone : o.id=orderId → (∃ s,getOrder st.db orderId=some s ∧ s.status=1) ∧
      ∀ t∈st.threads,saving orderId t=false) :
    Touches orderId st (.finalizeInsert o ca f) (finalizeInsertStep st.db o ca f) := by
  obtain hstep|⟨certs,hstep⟩ := finalizeInsertStep_cases st.db o ca f
  · rw [hstep]
    exact .kept rfl rfl rfl rfl
  · rw [hstep]
    by_cases hid : o.id=orderId
    · subst hid
      obtain ⟨⟨s,hs,hready⟩,hothers⟩ := halone rfl
      refine .inserted rfl rfl (by simp [saving]) f.cert.serial (by simp [insertedFor]) ?_ hothers
      simp [completed,hs,hready]
    · exact .kept rfl rfl (by simpa [saving] using hid) (by simpa [insertedFor] using hid)

theorem saving_of_light {orderId : String} {t : Thread} (h : t.light=true) :
    saving orderId t=false := by
  cases t with
  | finalizeSave o serial => cases h
  | _ => rfl

/-- A thread that reads leaves every order as it is and inserts nothing. -/
theorem advance_touches_of_reads {orderId : String} {st : State} {t : Thread} (inp : Input)
    (h : t.reads=true) : Touches orderId st t (advance inp st.db t) := by
  obtain ⟨later,hlight,hstep⟩ := advance_of_reads inp st.db h
  rw [hstep]
  refine .kept rfl ?_ (saving_of_light hlight) ?_
  · cases t with
    | finalizeSave o serial => cases h
    | _ => rfl
  · cases t with
    | finalizeInsert o ca f => cases h
    | _ => rfl

theorem advance_touches {orderId : String} {st : State} {inp : Input} {i : Nat} {t : Thread}
    (ht : st.threads[i]?=some t) (halone : Alone orderId st (.run inp i)) :
    Touches orderId st t (advance inp st.db t) := by
  simp only [Alone,ht] at halone
  by_cases hr : t.reads=true
  · exact advance_touches_of_reads inp hr
  · cases t with
    | newOrderSave account ca idents => exact .kept (getOrder_saveOrder_of_ne halone) rfl rfl rfl
    | newOrder stage o todo allValid =>
      refine newOrderStep_touches inp fun hstage htodo hall => ?_
      subst hstage htodo hall
      exact halone
    | challSave c => exact .kept rfl rfl rfl rfl
    | verifyAuthz c =>
      rw [advance]
      cases getAuthz st.db c.authzId with
      | none => exact .kept rfl rfl rfl rfl
      | some a => exact .kept rfl rfl rfl rfl
    | verifyOrder c a => exact .kept rfl rfl rfl rfl
    | verify stage c a o =>
      refine verifyStep_touches inp fun order hstage ho hid => ?_
      subst hstage ho
      exact halone hid
    | finalizeInsert o ca f => exact finalizeInsertStep_touches halone
    | finalizeSave o serial =>
      by_cases hid : o.id=orderId
      · subst hid
        refine .saved ?_ (by simp [saving]) rfl rfl
        have hself : getOrder (advance inp st.db (.finalizeSave o serial)).db o.id=
            some { o with status := 3, certSerial := serial } := getOrder_saveOrder_self st.db _
        rw [completed,hself]
        rfl
      · exact .kept (getOrder_saveOrder_of_ne hid) (by simpa [saving] using hid) rfl rfl
    | _ => exact absurd rfl hr

theorem countP_saving_eq_zero {orderId : String} {threads : List Thread}
    (h : ∀ t∈threads,saving orderId t=false) : threads.countP (saving orderId)=0 := by
  rw [List.countP_eq_zero]
  intro t ht
  rw [h t ht]
  exact Bool.false_ne_true

theorem advance_spawned (orderId : String) (inp : Input) (db : Db) (t : Thread) :
    (advance inp db t).spawned.countP (saving orderId)=0 := by
  rw [List.countP_eq_zero]
  intro x hx
  obtain ⟨id,rfl⟩ := mem_spawned hx
  exact Bool.false_ne_true

/-- The threads to save the order after a step: one less, one more, or as many as before. -/
theorem countP_step (orderId : String) {threads : List Thread} {i : Nat} {t : Thread}
    (ht : threads[i]?=some t) (x : Thread) :
    (threads.set i x).countP (saving orderId)+(if saving orderId t then 1 else 0)=
      threads.countP (saving orderId)+(if saving orderId x then 1 else 0) := by
  obtain ⟨hi,hget⟩ := List.getElem?_eq_some_iff.mp ht
  have hpos : saving orderId t=true → 0<threads.countP (saving orderId) := by
    intro hs
    exact List.countP_pos_iff.mpr ⟨t,List.mem_of_getElem? ht,hs⟩
  rw [List.countP_set hi,hget]
  by_cases hs : saving orderId t=true
  · have h0 := hpos hs
    simp only [hs,if_true]
    omega
  · simp only [hs,Bool.false_eq_true,if_false]
    omega

theorem Counted.run {orderId : String} {st : State} (h : Counted orderId st) (inp : Input)
    (i : Nat) (halone : Alone orderId st (.run inp i)) :
    Counted orderId (step st (.run inp i)) := by
  simp only [step]
  cases ht : st.threads[i]? with
  | none => exact h
  | some t =>
    have hcount := countP_step orderId ht (advance inp st.db t).thread
    have hspawned := advance_spawned orderId inp st.db t
    have haccount := h.account
    have hmost := h.atMost
    have hissued : (issuedFor orderId ⟨(advance inp st.db t).db,
        st.threads.set i (advance inp st.db t).thread++(advance inp st.db t).spawned,
        st.issued++insertedFor t (advance inp st.db t).thread⟩)=issuedFor orderId st++
          (insertedFor t (advance inp st.db t).thread).filter (·.1 = orderId) :=
      List.filter_append ..
    suffices hsum : (issuedFor orderId st++
          (insertedFor t (advance inp st.db t).thread).filter (·.1 = orderId)).length=
        (st.threads.set i (advance inp st.db t).thread).countP (saving orderId)+
          (if completed orderId (advance inp st.db t).db then 1 else 0) ∧
        (issuedFor orderId st++
          (insertedFor t (advance inp st.db t).thread).filter (·.1 = orderId)).length≤1 by
      refine ⟨?_,?_⟩
      · rw [hissued]
        simp only [List.countP_append,hspawned,Nat.add_zero]
        exact hsum.1
      · rw [hissued]
        exact hsum.2
    cases advance_touches ht halone with
    | kept order before after issued =>
      have hsame : completed orderId (advance inp st.db t).db=completed orderId st.db := by
        rw [completed,order]
        rfl
      simp only [before,after,Bool.false_eq_true,if_false] at hcount
      rw [issued,List.append_nil,hsame]
      omega
    | inserted order before after serial issued ready alone =>
      have hsame : completed orderId (advance inp st.db t).db=false := by
        rw [completed,order]
        exact ready
      have hnone := countP_saving_eq_zero alone
      simp only [before,after,Bool.false_eq_true,if_false,if_true] at hcount
      simp only [ready,Bool.false_eq_true,if_false] at haccount
      rw [issued,List.length_append,hsame]
      simp only [List.length_singleton,Bool.false_eq_true,if_false]
      omega
    | saved order before after issued =>
      simp only [before,after,Bool.false_eq_true,if_false,if_true] at hcount
      rw [issued,List.append_nil,order]
      simp only [if_true]
      -- the thread that saves is the only one, so the order was not completed before
      split at haccount
      · omega
      · omega
    | readied order was before after issued =>
      simp only [before,after,Bool.false_eq_true,if_false] at hcount
      simp only [was,Bool.false_eq_true,if_false] at haccount
      rw [issued,List.append_nil,order]
      simp only [Bool.false_eq_true,if_false]
      omega

theorem Counted.step {orderId : String} {st : State} (h : Counted orderId st) (a : Action)
    (halone : Alone orderId st a) : Counted orderId (step st a) := by
  cases a with
  | run inp i => exact h.run inp i halone
  | request inp account r =>
    have hnew : saving orderId (accept inp st.db account r)=false := by
      cases r with
      | newOrder ca idents =>
        simp only [accept]
        split
        · rfl
        · split
          · rfl
          · rfl
      | _ => rfl
    refine ⟨?_,h.atMost⟩
    have haccount := h.account
    simp only [Acme.step,List.countP_append,List.countP_singleton,hnew]
    exact haccount

/-- Once completed, the row of the order is written by nobody. -/
theorem getOrder_step {orderId : String} {st : State} {o : AcmeOrder} (h : Counted orderId st)
    (ho : getOrder st.db orderId=some o) (h3 : o.status=3) (a : Action)
    (halone : Alone orderId st a) : getOrder (step st a).db orderId=some o := by
  have hdone : completed orderId st.db=true := by simp [completed,ho,h3]
  cases a with
  | request inp account r => exact ho
  | run inp i =>
    simp only [Acme.step]
    cases ht : st.threads[i]? with
    | none => exact ho
    | some t =>
      cases advance_touches ht halone with
      | kept order before after issued => exact order.trans ho
      | inserted order before after serial issued ready alone =>
        rw [hdone] at ready
        cases ready
      | saved order before after issued =>
        have hpos : 0 < st.threads.countP (saving orderId) :=
          List.countP_pos_iff.mpr ⟨t,List.mem_of_getElem? ht,before⟩
        have haccount := h.account
        have hmost := h.atMost
        rw [hdone] at haccount
        simp only [if_true] at haccount
        omega
      | readied order was before after issued =>
        rw [hdone] at was
        cases was

/-- No certificate has been inserted for the order, and none is under way past its insert. -/
structure Unissued (orderId : String) (st : State) : Prop where
  issued : issuedFor orderId st=[]
  threads : ∀ t∈st.threads,saving orderId t=false
  order : completed orderId st.db=false

theorem Unissued.counted {orderId : String} {st : State} (h : Unissued orderId st) :
    Counted orderId st := by
  have hnone := countP_saving_eq_zero h.threads
  constructor
  · rw [h.issued,hnone,h.order]
    rfl
  · rw [h.issued]
    exact Nat.zero_le 1

/-- In every interleaving in which each insert finds the order ready with no other finalize past
its insert, and no verifier saves a completed order, the order gets one certificate at most, and
a completed order stays as it is. -/
theorem one_certificate_per_order (orderId : String) (st : State) (hst : Unissued orderId st)
    (as : List Action) (halone : Along step (Alone orderId) st as) :
    (∀ n,(issuedFor orderId (run step st (as.take n))).length≤1) ∧
    ∀ n m o,n ≤ m → getOrder (run step st (as.take n)).db orderId=some o → o.status=3 →
      getOrder (run step st (as.take m)).db orderId=some o := by
  have hcounted : ∀ n,Counted orderId (run step st (as.take n)) := fun n =>
    (halone.take n).invariant (fun st a h hq => h.step a hq) hst.counted
  refine ⟨fun n => (hcounted n).atMost,fun n m o hnm ho h3 => ?_⟩
  have hsplit : as.take m=as.take n++(as.take m).drop n := by
    have htake : as.take n=(as.take m).take n := by rw [List.take_take,Nat.min_eq_left hnm]
    rw [htake,List.take_append_drop]
  have hrest := halone.take m
  rw [hsplit,along_append] at hrest
  rw [hsplit,run_append]
  have hkeep : Counted orderId (run step (run step st (as.take n)) ((as.take m).drop n)) ∧
      getOrder (run step (run step st (as.take n)) ((as.take m).drop n)).db orderId=some o :=
    hrest.2.invariant (I := fun st => Counted orderId st ∧ getOrder st.db orderId=some o)
      (fun st a h hq => ⟨h.1.step a hq,getOrder_step h.1 h.2 h3 a hq⟩) ⟨hcounted n,ho⟩
  exact hkeep.2

/-- One ready order, and nothing else. -/
def readyOrder : State := ⟨⟨[alice],[hostOrder],[],[],[]⟩,[],[]⟩

theorem readyOrder_unissued : Unissued "7" readyOrder := by
  refine ⟨rfl,?_,by decide⟩
  intro t ht
  cases ht

def finalizeHost : Action :=
  .request (draw "") alice (.finalize "7" "ca1" (.csr (.ok (hostCsr [cnEntry "a.de"]))))

theorem one_certificate_per_order_host :
    issuedFor "7" (run step readyOrder
      [finalizeHost,.run (draw "1f") 0,.run (draw "") 0,.run (draw "") 0])=[("7","1f")] ∧
    (issuedFor "7" (run step readyOrder
      [finalizeHost,.run (draw "1f") 0,.run (draw "") 0,.run (draw "") 0])).length≤1 := by
  refine ⟨rfl,(one_certificate_per_order "7" readyOrder readyOrder_unissued
    [finalizeHost,.run (draw "1f") 0,.run (draw "") 0,.run (draw "") 0]
    ⟨trivial,trivial,?_,trivial,trivial⟩).1 4⟩
  intro _
  refine ⟨⟨hostOrder,rfl,rfl⟩,fun t ht => ?_⟩
  obtain rfl := List.mem_singleton.mp ht
  rfl

/-- Two finalize requests read the order while it is ready, and each inserts its certificate. -/
theorem two_certificates_for_one_order :
    Unissued "7" readyOrder ∧
    issuedFor "7" (run step readyOrder
      [finalizeHost,finalizeHost,.run (draw "1f") 0,.run (draw "2f") 1,.run (draw "") 0,
        .run (draw "") 1])=[("7","1f"),("7","2f")] ∧
    ¬(issuedFor "7" (run step readyOrder
      [finalizeHost,finalizeHost,.run (draw "1f") 0,.run (draw "2f") 1,.run (draw "") 0,
        .run (draw "") 1])).length≤1 := by
  have htwo : issuedFor "7" (run step readyOrder
      [finalizeHost,finalizeHost,.run (draw "1f") 0,.run (draw "2f") 1,.run (draw "") 0,
        .run (draw "") 1])=[("7","1f"),("7","2f")] := by rfl
  refine ⟨readyOrder_unissued,htwo,?_⟩
  rw [htwo]
  decide

end FastPki.Acme

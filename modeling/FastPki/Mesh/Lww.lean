import FastPki.Framework.Replica

namespace FastPki.Mesh.Lww

variable {V N : Type*}

/-- A row of a management table: its stamp, and the rest of it. -/
structure Row (V : Type*) where
  updated : Int
  value : V
  deriving DecidableEq

/-- A local write; `fastpki_stamp_updated` has set the stamp of its row. -/
inductive Write (V : Type*) where
  | insert (new : Row V)
  | update (new : Row V)
  | delete
  deriving DecidableEq

/-- What logical replication carries. -/
inductive Change (V : Type*) where
  | insert (new : Row V)
  | update (new : Row V)
  | delete
  deriving DecidableEq

/-- An INSERT on a taken key fails, an UPDATE or DELETE without a row changes nothing. -/
def write : Write V → Option (Row V) → Option (Option (Row V) × Change V)
  | .insert new,none => some (some new,.insert new)
  | .insert _,some _ => none
  | .update new,some _ => some (some new,.update new)
  | .update _,none => none
  | .delete,some _ => some (none,.delete)
  | .delete,none => none

/-- `fastpki_lww` on the apply side. It is no trigger for DELETE, and an UPDATE whose key is absent
never reaches it. -/
def lww : Change V → Option (Row V) → Option (Row V)
  | .insert new,none => some new
  | .insert new,some cur => if cur.updated<new.updated then some new else some cur
  | .update _,none => none
  | .update new,some old => if old.updated>new.updated then some old else some new
  | .delete,_ => none

abbrev Table (N V : Type*) := Replicas N (Option (Row V)) (Change V)

def step [DecidableEq N] (s : Table N V) (a : Act N (Write V)) : Table N V :=
  Replicas.step write lww s a

/-- No INSERT of the row is on its way to the node. -/
def NoInsert (s : Table N V) (j : N) : Prop := ∀ x,¬s.Arriving j (.insert x)

/-- Two rows of one stamp are the same row. -/
def Distinguished (cur : Option (Row V)) (new : Row V) : Prop :=
  ∀ c,cur=some c → c.updated=new.updated → c=new

/-- What a step has to meet for the nodes to agree in the end. A new row is either a further copy
of one that is arriving, or comes after everything about its predecessor was delivered. -/
def Settles (s : Table N V) : Act N (Write V) → Prop
  | .commit i (.insert _) => s.row i=none →
    ¬s.Arriving i .delete ∧ ((∃ x,s.Arriving i (.insert x)) ∨ s.Quiet)
  | .commit i (.update new) => ∀ old,s.row i=some old → old.updated<new.updated
  | .commit i .delete => s.row i≠none → NoInsert s i
  | .deliver i j =>
    match (s.flight i j).head? with
    | none => True
    | some (.insert new) => Distinguished (s.row j) new
    | some (.update new) => (s.row j=none → NoInsert s j) ∧ Distinguished (s.row j) new
    | some .delete => NoInsert s j

/-- At least as new. -/
def Row.Le (r x : Row V) : Prop := r=x ∨ r.updated<x.updated

theorem Row.Le.refl (r : Row V) : r.Le r := Or.inl rfl

theorem Row.Le.trans {r x y : Row V} (h : r.Le x) (h' : x.Le y) : r.Le y := by
  obtain rfl|h := h
  · exact h'
  · obtain rfl|h' := h'
    · exact Or.inr h
    · exact Or.inr (Int.lt_trans h h')

theorem Row.Le.antisymm {r x : Row V} (h : r.Le x) (h' : x.Le r) : r=x := by
  obtain rfl|h := h
  · rfl
  · obtain rfl|h' := h'
    · rfl
    · omega

/-- The row a change brings. -/
def Change.Brings (m : Change V) (x : Row V) : Prop := m=.insert x ∨ m=.update x

/-- The row at the node, or one on its way to it, is at least as new as `r`. -/
def Covers (s : Table N V) (j : N) (r : Row V) : Prop :=
  (∃ x,s.row j=some x ∧ r.Le x) ∨ ∃ m x,s.Arriving j m ∧ m.Brings x ∧ r.Le x

/-- While the row lives: every row held anywhere is covered everywhere, and nobody is behind what
they sent. -/
structure Live (s : Table N V) : Prop where
  noDelete : ∀ j,¬s.Arriving j .delete
  sender : ∀ i j m,m∈s.flight i j → ∃ r,s.row i=some r ∧ ∀ x,m.Brings x → x.Le r
  covers : ∀ i j r,s.row i=some r → Covers s j r
  arriving : ∀ i j,s.row i≠none → s.row j≠none ∨ ∃ x,s.Arriving j (.insert x)

/-- After a delete: every node is rid of the row for good, or the delete is on its way to it. -/
def Gone (s : Table N V) : Prop :=
  ∀ j,(s.row j=none ∧ NoInsert s j) ∨ s.Arriving j .delete

theorem live_of_quiet {s : Table N V} (h : s.Quiet) (hsame : ∀ i j,s.row i=s.row j) : Live s := by
  refine ⟨fun j => h.not_arriving j _,fun i j m hm => ?_,fun i j r hr => ?_,
    fun i j hi => ?_⟩
  · rw [h i j] at hm
    cases hm
  · exact Or.inl ⟨r,(hsame j i).trans hr,Row.Le.refl r⟩
  · left
    rwa [hsame j i]

/-- A new row is inserted only while the row lives, or where nothing of it is left. -/
theorem Settles.live_of_insert {s : Table N V} {i : N} {new : Row V}
    (hq : Settles s (.commit i (.insert new))) (hi : s.row i=none) (h : Live s ∨ Gone s) :
    Live s := by
  obtain h|h := h
  · exact h
  obtain ⟨hdel,hfirst⟩ := hq hi
  have hins : NoInsert s i := by
    obtain ⟨_,hins⟩|hd := h i
    · exact hins
    · exact absurd hd hdel
  obtain ⟨x,hx⟩|hquiet := hfirst
  · exact absurd hx (hins x)
  · have hnone (j : N) : s.row j=none := by
      obtain ⟨hj,_⟩|hd := h j
      · exact hj
      · exact absurd hd (hquiet.not_arriving j _)
    exact live_of_quiet hquiet fun a b => (hnone a).trans (hnone b).symm

theorem Change.Brings.eq {m : Change V} {x y : Row V} (hx : m.Brings x) (hy : m.Brings y) :
    x=y := by
  obtain rfl|rfl := hx <;> simpa [Change.Brings] using hy

theorem Covers.of_le {s : Table N V} {j : N} {r x : Row V} (hrx : r.Le x) (h : Covers s j x) :
    Covers s j r := by
  obtain ⟨y,hy,hle⟩|⟨m,y,hm,hy,hle⟩ := h
  · exact Or.inl ⟨y,hy,hrx.trans hle⟩
  · exact Or.inr ⟨m,y,hm,hy,hrx.trans hle⟩

variable [DecidableEq N]

/-- Where one node moves on to a row at least as new, no node falls behind. -/
theorem row_grows {s : Table N V} {i j : N} {new x : Row V}
    (hnewer : ∀ old,s.row i=some old → old.Le new) (hx : s.row j=some x) :
    ∃ y,Function.update s.row i (some new) j=some y ∧ x.Le y := by
  by_cases hji : j=i
  · subst hji
    exact ⟨new,by simp,hnewer x hx⟩
  · exact ⟨x,by simpa [Function.update_of_ne hji] using hx,Row.Le.refl x⟩

/-- A node writes a row at least as new as its own and sends it to the others. -/
theorem Live.commit {s : Table N V} (h : Live s) {i : N} {new : Row V} {m : Change V}
    (hm : m.Brings new) (hins : s.row i=none → m=.insert new)
    (hnewer : ∀ old,s.row i=some old → old.Le new) :
    Live ⟨Function.update s.row i (some new),Replicas.send s.flight i m⟩ := by
  have hmdel : m≠.delete := by
    obtain rfl|rfl := hm <;> simp
  refine ⟨fun j hj => ?_,fun a b x hx => ?_,fun a j r hr => ?_,fun a j _ => ?_⟩
  · obtain hj|⟨_,hj⟩ := Replicas.arriving_send.mp hj
    · exact h.noDelete j hj
    · exact hmdel hj.symm
  · obtain hx|⟨rfl,_,rfl⟩ := Replicas.mem_send.mp hx
    · obtain ⟨r,hr,hle⟩ := h.sender a b x hx
      obtain ⟨y,hy,hry⟩ := row_grows hnewer hr
      exact ⟨y,hy,fun z hz => (hle z hz).trans hry⟩
    · refine ⟨new,by simp,fun y hy => ?_⟩
      rw [hy.eq hm]
      exact Row.Le.refl new
  · by_cases hai : a=i
    · subst hai
      obtain rfl : new=r := by simpa using hr
      by_cases hja : j=a
      · subst hja
        exact Or.inl ⟨new,by simp,Row.Le.refl new⟩
      · exact Or.inr ⟨m,new,Replicas.arriving_send.mpr (Or.inr ⟨hja,rfl⟩),hm,Row.Le.refl new⟩
    · have hr' : s.row a=some r := by simpa [Function.update_of_ne hai] using hr
      obtain ⟨x,hx,hle⟩|⟨m',x,hm',hb,hle⟩ := h.covers a j r hr'
      · obtain ⟨y,hy,hxy⟩ := row_grows hnewer hx
        exact Or.inl ⟨y,hy,hle.trans hxy⟩
      · exact Or.inr ⟨m',x,Replicas.arriving_send.mpr (Or.inl hm'),hb,hle⟩
  · by_cases hji : j=i
    · subst hji
      left
      simp
    · cases hri : s.row i with
      | none =>
        right
        exact ⟨new,Replicas.arriving_send.mpr (Or.inr ⟨hji,(hins hri).symm⟩)⟩
      | some old =>
        obtain hj|⟨x,hx⟩ := h.arriving i j (by simp [hri])
        · left
          simpa [Function.update_of_ne hji] using hj
        · exact Or.inr ⟨x,Replicas.arriving_send.mpr (Or.inl hx)⟩

/-- A change is applied: the node ends with the newer of its row and the one brought. -/
theorem Live.deliver {s : Table N V} (h : Live s) {a b : N} {m : Change V} {ms : List (Change V)}
    {x y : Row V} (hf : s.flight a b=m::ms) (hx : m.Brings x) (hxy : x.Le y)
    (hcur : ∀ c,s.row b=some c → c.Le y) (hy : y=x ∨ s.row b=some y) :
    Live ⟨Function.update s.row b (some y),Replicas.receive s.flight a b⟩ := by
  obtain ⟨ra,hra,hxra⟩ := h.sender a b m (by simp [hf])
  -- what covered a row at another node still does, since nothing on its way there was taken
  have elsewhere {j : N} (hj : j≠b) {r : Row V} (hc : Covers s j r) :
      Covers ⟨Function.update s.row b (some y),Replicas.receive s.flight a b⟩ j r := by
    obtain ⟨z,hz,hle⟩|⟨m',z,hm',hz,hle⟩ := hc
    · exact Or.inl ⟨z,by simpa [Function.update_of_ne hj] using hz,hle⟩
    · obtain hm'|⟨hjb,_⟩ := Replicas.Arriving.receive_or hf hm'
      · exact Or.inr ⟨m',z,hm',hz,hle⟩
      · exact absurd hjb hj
  refine ⟨fun j hj => h.noDelete j hj.of_receive,fun i j m' hm' => ?_,fun i j r hr => ?_,
    fun i j _ => ?_⟩
  · obtain ⟨r,hr,hle⟩ := h.sender i j m' (Replicas.mem_of_mem_receive hm')
    obtain ⟨r',hr',hrr⟩ := row_grows hcur hr
    exact ⟨r',hr',fun z hz => (hle z hz).trans hrr⟩
  · by_cases hjb : j=b
    · subst hjb
      by_cases hij : i=j
      · subst hij
        exact Or.inl ⟨r,hr,Row.Le.refl r⟩
      have hr' : s.row i=some r := by simpa [Function.update_of_ne hij] using hr
      obtain ⟨z,hz,hle⟩|⟨m',z,hm',hz,hle⟩ := h.covers i j r hr'
      · exact Or.inl ⟨y,by simp,hle.trans (hcur z hz)⟩
      · obtain hm'|⟨_,rfl⟩ := Replicas.Arriving.receive_or hf hm'
        · exact Or.inr ⟨m',z,hm',hz,hle⟩
        · rw [hz.eq hx] at hle
          exact Or.inl ⟨y,by simp,hle.trans hxy⟩
    · apply elsewhere hjb
      by_cases hib : i=b
      · subst hib
        obtain rfl : y=r := by simpa using hr
        obtain rfl|hy := hy
        · exact (h.covers a j ra hra).of_le (hxra y hx)
        · exact h.covers i j y hy
      · exact h.covers i j r (by simpa [Function.update_of_ne hib] using hr)
  · by_cases hjb : j=b
    · subst hjb
      left
      simp
    · obtain hj|⟨z,hz⟩ := h.arriving a j (by simp [hra])
      · left
        simpa [Function.update_of_ne hjb] using hj
      · obtain hz|⟨hjb',_⟩ := Replicas.Arriving.receive_or hf hz
        · exact Or.inr ⟨z,hz⟩
        · exact absurd hjb' hjb

theorem lww_brings {m : Change V} {x : Row V} {cur : Option (Row V)} (hx : m.Brings x)
    (hpresent : m=.update x → cur≠none) (hd : Distinguished cur x) :
    ∃ y,lww m cur=some y ∧ x.Le y ∧ (∀ c,cur=some c → c.Le y) ∧ (y=x ∨ cur=some y) := by
  cases cur with
  | none =>
    obtain rfl|rfl := hx
    · exact ⟨x,rfl,Row.Le.refl x,by simp,Or.inl rfl⟩
    · exact absurd rfl (hpresent rfl)
  | some c =>
    have htie := hd c rfl
    obtain rfl|rfl := hx
    · by_cases hlt : c.updated<x.updated
      · refine ⟨x,if_pos hlt,Row.Le.refl x,fun c' hc' => ?_,Or.inl rfl⟩
        obtain rfl := Option.some.inj hc'
        exact Or.inr hlt
      · refine ⟨c,if_neg hlt,?_,fun c' hc' => ?_,Or.inr rfl⟩
        · by_cases heq : c.updated=x.updated
          · exact Or.inl (htie heq).symm
          · exact Or.inr (by omega)
        · exact Or.inl (Option.some.inj hc').symm
    · by_cases hgt : c.updated>x.updated
      · refine ⟨c,if_pos hgt,Or.inr hgt,fun c' hc' => ?_,Or.inr rfl⟩
        exact Or.inl (Option.some.inj hc').symm
      · refine ⟨x,if_neg hgt,Row.Le.refl x,fun c' hc' => ?_,Or.inl rfl⟩
        obtain rfl := Option.some.inj hc'
        by_cases heq : c.updated=x.updated
        · exact Or.inl (htie heq)
        · exact Or.inr (by omega)

theorem gone_of_delete {s : Table N V} {i : N} (hi : NoInsert s i) :
    Gone ⟨Function.update s.row i none,Replicas.send s.flight i .delete⟩ := by
  intro j
  by_cases hj : j=i
  · subst hj
    left
    refine ⟨by simp,fun x hx => ?_⟩
    obtain hx|⟨hne,_⟩ := Replicas.arriving_send.mp hx
    · exact hi x hx
    · exact hne rfl
  · exact Or.inr (Replicas.arriving_send.mpr (Or.inr ⟨hj,rfl⟩))

theorem Gone.update {s : Table N V} (h : Gone s) {i : N} (hi : s.row i≠none) (new : Row V) :
    Gone ⟨Function.update s.row i (some new),Replicas.send s.flight i (.update new)⟩ := by
  intro j
  obtain ⟨hj,hins⟩|hdel := h j
  · have hji : j≠i := fun heq => hi (heq ▸ hj)
    left
    refine ⟨by simpa [Function.update_of_ne hji] using hj,fun x hx => ?_⟩
    obtain hx|⟨_,hx⟩ := Replicas.arriving_send.mp hx
    · exact hins x hx
    · cases hx
  · exact Or.inr (Replicas.arriving_send.mpr (Or.inl hdel))

theorem Gone.deliver {s : Table N V} (h : Gone s) {a b : N} {m : Change V}
    {ms : List (Change V)} (hf : s.flight a b=m::ms) (hdel : m=.delete → NoInsert s b) :
    Gone ⟨Function.update s.row b (lww m (s.row b)),Replicas.receive s.flight a b⟩ := by
  intro j
  by_cases hjb : j=b
  · subst hjb
    have harr : s.Arriving j m := ⟨a,by simp [hf]⟩
    -- the row is gone here and stays so, or the delete is still behind this change
    have hrid : (lww m (s.row j)=none ∧ NoInsert s j) ∨ (s.Arriving j .delete ∧ m≠.delete) := by
      cases m with
      | delete => exact Or.inl ⟨rfl,hdel rfl⟩
      | insert x =>
        obtain ⟨_,hins⟩|hd := h j
        · exact absurd harr (hins x)
        · exact Or.inr ⟨hd,by simp⟩
      | update x =>
        obtain ⟨hj,hins⟩|hd := h j
        · exact Or.inl ⟨by rw [hj]; rfl,hins⟩
        · exact Or.inr ⟨hd,by simp⟩
    obtain ⟨hnone,hins⟩|⟨hd,hm⟩ := hrid
    · left
      exact ⟨by simpa using hnone,fun x hx => hins x hx.of_receive⟩
    · right
      obtain hd|⟨_,hd⟩ := Replicas.Arriving.receive_or hf hd
      · exact hd
      · exact absurd hd.symm hm
  · obtain ⟨hj,hins⟩|hd := h j
    · left
      refine ⟨by simpa [Function.update_of_ne hjb] using hj,fun x hx => hins x hx.of_receive⟩
    · right
      obtain hd|⟨heq,_⟩ := Replicas.Arriving.receive_or hf hd
      · exact hd
      · exact absurd heq hjb

/-- The three writes that change a row, and what each of them sends. -/
theorem write_eq_some {op : Write V} {cur out : Option (Row V)} {m : Change V}
    (h : write op cur=some (out,m)) :
    (∃ new,op=.insert new ∧ cur=none ∧ out=some new ∧ m=.insert new) ∨
    (∃ new old,op=.update new ∧ cur=some old ∧ out=some new ∧ m=.update new) ∨
    (op=.delete ∧ cur≠none ∧ out=none ∧ m=.delete) := by
  cases op with
  | insert new =>
    cases cur with
    | some old => cases h
    | none =>
      obtain ⟨rfl,rfl⟩ := Prod.mk.inj (Option.some.inj h)
      exact Or.inl ⟨new,rfl,rfl,rfl,rfl⟩
  | update new =>
    cases cur with
    | none => cases h
    | some old =>
      obtain ⟨rfl,rfl⟩ := Prod.mk.inj (Option.some.inj h)
      exact Or.inr (Or.inl ⟨new,old,rfl,rfl,rfl,rfl⟩)
  | delete =>
    cases cur with
    | none => cases h
    | some old =>
      obtain ⟨rfl,rfl⟩ := Prod.mk.inj (Option.some.inj h)
      exact Or.inr (Or.inr ⟨rfl,by simp,rfl,rfl⟩)

theorem commit_keeps {s : Table N V} {i : N} {op : Write V} {out : Option (Row V)} {m : Change V}
    (hw : write op (s.row i)=some (out,m)) (hq : Settles s (.commit i op)) (h : Live s ∨ Gone s) :
    Live ⟨Function.update s.row i out,Replicas.send s.flight i m⟩ ∨
      Gone ⟨Function.update s.row i out,Replicas.send s.flight i m⟩ := by
  obtain ⟨new,rfl,hi,rfl,rfl⟩|⟨new,old,rfl,hi,rfl,rfl⟩|⟨rfl,hi,rfl,rfl⟩ := write_eq_some hw
  · left
    exact (hq.live_of_insert hi h).commit (Or.inl rfl) (fun _ => rfl) (by simp [hi])
  · obtain h|h := h
    · left
      refine h.commit (Or.inr rfl) (by simp [hi]) fun c hc => ?_
      exact Or.inr (hq c hc)
    · exact Or.inr (h.update (by simp [hi]) new)
  · exact Or.inr (gone_of_delete (hq hi))

theorem deliver_keeps {s : Table N V} {i j : N} {m : Change V} {ms : List (Change V)}
    (hf : s.flight i j=m::ms) (hq : Settles s (.deliver i j)) (h : Live s ∨ Gone s) :
    Live ⟨Function.update s.row j (lww m (s.row j)),Replicas.receive s.flight i j⟩ ∨
      Gone ⟨Function.update s.row j (lww m (s.row j)),Replicas.receive s.flight i j⟩ := by
  simp only [Settles,hf,List.head?_cons] at hq
  obtain h|h := h
  · left
    have hsent := h.sender i j m (by simp [hf])
    have bring {x : Row V} (hx : m.Brings x) (hp : m=.update x → s.row j≠none)
        (hd : Distinguished (s.row j) x) : Live
          ⟨Function.update s.row j (lww m (s.row j)),Replicas.receive s.flight i j⟩ := by
      obtain ⟨y,hy,hxy,hcur,hor⟩ := lww_brings hx hp hd
      rw [hy]
      exact h.deliver hf hx hxy hcur hor
    cases m with
    | insert x => exact bring (Or.inl rfl) (by simp) hq
    | update x =>
      refine bring (Or.inr rfl) (fun _ hnone => ?_) hq.2
      obtain ⟨r,hr,_⟩ := hsent
      obtain hj|⟨z,hz⟩ := h.arriving i j (by simp [hr])
      · exact hj hnone
      · exact hq.1 hnone z hz
    | delete => exact absurd ⟨i,by simp [hf]⟩ (h.noDelete j)
  · right
    refine h.deliver hf fun hm => ?_
    subst hm
    exact hq

/-- One step that settles leaves the row alive or gone. -/
theorem step_keeps {s : Table N V} {a : Act N (Write V)} (hq : Settles s a)
    (h : Live s ∨ Gone s) : Live (step s a) ∨ Gone (step s a) := by
  refine Replicas.step_keeps (C := fun s => Live s ∨ Gone s) h ?_ ?_
  · intro i op out m ha hw
    subst ha
    exact commit_keeps hw hq h
  · intro i j m ms ha hf
    subst ha
    exact deliver_keeps hf hq h

/-- From nodes that agree, in every run whose steps all settle, the nodes agree again once
everything has been delivered. -/
theorem lww_converges (s : Table N V) (hquiet : s.Quiet) (hsame : ∀ i j,s.row i=s.row j)
    (acts : List (Act N (Write V))) (hset : Along step Settles s acts)
    (hdone : (run step s acts).Quiet) (i j : N) :
    (run step s acts).row i=(run step s acts).row j := by
  have hinv : Live (run step s acts) ∨ Gone (run step s acts) := by
    exact Along.invariant (I := fun s => Live s ∨ Gone s) (fun s a h hq => step_keeps hq h) hset
      (Or.inl (live_of_quiet hquiet hsame))
  obtain h|h := hinv
  · have upto {a b : N} {r : Row V} (hr : (run step s acts).row a=some r) :
        ∃ x,(run step s acts).row b=some x ∧ r.Le x := by
      obtain hx|⟨m,x,hm,_⟩ := h.covers a b r hr
      · exact hx
      · exact absurd hm (hdone.not_arriving b m)
    cases hi : (run step s acts).row i with
    | none =>
      cases hj : (run step s acts).row j with
      | none => rfl
      | some r =>
        obtain ⟨x,hx,_⟩ := upto (b := i) hj
        rw [hi] at hx
        cases hx
    | some r =>
      obtain ⟨x,hx,hrx⟩ := upto (b := j) hi
      obtain ⟨y,hy,hxy⟩ := upto (b := i) hx
      rw [hi] at hy
      obtain rfl := Option.some.inj hy
      rw [hx,hrx.antisymm hxy]
  · have hnone (a : N) : (run step s acts).row a=none := by
      obtain ⟨ha,_⟩|hd := h a
      · exact ha
      · exact absurd hd (hdone.not_arriving a _)
    rw [hnone i,hnone j]

/-- Two nodes that both hold `r`. -/
def agreed (r : Option (Row String)) : Table (Fin 2) String := ⟨fun _ => r,fun _ _ => []⟩

/-- Both nodes create the same key; the later creation wins on both. -/
def twoCreations : List (Act (Fin 2) (Write String)) :=
  [.commit 0 (.insert ⟨1,"requester"⟩),.commit 1 (.insert ⟨2,"admin"⟩),.deliver 0 1,.deliver 1 0]

theorem lww_converges_two_creations :
    (run step (agreed none) twoCreations).row 0=some ⟨2,"admin"⟩ ∧
    (run step (agreed none) twoCreations).row 0=(run step (agreed none) twoCreations).row 1 := by
  refine ⟨by decide,lww_converges (agreed none) (fun _ _ => rfl) (fun _ _ => rfl) twoCreations
    ⟨fun _ => ⟨?_,?_⟩,fun _ => ⟨?_,?_⟩,?_,?_,trivial⟩ ?_ 0 1⟩
  · exact Replicas.Quiet.not_arriving (fun _ _ => rfl) 0 _
  · exact Or.inr fun _ _ => rfl
  · simp only [Replicas.Arriving]
    decide
  · exact Or.inl ⟨⟨1,"requester"⟩,0,by decide⟩
  · intro c hc htie
    obtain rfl : (⟨2,"admin"⟩ : Row String)=c := Option.some.inj hc
    exact absurd htie (by decide)
  · intro c hc htie
    obtain rfl : (⟨1,"requester"⟩ : Row String)=c := Option.some.inj hc
    exact absurd htie (by decide)
  · simp only [Replicas.Quiet]
    decide

/-- Two updates of one stamp: each node takes the row of the other. -/
theorem lww_diverges_on_equal_stamps :
    (run step (agreed (some ⟨0,"requester"⟩)) [.commit 0 (.update ⟨5,"auditor"⟩),
      .commit 1 (.update ⟨5,"admin"⟩),.deliver 0 1,.deliver 1 0]).Quiet ∧
    (run step (agreed (some ⟨0,"requester"⟩)) [.commit 0 (.update ⟨5,"auditor"⟩),
      .commit 1 (.update ⟨5,"admin"⟩),.deliver 0 1,.deliver 1 0]).row 0≠
    (run step (agreed (some ⟨0,"requester"⟩)) [.commit 0 (.update ⟨5,"auditor"⟩),
      .commit 1 (.update ⟨5,"admin"⟩),.deliver 0 1,.deliver 1 0]).row 1 := by
  refine ⟨?_,by decide⟩
  simp only [Replicas.Quiet]
  decide

end FastPki.Mesh.Lww

import FastPki.Framework.Run
import Mathlib.Logic.Function.Basic

namespace FastPki

/-- Nodes that each hold a state and send every change they commit to every other node. A change
is applied once at each of them, over one link in the order of the commits, and not sent on. -/
structure Replicas (N S M : Type*) where
  row : N → S
  /-- Committed at the first node and not yet applied at the second, oldest first. -/
  flight : N → N → List M

inductive Act (N O : Type*) where
  | commit (i : N) (op : O)
  | deliver (i j : N)
  deriving DecidableEq

namespace Replicas

variable {N S M O : Type*}

def Quiet (s : Replicas N S M) : Prop := ∀ i j,s.flight i j=[]

/-- Some link to the node carries the change. -/
def Arriving (s : Replicas N S M) (j : N) (m : M) : Prop := ∃ i,m∈s.flight i j

theorem Quiet.not_arriving {s : Replicas N S M} (h : s.Quiet) (j : N) (m : M) :
    ¬s.Arriving j m := by
  intro hm
  obtain ⟨i,hm⟩ := hm
  rw [h i j] at hm
  cases hm

variable [DecidableEq N]

def send (flight : N → N → List M) (i : N) (m : M) : N → N → List M := fun a b =>
  if a=i ∧ b≠i then flight a b++[m] else flight a b

def receive (flight : N → N → List M) (i j : N) : N → N → List M := fun a b =>
  if a=i ∧ b=j then (flight a b).tail else flight a b

/-- A write that changes no row sends nothing. -/
def step (write : O → S → Option (S × M)) (apply : M → S → S) (s : Replicas N S M) :
    Act N O → Replicas N S M
  | .commit i op =>
    match write op (s.row i) with
    | none => s
    | some (r,m) => ⟨Function.update s.row i r,send s.flight i m⟩
  | .deliver i j =>
    match s.flight i j with
    | [] => s
    | m::_ => ⟨Function.update s.row j (apply m (s.row j)),receive s.flight i j⟩

section Steps

variable {write : O → S → Option (S × M)} {apply : M → S → S} {s : Replicas N S M}

theorem step_refused {i : N} {op : O} (h : write op (s.row i)=none) :
    step write apply s (.commit i op)=s := by
  simp only [step,h]

theorem step_commit {i : N} {op : O} {r : S} {m : M} (h : write op (s.row i)=some (r,m)) :
    step write apply s (.commit i op)=⟨Function.update s.row i r,send s.flight i m⟩ := by
  simp only [step,h]

theorem step_idle {i j : N} (h : s.flight i j=[]) : step write apply s (.deliver i j)=s := by
  simp only [step,h]

theorem step_deliver {i j : N} {m : M} {ms : List M} (h : s.flight i j=m::ms) :
    step write apply s (.deliver i j)=
      ⟨Function.update s.row j (apply m (s.row j)),receive s.flight i j⟩ := by
  simp only [step,h]

/-- What a commit that changes its row keeps, and what a delivery keeps, one step keeps. -/
theorem step_keeps {C : Replicas N S M → Prop} {a : Act N O} (hs : C s)
    (commit : ∀ i op r m,a=.commit i op → write op (s.row i)=some (r,m) →
      C ⟨Function.update s.row i r,send s.flight i m⟩)
    (deliver : ∀ i j m ms,a=.deliver i j → s.flight i j=m::ms →
      C ⟨Function.update s.row j (apply m (s.row j)),receive s.flight i j⟩) :
    C (step write apply s a) := by
  cases a with
  | commit i op =>
    cases hw : write op (s.row i) with
    | none => rwa [step_refused hw]
    | some out =>
      rw [step_commit hw]
      exact commit i op out.1 out.2 rfl hw
  | deliver i j =>
    cases hf : s.flight i j with
    | nil => rwa [step_idle hf]
    | cons m ms =>
      rw [step_deliver hf]
      exact deliver i j m ms rfl hf

end Steps

theorem mem_send {flight : N → N → List M} {i a b : N} {m x : M} :
    x∈send flight i m a b ↔ x∈flight a b ∨ (a=i ∧ b≠i ∧ x=m) := by
  simp only [send]
  split_ifs with h
  · simp [h.1,h.2]
  · constructor
    · exact Or.inl
    · intro hx
      obtain hx|⟨ha,hb,_⟩ := hx
      · exact hx
      · exact absurd ⟨ha,hb⟩ h

theorem mem_of_mem_receive {flight : N → N → List M} {i j a b : N} {x : M}
    (h : x∈receive flight i j a b) : x∈flight a b := by
  simp only [receive] at h
  split_ifs at h with hab
  · exact List.mem_of_mem_tail h
  · exact h

/-- A delivery takes the oldest change of one link and no other. -/
theorem mem_receive_or {flight : N → N → List M} {i j a b : N} {m x : M} {ms : List M}
    (hm : flight i j=m::ms) (h : x∈flight a b) :
    x∈receive flight i j a b ∨ (a=i ∧ b=j ∧ x=m) := by
  simp only [receive]
  split_ifs with hab
  · obtain ⟨rfl,rfl⟩ := hab
    rw [hm] at h ⊢
    obtain rfl|h := List.mem_cons.mp h
    · exact Or.inr ⟨rfl,rfl,rfl⟩
    · exact Or.inl h
  · exact Or.inl h

section Arriving

variable {row : N → S} {flight : N → N → List M} {i j b : N} {m x : M}

theorem arriving_send : (Replicas.mk row (send flight i m)).Arriving b x ↔
    (Replicas.mk row flight).Arriving b x ∨ (b≠i ∧ x=m) := by
  simp only [Arriving,mem_send]
  constructor
  · intro h
    obtain ⟨a,h|⟨_,hb,hx⟩⟩ := h
    · exact Or.inl ⟨a,h⟩
    · exact Or.inr ⟨hb,hx⟩
  · intro h
    obtain ⟨a,h⟩|⟨hb,hx⟩ := h
    · exact ⟨a,Or.inl h⟩
    · exact ⟨i,Or.inr ⟨rfl,hb,hx⟩⟩

theorem Arriving.of_receive (h : (Replicas.mk row (receive flight i j)).Arriving b x) :
    (Replicas.mk row flight).Arriving b x := by
  obtain ⟨a,h⟩ := h
  exact ⟨a,mem_of_mem_receive h⟩

theorem Arriving.receive_or {ms : List M} (hm : flight i j=m::ms)
    (h : (Replicas.mk row flight).Arriving b x) :
    (Replicas.mk row (receive flight i j)).Arriving b x ∨ (b=j ∧ x=m) := by
  obtain ⟨a,h⟩ := h
  obtain h|⟨_,hb,hx⟩ := mem_receive_or hm h
  · exact Or.inl ⟨a,h⟩
  · exact Or.inr ⟨hb,hx⟩

end Arriving

end Replicas

end FastPki

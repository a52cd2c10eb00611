import Mathlib.Data.List.Basic
import Mathlib.Order.Lattice

namespace FastPki

/-- A map that is walked in the order of its keys, as `std::map` is. -/
structure OrderedMap (κ ν : Type*) [LinearOrder κ] where
  entries : List (κ × ν)
  sorted : entries.Pairwise fun a b => a.1 < b.1

namespace OrderedMap

variable {κ ν : Type*} [LinearOrder κ]

def empty : OrderedMap κ ν := ⟨[],List.Pairwise.nil⟩

/-- An entry in its place; it replaces the one of its key. -/
def place (k : κ) (v : ν) : List (κ × ν) → List (κ × ν)
  | [] => [(k,v)]
  | e::rest => if k < e.1 then (k,v)::e::rest
      else if k = e.1 then (k,v)::rest else e::place k v rest

theorem mem_place {k : κ} {v : ν} {l : List (κ × ν)} {e : κ × ν} (h : e∈place k v l) :
    e=(k,v) ∨ e∈l := by
  induction l with
  | nil => exact Or.inl (List.mem_singleton.mp h)
  | cons a l ih =>
    rw [place] at h
    split_ifs at h with hlt heq
    · exact (List.mem_cons.mp h).imp_right id
    · exact (List.mem_cons.mp h).imp_right (List.mem_cons_of_mem a)
    · obtain rfl|hrest := List.mem_cons.mp h
      · exact Or.inr List.mem_cons_self
      · exact (ih hrest).imp_right (List.mem_cons_of_mem a)

theorem sorted_place (k : κ) (v : ν) {l : List (κ × ν)} (h : l.Pairwise fun a b => a.1 < b.1) :
    (place k v l).Pairwise fun a b => a.1 < b.1 := by
  induction l with
  | nil => exact List.pairwise_singleton _ _
  | cons a l ih =>
    obtain ⟨hfirst,hrest⟩ := List.pairwise_cons.mp h
    rw [place]
    split_ifs with hlt heq
    · refine List.pairwise_cons.mpr ⟨fun b hb => ?_,h⟩
      obtain rfl|hb := List.mem_cons.mp hb
      · exact hlt
      · exact hlt.trans (hfirst b hb)
    · subst heq
      exact List.pairwise_cons.mpr ⟨hfirst,hrest⟩
    · refine List.pairwise_cons.mpr ⟨fun b hb => ?_,ih hrest⟩
      obtain rfl|hb := mem_place hb
      · exact lt_of_le_of_ne (not_lt.mp hlt) (Ne.symm heq)
      · exact hfirst b hb

def find (m : OrderedMap κ ν) (k : κ) : Option ν := m.entries.lookup k

def insert (m : OrderedMap κ ν) (k : κ) (v : ν) : OrderedMap κ ν :=
  ⟨place k v m.entries,sorted_place k v m.sorted⟩

def erase (m : OrderedMap κ ν) (k : κ) : OrderedMap κ ν :=
  ⟨m.entries.filter fun e => e.1 ≠ k,m.sorted.filter _⟩

def filter (m : OrderedMap κ ν) (p : κ → ν → Bool) : OrderedMap κ ν :=
  ⟨m.entries.filter fun e => p e.1 e.2,m.sorted.filter _⟩

theorem find_cons {a : κ × ν} {l : List (κ × ν)} (h : (a::l).Pairwise fun a b => a.1 < b.1) (k : κ) :
    (⟨a::l,h⟩ : OrderedMap κ ν).find k=
      if k=a.1 then some a.2 else (⟨l,h.of_cons⟩ : OrderedMap κ ν).find k := by
  simp only [find]
  grind

/-- The first key is not found again. -/
theorem find_tail {a : κ × ν} {l : List (κ × ν)} (h : (a::l).Pairwise fun a b => a.1 < b.1) :
    (⟨l,h.of_cons⟩ : OrderedMap κ ν).find a.1=none := by
  rw [find,List.lookup_eq_none_iff]
  intro b hb
  have hlt := (List.pairwise_cons.mp h).1 b hb
  simpa using hlt.ne

@[simp] theorem find_empty (k : κ) : (empty : OrderedMap κ ν).find k=none := rfl

theorem lookup_place (k k' : κ) (v : ν) (l : List (κ × ν)) :
    (place k v l).lookup k'=if k'=k then some v else l.lookup k' := by
  induction l with
  | nil =>
    rw [place]
    grind
  | cons a l ih =>
    rw [place]
    split_ifs with hlt heq hk hk hk
    all_goals grind

@[simp] theorem find_insert (m : OrderedMap κ ν) (k k' : κ) (v : ν) :
    (m.insert k v).find k'=if k'=k then some v else m.find k' :=
  lookup_place k k' v m.entries

theorem mem_entries_iff {m : OrderedMap κ ν} {k : κ} {v : ν} :
    (k,v)∈m.entries ↔ m.find k=some v := by
  obtain ⟨l,hl⟩ := m
  induction l with
  | nil => simp [find]
  | cons a l ih =>
    rw [find_cons,List.mem_cons]
    split_ifs with h
    · have hnot : (k,v)∉l := fun hmem => by
        have hfound := (ih hl.of_cons).mp hmem
        rw [h,find_tail hl] at hfound
        cases hfound
      rw [or_iff_left hnot,h,Option.some.injEq,Prod.ext_iff]
      exact ⟨fun heq => heq.2.symm,fun heq => ⟨rfl,heq.symm⟩⟩
    · rw [or_iff_right fun heq => h (by rw [← heq])]
      exact ih hl.of_cons

theorem mem_keys_iff {m : OrderedMap κ ν} {k : κ} :
    k∈m.entries.map Prod.fst ↔ (m.find k).isSome=true := by
  rw [List.mem_map,Option.isSome_iff_exists]
  constructor
  · rintro ⟨⟨_,v⟩,hmem,rfl⟩
    exact ⟨v,mem_entries_iff.mp hmem⟩
  · rintro ⟨v,hfind⟩
    exact ⟨(k,v),mem_entries_iff.mpr hfind,rfl⟩

theorem nodup_entries (m : OrderedMap κ ν) : m.entries.Nodup :=
  m.sorted.imp fun {a b} (hlt : a.1 < b.1) (heq : a=b) => lt_irrefl b.1 (heq ▸ hlt)

theorem find_eq_none_iff {m : OrderedMap κ ν} {k : κ} : m.find k=none ↔ ∀ v,(k,v)∉m.entries := by
  simp only [mem_entries_iff]
  exact Option.eq_none_iff_forall_ne_some

/-- What is found is all there is. -/
theorem ext_find {m n : OrderedMap κ ν} (h : ∀ k,m.find k=n.find k) : m=n := by
  have hperm : m.entries.Perm n.entries := by
    refine (List.perm_ext_iff_of_nodup m.nodup_entries n.nodup_entries).mpr ?_
    rintro ⟨k,v⟩
    rw [mem_entries_iff,mem_entries_iff,h]
  have heq := hperm.eq_of_pairwise (fun a b _ _ hab hba => absurd (hab.trans hba) (lt_irrefl _))
    m.sorted n.sorted
  obtain ⟨_,_⟩ := m
  obtain ⟨_,_⟩ := n
  cases heq
  rfl

theorem entries_eq_nil_iff {m : OrderedMap κ ν} : m.entries=[] ↔ ∀ k,m.find k=none := by
  rw [List.eq_nil_iff_forall_not_mem]
  exact ⟨fun h k => find_eq_none_iff.mpr fun v => h (k,v),
    fun h e => find_eq_none_iff.mp (h e.1) e.2⟩

/-- What is there already may be put there again. -/
theorem insert_of_find {m : OrderedMap κ ν} {k : κ} {v : ν} (h : m.find k=some v) :
    m.insert k v=m := by
  apply ext_find
  intro k'
  rw [find_insert]
  split_ifs with hk
  · rw [hk,h]
  · rfl

@[simp] theorem find_erase (m : OrderedMap κ ν) (k k' : κ) :
    (m.erase k).find k'=if k'=k then none else m.find k' := by
  apply Option.ext
  intro v
  rw [← mem_entries_iff,erase,List.mem_filter,mem_entries_iff]
  by_cases h : k'=k <;> simp [h]

@[simp] theorem find_filter (m : OrderedMap κ ν) (p : κ → ν → Bool) (k : κ) :
    (m.filter p).find k=(m.find k).filter (p k) := by
  apply Option.ext
  intro v
  rw [← mem_entries_iff,filter,List.mem_filter,mem_entries_iff,Option.filter_eq_some_iff]

end OrderedMap

end FastPki

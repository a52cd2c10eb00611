import Mathlib.Data.List.Nodup
import Mathlib.Data.List.Sort

namespace FastPki.Xml

abbrev Text := List UInt8

structure Attr where
  ns : Option Text
  name : Text
  value : Text
  deriving DecidableEq

/-- A node with what follows it among its siblings, as a pointer to it gives them. The address
tells apart two elements that are spelled alike. -/
inductive Nodes where
  | nil
  | element (addr : Nat) (ns : Option Text) (name : Text) (attrs : List Attr)
    (children next : Nodes)
  | text (s : Text) (next : Nodes)
  | comment (s : Text) (next : Nodes)
  deriving DecidableEq

namespace Nodes

def addr : Nodes → Nat
  | element addr _ _ _ _ _ => addr
  | _ => 0

def attrs : Nodes → List Attr
  | element _ _ _ attrs _ _ => attrs
  | _ => []

def children : Nodes → Nodes
  | element _ _ _ _ children _ => children
  | _ => nil

/-- An element of this namespace and local name. -/
def is (ns name : Text) : Nodes → Bool
  | element _ ens ename _ _ _ => ens = some ns ∧ ename = name
  | _ => false

/-- An element of this local name, whatever its namespace. -/
def named (name : Text) : Nodes → Bool
  | element _ _ ename _ _ _ => ename = name
  | _ => false

/-- The first attribute of a local name, whatever its namespace. -/
def getProp (n : Nodes) (name : Text) : Option Attr := n.attrs.find? (·.name = name)

/-- The elements in document order. -/
def elements : Nodes → List Nodes
  | nil => []
  | element addr ns name attrs children next =>
    element addr ns name attrs children next::elements children++elements next
  | text _ next => elements next
  | comment _ next => elements next

/-- The elements among the siblings. -/
def siblings : Nodes → List Nodes
  | nil => []
  | element addr ns name attrs children next =>
    element addr ns name attrs children next::siblings next
  | text _ next => siblings next
  | comment _ next => siblings next

/-- The text of a subtree and of what follows it; comments have none. -/
def content : Nodes → Text
  | nil => []
  | element _ _ _ _ children next => content children++content next
  | text s next => s++content next
  | comment _ next => content next

/-- The node without its siblings. -/
def alone : Nodes → Nodes
  | element addr ns name attrs children _ => element addr ns name attrs children nil
  | _ => nil

def without (addr : Nat) : Nodes → Nodes
  | nil => nil
  | element a ns name attrs children next =>
    if a = addr then without addr next
    else element a ns name attrs (without addr children) (without addr next)
  | text s next => text s (without addr next)
  | comment s next => comment s (without addr next)

def dropComments : Nodes → Nodes
  | nil => nil
  | element a ns name attrs children next =>
    element a ns name attrs (dropComments children) (dropComments next)
  | text s next => text s (dropComments next)
  | comment _ next => dropComments next

/-- A pointer to an element. -/
def IsElement (n : Nodes) : Prop :=
  ∃ addr ns name attrs children next,n=element addr ns name attrs children next

theorem siblings_isElement {n x : Nodes} (h : x∈n.siblings) : IsElement x := by
  induction n with
  | nil => exact absurd h List.not_mem_nil
  | element addr ns name attrs children next _ ih =>
    obtain rfl|h := List.mem_cons.mp h
    · exact ⟨addr,ns,name,attrs,children,next,rfl⟩
    · exact ih h
  | text _ _ ih => exact ih h
  | comment _ _ ih => exact ih h

theorem siblings_subset (n : Nodes) : n.siblings⊆n.elements := by
  induction n with
  | nil => exact List.Subset.refl _
  | element a ns name attrs children next _ ih =>
    intro x hx
    obtain rfl|hx := List.mem_cons.mp hx
    · simp [elements]
    · simp [elements,ih hx]
  | text _ _ ih => exact ih
  | comment _ _ ih => exact ih

theorem children_subset {n x : Nodes} (hx : x∈n.elements) :
    x.children.elements⊆n.elements := by
  induction n with
  | nil => exact absurd hx List.not_mem_nil
  | element a ns name attrs children next ihc ihn =>
    intro y hy
    simp only [elements,List.cons_append,List.mem_cons,List.mem_append] at hx ⊢
    obtain rfl|hx|hx := hx
    · exact .inr (.inl hy)
    · exact .inr (.inl (ihc hx hy))
    · exact .inr (.inr (ihn hx hy))
  | text _ _ ih => exact ih hx
  | comment _ _ ih => exact ih hx

/-- Distinct addresses stay distinct inside an element. -/
theorem nodup_inside {n x : Nodes} (hn : (n.elements.map addr).Nodup) (hx : x∈n.elements) :
    x.addr∉x.children.elements.map addr ∧ (x.children.elements.map addr).Nodup := by
  induction n with
  | nil => exact absurd hx List.not_mem_nil
  | element a ns name attrs children next ihc ihn =>
    simp only [elements,List.cons_append,List.map_cons,List.map_append,List.nodup_cons,
      List.nodup_append,List.mem_append,not_or] at hn
    obtain ⟨⟨hself,_⟩,hchildren,hnext,_⟩ := hn
    simp only [elements,List.cons_append,List.mem_cons,List.mem_append] at hx
    obtain rfl|hx|hx := hx
    · exact ⟨hself,hchildren⟩
    · exact ihc hchildren hx
    · exact ihn hnext hx
  | text _ _ ih => exact ih hn hx
  | comment _ _ ih => exact ih hn hx

/-- With distinct addresses, the address of a sibling does not occur inside another one. -/
theorem addr_not_inside {n s x : Nodes} (hn : (n.elements.map addr).Nodup) (hs : s∈n.siblings)
    (hx : x∈n.siblings) (hne : s≠x) : s.addr∉x.children.elements.map addr := by
  induction n with
  | nil => exact absurd hs List.not_mem_nil
  | element a ns name attrs children next _ ih =>
    simp only [elements,List.cons_append,List.map_cons,List.map_append,List.nodup_cons,
      List.nodup_append,List.mem_append,not_or] at hn
    obtain ⟨⟨_,hafter⟩,_,hnext,hdisjoint⟩ := hn
    obtain rfl|hs := List.mem_cons.mp hs
    · obtain rfl|hx := List.mem_cons.mp hx
      · exact absurd rfl hne
      · intro hin
        have hsub := children_subset (siblings_subset next hx)
        exact hafter (List.map_subset addr hsub hin)
    · have hsin : s.addr∈next.elements.map addr :=
        List.mem_map_of_mem (siblings_subset next hs)
      obtain rfl|hx := List.mem_cons.mp hx
      · intro hin
        exact hdisjoint _ hin _ hsin rfl
      · exact ih hnext hs hx
  | text _ _ ih => exact ih hn hs hx
  | comment _ _ ih => exact ih hn hs hx

theorem without_of_not_mem {addr : Nat} {n : Nodes} (h : addr∉n.elements.map Nodes.addr) :
    n.without addr=n := by
  induction n with
  | nil => rfl
  | element a ns name attrs children next ihc ihn =>
    simp only [elements,List.cons_append,List.map_cons,List.map_append,List.mem_cons,
      List.mem_append,not_or] at h
    rw [without,if_neg (fun heq => h.1 heq.symm),ihc h.2.1,ihn h.2.2]
  | text s next ih => rw [without,ih h]
  | comment s next ih => rw [without,ih h]

theorem siblings_without {addr : Nat} {n : Nodes} :
    (n.without addr).siblings=(n.siblings.filter (·.addr ≠ addr)).map (without addr) := by
  induction n with
  | nil => rfl
  | element a ns name attrs children next _ ih =>
    rw [without,siblings]
    split_ifs with ha
    · rw [List.filter_cons_of_neg (by simp [Nodes.addr,ha]),ih]
    · rw [List.filter_cons_of_pos (by simp [Nodes.addr,ha]),List.map_cons,siblings,ih,
        without,if_neg ha]
  | text s next ih => exact ih
  | comment s next ih => exact ih

theorem siblings_dropComments (n : Nodes) :
    n.dropComments.siblings=n.siblings.map dropComments := by
  induction n with
  | nil => rfl
  | element a ns name attrs children next _ ih => rw [dropComments,siblings,ih]; rfl
  | text s next ih => exact ih
  | comment s next ih => exact ih

theorem IsElement.dropComments {n : Nodes} (h : IsElement n) :
    n.dropComments.children=n.children.dropComments ∧ n.dropComments.attrs=n.attrs ∧
      (∀ ns name,n.dropComments.is ns name=n.is ns name) ∧
      ∀ name,n.dropComments.named name=n.named name := by
  obtain ⟨addr,ns,name,attrs,children,next,rfl⟩ := h
  exact ⟨rfl,rfl,fun _ _ => rfl,fun _ => rfl⟩

theorem IsElement.without {n : Nodes} (h : IsElement n) {addr : Nat} (hne : n.addr≠addr) :
    IsElement (n.without addr) ∧ (n.without addr).children=n.children.without addr ∧
      ∀ ns name,(n.without addr).is ns name=n.is ns name := by
  obtain ⟨a,ns,name,attrs,children,next,rfl⟩ := h
  have hne' : a≠addr := hne
  rw [Nodes.without,if_neg hne']
  exact ⟨⟨a,ns,name,attrs,_,_,rfl⟩,rfl,fun _ _ => rfl⟩

theorem IsElement.alone {n : Nodes} (h : IsElement n) :
    IsElement n.alone ∧ n.alone.addr=n.addr ∧ n.alone.children=n.children := by
  obtain ⟨addr,ns,name,attrs,children,next,rfl⟩ := h
  exact ⟨⟨addr,ns,name,attrs,children,nil,rfl⟩,rfl,rfl⟩

theorem isElement_of_is {n : Nodes} {ns name : Text} (h : n.is ns name=true) : IsElement n := by
  cases n with
  | element addr ns name attrs children next => exact ⟨addr,ns,name,attrs,children,next,rfl⟩
  | nil => cases h
  | text _ _ => cases h
  | comment _ _ => cases h

theorem content_dropComments (n : Nodes) : n.dropComments.content=n.content := by
  induction n with
  | nil => rfl
  | element a ns name attrs children next ihc ihn => rw [dropComments,content,ihc,ihn]; rfl
  | text s next ih => rw [dropComments,content,ih]; rfl
  | comment s next ih => exact ih

end Nodes

/-- A document from its root element on. The addresses of its elements are distinct. -/
structure Doc where
  root : Nodes
  doctype : Bool
  distinct : (root.elements.map Nodes.addr).Nodup

/-- A canonical form: no comments, no two texts side by side, attributes in order. -/
inductive Canon where
  | nil
  | element (ns : Option Text) (name : Text) (attrs : List Attr) (children next : Canon)
  | text (s : Text) (next : Canon)
  deriving DecidableEq

/-- By namespace, none first, then by name. -/
def sortAttrs (attrs : List Attr) : List Attr :=
  attrs.insertionSort fun a b =>
    a.ns.getD [] < b.ns.getD [] ∨ a.ns.getD [] = b.ns.getD [] ∧ a.name ≤ b.name

def Canon.joinText (s : Text) : Canon → Canon
  | .text t next => .text (s++t) next
  | c => .text s c

def Nodes.canonical : Nodes → Canon
  | nil => .nil
  | element _ ns name attrs children next =>
    .element ns name (sortAttrs attrs) (canonical children) (canonical next)
  | text s next => .joinText s (canonical next)
  | comment _ next => canonical next

theorem mem_sortAttrs {attrs : List Attr} {a : Attr} : a∈sortAttrs attrs ↔ a∈attrs := by
  simp [sortAttrs]

theorem Nodes.canonical_dropComments (n : Nodes) : n.dropComments.canonical=n.canonical := by
  induction n with
  | nil => rfl
  | element a ns name attrs children next ihc ihn => rw [dropComments,canonical,ihc,ihn]; rfl
  | text s next ih => rw [dropComments,canonical,ih]; rfl
  | comment s next ih => exact ih

namespace Canon

def attrs : Canon → List Attr
  | element _ _ attrs _ _ => attrs
  | _ => []

def children : Canon → Canon
  | element _ _ _ children _ => children
  | _ => nil

def is (ns name : Text) : Canon → Bool
  | element ens ename _ _ _ => ens = some ns ∧ ename = name
  | _ => false

def siblings : Canon → List Canon
  | nil => []
  | element ns name attrs children next => element ns name attrs children next::siblings next
  | text _ next => siblings next

theorem siblings_joinText (s : Text) (c : Canon) : (joinText s c).siblings=c.siblings := by
  cases c <;> rfl

end Canon

/-- The elements of a canonical form are those of the document. -/
theorem Nodes.siblings_canonical (n : Nodes) :
    n.canonical.siblings=n.siblings.map Nodes.canonical := by
  induction n with
  | nil => rfl
  | element addr ns name attrs children next _ ih => rw [canonical,Canon.siblings,ih]; rfl
  | text s next ih => rw [canonical,Canon.siblings_joinText,ih]; rfl
  | comment s next ih => exact ih

theorem Nodes.IsElement.canonical {n : Nodes} (h : IsElement n) :
    n.canonical.children=n.children.canonical ∧ n.canonical.attrs=sortAttrs n.attrs ∧
      ∀ ns name,n.canonical.is ns name=n.is ns name := by
  obtain ⟨addr,ns,name,attrs,children,next,rfl⟩ := h
  exact ⟨rfl,rfl,fun _ _ => rfl⟩

end FastPki.Xml
